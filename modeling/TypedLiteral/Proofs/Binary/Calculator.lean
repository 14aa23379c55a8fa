import TypedLiteral.Binary.Calculator
import TypedLiteral.Proofs.Binary.Digits
import TypedLiteral.Proofs.Binary.Rounding

/-!
Runs of the calculator. What a step leaves is told a second time by the laws of arithmetic:
a set bit by all the bits, a quotient by its remainder, a rounding by the distance. These
laws leave a run no choice, and the calculator holds the numbers that they lead to. What it
answers about its number afterwards are views of one row of digits.
-/
namespace TypedLiteral.Binary

theorem setBit_iff (n index result : Nat) :
    (∀ place, result.testBit place = (n.testBit place || decide (index = place))) ↔
      result = setBit n index := by
  have bits (place : Nat) :
      (setBit n index).testBit place = (n.testBit place || decide (index = place)) := by
    rw [← Nat.testBit_two_pow]
    exact Nat.testBit_or n (2 ^ index) place
  constructor
  · intro told
    exact Nat.eq_of_testBit_eq fun place => (told place).trans (bits place).symm
  · rintro rfl
    exact bits

namespace Calculator

/-- What a step makes of the numbers that are held, by the laws of arithmetic. -/
inductive Leads (state : Calculator) : Step → Calculator → Prop where
  | set (n : Nat) : state.Leads (.set n) { state with accumulator := n }
  | powerOfTen (exponent : Nat) :
      state.Leads (.powerOfTen exponent) { state with accumulator := 10 ^ exponent }
  | multiply (factor : Nat) :
      state.Leads (.multiply factor) { state with accumulator := state.accumulator * factor }
  | add (addend : Nat) :
      state.Leads (.add addend) { state with accumulator := state.accumulator + addend }
  | setBit (index n : Nat)
      (bits : ∀ place, n.testBit place =
        (state.accumulator.testBit place || decide (index = place))) :
      state.Leads (.setBit index) { state with accumulator := n }
  | shiftLeft (count : Nat) :
      state.Leads (.shiftLeft count) { state with accumulator := state.accumulator * 2 ^ count }
  | save : state.Leads .save { state with registers := state.registers ++ [state.accumulator] }
  | load (index : Nat) :
      state.Leads (.load index) { state with accumulator := state.register index }
  | round (precision : Nat) (incoming : Direction) (n : Nat) (direction : Direction)
      (rounds : Rounds state.accumulator precision incoming (n, direction)) :
      state.Leads (.round precision incoming) ⟨n, state.registers, direction⟩
  | roundAgain (precision : Nat) (following : Calculator)
      (leads : state.Leads (.round precision state.last) following) :
      state.Leads (.roundAgain precision) following
  | divide (index quotient remainder : Nat)
      (whole : state.accumulator = quotient * state.register index + remainder)
      (less : remainder < state.register index) :
      state.Leads (.divide index) ⟨quotient, state.registers ++ [remainder], state.last⟩
  | refuse (index : Nat) (zero : state.register index = 0) : state.Leads (.divide index) state
  | compare (index : Nat) : state.Leads (.compare index) state
  | bit (index : Nat) : state.Leads (.bit index) state
  | leadingBits (count : Nat) : state.Leads (.leadingBits count) state
  | describe : state.Leads .describe state

inductive Reaches : Calculator → List Step → Calculator → Prop where
  | done (state : Calculator) : state.Reaches [] state
  | step {state middle last : Calculator} {next : Step} {rest : List Step}
      (leads : state.Leads next middle) (reaches : middle.Reaches rest last) :
      state.Reaches (next :: rest) last

/-- What is asked behind a row of steps is answered behind their answers. -/
def Answers (state : Calculator) (steps : List Step) (asked : Step) (answer : Answer) : Prop :=
  state.run (steps ++ [asked]) = state.run steps ++ [.ok answer]

variable (state : Calculator)

theorem after_cons (next : Step) (rest : List Step) :
    state.after (next :: rest) = (state.after [next]).after rest := by
  simp only [after]
  cases state.step next <;> rfl

theorem run_append (first second : List Step) :
    state.run (first ++ second) = state.run first ++ (state.after first).run second := by
  induction first generalizing state with
  | nil => rfl
  | cons next rest ih =>
      simp only [List.cons_append, run, after]
      cases state.step next with
      | error violation => exact congrArg _ (ih state)
      | ok following => exact congrArg _ (ih following.1)

theorem answers_of_step {steps : List Step} {asked : Step} {answer : Answer}
    {following : Calculator}
    (answered : (state.after steps).step asked = .ok (following, answer)) :
    state.Answers steps asked answer := by
  rw [Answers, run_append]
  simp only [run, answered]

theorem after_leadingBits (count : Nat) : state.after [.leadingBits count] = state := by
  simp only [after, step]
  cases Binary.leadingBits state.accumulator count <;> rfl

theorem after_refused {index : Nat} (zero : state.register index = 0) :
    state.after [.divide index] = state := by
  simp only [after, step, Binary.divide, zero, ↓reduceIte]
  rfl

theorem after_divided {index : Nat} (present : state.register index ≠ 0) :
    state.after [.divide index] =
      ⟨state.accumulator / state.register index,
        state.registers ++ [state.accumulator % state.register index], state.last⟩ := by
  simp only [after, step, Binary.divide, present, ↓reduceIte]
  rfl

theorem leads_after (next : Step) : state.Leads next (state.after [next]) := by
  cases next with
  | set n => exact .set n
  | powerOfTen exponent => exact .powerOfTen exponent
  | multiply factor => exact .multiply factor
  | add addend => exact .add addend
  | setBit index => exact .setBit index _ ((setBit_iff _ _ _).mpr rfl)
  | shiftLeft count => exact .shiftLeft count
  | save => exact .save
  | load index => exact .load index
  | round precision incoming => exact .round _ _ _ _ ((rounds_iff _ _ _ _).mpr rfl)
  | roundAgain precision =>
      exact .roundAgain _ _ (.round _ _ _ _ ((rounds_iff _ _ _ _).mpr rfl))
  | divide index =>
      by_cases zero : state.register index = 0
      · rw [after_refused state zero]
        exact .refuse index zero
      · rw [after_divided state zero]
        exact .divide index _ _ (Nat.div_add_mod' _ _).symm
          (Nat.mod_lt _ (Nat.pos_of_ne_zero zero))
  | compare index => exact .compare index
  | bit index => exact .bit index
  | leadingBits count =>
      rw [after_leadingBits]
      exact .leadingBits count
  | describe => exact .describe

theorem Leads.eq_after {state following : Calculator} {next : Step}
    (leads : state.Leads next following) : following = state.after [next] := by
  induction leads with
  | setBit index n bits =>
      rw [(setBit_iff _ _ _).mp bits]
      rfl
  | round precision incoming n direction rounds =>
      have outcome := (rounds_iff _ _ _ _).mp rounds
      simp [after, step, Calculator.round, ← outcome]
  | roundAgain precision following _ ih => exact ih
  | divide index quotient remainder whole less =>
      have positive : 0 < state.register index := Nat.zero_lt_of_lt less
      have split : remainder + state.register index * quotient = state.accumulator := by
        rw [whole, Nat.add_comm, Nat.mul_comm]
      obtain ⟨whole, rest⟩ := (Nat.div_mod_unique positive).mpr ⟨split, less⟩
      rw [after_divided state positive.ne', whole, rest]
  | refuse index zero => exact (after_refused state zero).symm
  | leadingBits count => exact (after_leadingBits state count).symm
  | _ => rfl

theorem reaches_iff (steps : List Step) (last : Calculator) :
    state.Reaches steps last ↔ last = state.after steps := by
  induction steps generalizing state with
  | nil =>
      constructor
      · intro reaches
        cases reaches
        rfl
      · rintro rfl
        exact .done _
  | cons next rest ih =>
      rw [after_cons]
      constructor
      · intro reaches
        cases reaches with
        | step leads reaches =>
            rw [← leads.eq_after]
            exact (ih _).mp reaches
      · intro same
        exact .step (state.leads_after next) ((ih _).mpr same)

/-- After any row of steps the calculator holds the numbers that the laws of arithmetic lead
to, and no others. The digits of its number are the only row that stands for the number,
and its length in bits gives their count, which is told with the number's description. A
bit that it is asked for is a bit of a digit, with none behind the last one, and the leading
bits, as many as there are and 64 at most, are those that stay when the others are shifted
out. -/
theorem run_views_agree (steps : List Step) :
    let held := start.after steps
    let n := held.accumulator
    (∀ last, start.Reaches steps last ↔ last = held) ∧
      start.Answers steps (.add 0) (.number n) ∧
      start.Answers steps .describe (.description
        ⟨decide (n = 0), max 1 (bitLength n ⌈/⌉ 32), bitLength n,
          if n < 2 ^ 64 then some n else none⟩) ∧
      (∀ row, IsDigits row n ↔ row = digits n) ∧
      (digits n).length = max 1 (bitLength n ⌈/⌉ 32) ∧
      (∀ length, bitLength n ≤ length ↔ n < 2 ^ length) ∧
      (∀ index, start.Answers steps (.bit index)
        (.bit (((digits n)[index / 32]?).any fun digit => digit.testBit (index % 32)))) ∧
      ∀ count ≤ 64, count ≤ bitLength n →
        start.Answers steps (.leadingBits count) (.leading (n >>> (bitLength n - count))) ∧
          bitLength (n >>> (bitLength n - count)) = count := by
  intro held n
  refine ⟨start.reaches_iff steps, start.answers_of_step rfl, ?_, fun row => isDigits_iff row n,
    digits_length n, bitLength_le n, ?_, ?_⟩
  · rw [← digits_length]
    exact start.answers_of_step rfl
  · intro index
    rw [← testBit_digits]
    exact start.answers_of_step rfl
  · intro count bounded present
    have answered : held.step (.leadingBits count) =
        .ok (held, .leading (n >>> (bitLength n - count))) := by
      rw [step, leadingBits_shiftRight n count bounded present]
      rfl
    refine ⟨start.answers_of_step answered, ?_⟩
    rw [bitLength_shiftRight, Nat.sub_sub_self present]

/-- A rounding carries 32 set bits into a second digit. -/
theorem run_views_agree_carry :
    let steps := [Step.set 4294967295, .round 4 .exact]
    (start.after steps).accumulator = 4294967296 ∧ digits 4294967296 = [0, 1] ∧
      (5 ≤ 64 ∧ 5 ≤ bitLength 4294967296) ∧
      start.Answers steps (.leadingBits 5) (.leading 16) ∧ bitLength 16 = 5 := by
  intro steps
  obtain ⟨_, _, _, row, _, _, _, leading⟩ := run_views_agree steps
  have held : (start.after steps).accumulator = 4294967296 := by decide
  rw [held] at row leading
  have two : IsDigits [0, 1] 4294967296 := ⟨by decide, by decide, by decide, by decide⟩
  have present : 5 ≤ bitLength 4294967296 := by decide
  have answered := leading 5 (by decide) present
  exact ⟨held, ((row _).mp two).symm, ⟨by decide, present⟩, answered.1, answered.2⟩

end Calculator

end TypedLiteral.Binary

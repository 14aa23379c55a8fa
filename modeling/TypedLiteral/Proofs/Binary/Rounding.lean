import Mathlib.Algebra.Order.Group.Unbundled.Abs
import Mathlib.Algebra.Order.Ring.Int
import TypedLiteral.Binary.Rounding

/-!
What one rounding does to a number of any length, whatever direction it comes with:
the nearest multiple of the unit, at a tie the one on the exact number's side, and the
side of the number on which the result lies. There is one such outcome for every number
(`rounds_iff`), and a second rounding to the same precision finds nothing to drop. The
remainder need not be compared with the unit for it: the first bit that is dropped, and
whether one behind it is set, decide alike (`round_by_bits`).
-/
namespace TypedLiteral.Binary

/-- The multiple of a unit that a number is rounded to. At a tie above `lower` an earlier
rounding down leads to the upper multiple, one up to the lower, and none to the even. -/
structure RoundedTo (unit n : Nat) (incoming : Direction) (result : Nat × Direction) : Prop where
  multiple : unit ∣ result.1
  near : 2 * |(result.1 : ℤ) - n| ≤ unit
  tie : ∀ lower, 2 * n = 2 * (lower * unit) + unit → ∃ quotient, result.1 = quotient * unit ∧
    match incoming with
    | .down => quotient = lower + 1
    | .up => quotient = lower
    | .exact => quotient % 2 = 0
  side : (n < result.1 ∧ result.2 = .up) ∨ (result.1 < n ∧ result.2 = .down)

theorem roundsUp_iff (unit quotient rest : Nat) (incoming : Direction) :
    roundsUp unit quotient rest incoming = true ↔
      unit < 2 * rest ∨ 2 * rest = unit ∧ incoming.breaksUp quotient = true := by
  unfold roundsUp
  rcases Nat.lt_trichotomy (2 * rest) unit with below | halfway | above
  · simp only [below, ↓reduceIte, Bool.false_eq_true, false_iff, not_or, not_and]
    exact ⟨Nat.lt_asymm below, fun same => absurd same (Nat.ne_of_lt below)⟩
  · simp [halfway]
  · simp [above, Nat.lt_asymm above]

theorem rest_zero_iff (n cutoff : Nat) :
    n % weight 2 cutoff = 0 ↔ ∀ index < cutoff, n.testBit index = false := by
  have below (index : Nat) : (n % weight 2 cutoff).testBit index =
      (decide (index < cutoff) && n.testBit index) := Nat.testBit_mod_two_pow n cutoff index
  constructor
  · intro clear index inside
    simpa [clear, inside] using (below index).symm
  · intro clear
    refine Nat.eq_of_testBit_eq fun index => ?_
    rw [below, Nat.zero_testBit]
    by_cases inside : index < cutoff
    · simp [clear index inside]
    · simp [inside]

theorem rest_succ (n cutoff : Nat) : n % weight 2 (cutoff + 1) =
    (if n.testBit cutoff then weight 2 cutoff else 0) + n % weight 2 cutoff := by
  have split : n % weight 2 (cutoff + 1) =
      n % weight 2 cutoff + weight 2 cutoff * (n / weight 2 cutoff % 2) := Nat.mod_pow_succ
  have first : n.testBit cutoff = decide (n / weight 2 cutoff % 2 = 1) :=
    Nat.testBit_eq_decide_div_mod_eq
  rw [split, first]
  rcases Nat.mod_two_eq_zero_or_one (n / weight 2 cutoff) with clear | set
  · simp [clear]
  · simp [set, Nat.add_comm]

theorem roundsUp_bits (n cutoff kept : Nat) (incoming : Direction) :
    roundsUp (weight 2 (cutoff + 1)) kept (n % weight 2 (cutoff + 1)) incoming = true ↔
      n.testBit cutoff = true ∧
        (n % weight 2 cutoff ≠ 0 ∨ incoming.breaksUp kept = true) := by
  have small := Nat.mod_lt n (bit_pos cutoff)
  rw [roundsUp_iff, rest_succ, weight_succ]
  generalize weight 2 cutoff = half at *
  cases n.testBit cutoff with
  | false =>
      simp only [Bool.false_eq_true, ↓reduceIte, false_and, iff_false]
      omega
  | true =>
      have above : half * 2 < 2 * (half + n % half) ↔ n % half ≠ 0 := by omega
      have tie : 2 * (half + n % half) = half * 2 ↔ n % half = 0 := by omega
      simp only [↓reduceIte, true_and, above, tie]
      by_cases clear : n % half = 0
      · simp [clear]
      · simp [clear]

/-- Rounding by the bits alone: the first one that is dropped, and whether any bit behind
it is set. -/
theorem round_by_bits (n precision : Nat) (incoming : Direction)
    (longer : precision < bitLength n) :
    let cutoff := bitLength n - precision - 1
    let kept := n / weight 2 (cutoff + 1)
    roundToBits n precision incoming =
      if ∀ index ≤ cutoff, n.testBit index = false then (n, incoming)
      else if n.testBit cutoff = true ∧
          ((∃ index < cutoff, n.testBit index = true) ∨ incoming.breaksUp kept = true) then
        ((kept + 1) * weight 2 (cutoff + 1), .up)
      else (kept * weight 2 (cutoff + 1), .down) := by
  intro cutoff kept
  have place : bitLength n - precision = cutoff + 1 := by omega
  have behind : (∃ index < cutoff, n.testBit index = true) ↔ n % weight 2 cutoff ≠ 0 := by
    rw [Ne, rest_zero_iff]
    simp
  rw [roundToBits, place]
  simp only [roundsUp_bits, ← Nat.lt_succ_iff, ← rest_zero_iff, behind, kept,
    Nat.succ_eq_add_one]

section Partly

variable {unit n : Nat} {incoming : Direction} (positive : 0 < unit)
include positive

theorem quotient_of_tie {lower : Nat} (halfway : 2 * n = 2 * (lower * unit) + unit) :
    n / unit = lower ∧ 2 * (n % unit) = unit := by
  have whole := Nat.div_add_mod' n unit
  have same : n / unit = lower :=
    Nat.div_eq_of_lt_le (by omega) (by rw [Nat.succ_mul]; omega)
  rw [same] at whole
  exact ⟨same, by omega⟩

theorem rounded_down (partly : ¬ unit ∣ n)
    (stays : ¬ roundsUp unit (n / unit) (n % unit) incoming = true) :
    RoundedTo unit n incoming (n / unit * unit, .down) := by
  have whole := Nat.div_add_mod' n unit
  have rest : 0 < n % unit := Nat.pos_of_ne_zero fun none => partly (Nat.dvd_of_mod_eq_zero none)
  rw [roundsUp_iff, not_or, not_and] at stays
  obtain ⟨low, decided⟩ := stays
  have less : n / unit * unit < n := by omega
  refine ⟨Nat.dvd_mul_left _ _, ?_, ?_, .inr ⟨less, rfl⟩⟩
  · have below : ((n / unit * unit : ℕ) : ℤ) - n ≤ 0 := by omega
    rw [abs_of_nonpos below]
    omega
  · intro lower halfway
    obtain ⟨rfl, half⟩ := quotient_of_tie positive halfway
    refine ⟨n / unit, rfl, ?_⟩
    cases incoming with
    | down => exact absurd rfl (decided half)
    | up => rfl
    | exact =>
        have even := decided half
        simp only [Direction.breaksUp, decide_eq_true_eq] at even
        exact Nat.mod_two_ne_one.mp even

theorem rounded_up (moves : roundsUp unit (n / unit) (n % unit) incoming = true) :
    RoundedTo unit n incoming ((n / unit + 1) * unit, .up) := by
  have whole := Nat.div_add_mod' n unit
  have rest := Nat.mod_lt n positive
  rw [roundsUp_iff] at moves
  have next : (n / unit + 1) * unit = n / unit * unit + unit := Nat.succ_mul _ _
  have more : n < (n / unit + 1) * unit := by omega
  refine ⟨Nat.dvd_mul_left _ _, ?_, ?_, .inl ⟨more, rfl⟩⟩
  · have above : 0 ≤ (((n / unit + 1) * unit : ℕ) : ℤ) - n := by omega
    rw [abs_of_nonneg above]
    omega
  · intro lower halfway
    obtain ⟨rfl, half⟩ := quotient_of_tie positive halfway
    have decided : incoming.breaksUp (n / unit) = true :=
      (moves.resolve_left (by omega)).2
    refine ⟨n / unit + 1, rfl, ?_⟩
    cases incoming with
    | down => rfl
    | up => cases decided
    | exact =>
        simp only [Direction.breaksUp, decide_eq_true_eq] at decided
        show (n / unit + 1) % 2 = 0
        omega

end Partly

section Unique

variable {unit n : Nat} {incoming : Direction} {first second : Nat × Direction}
variable (positive : 0 < unit) (left : RoundedTo unit n incoming first)
variable (right : RoundedTo unit n incoming second)
include positive left right

theorem RoundedTo.not_lt : ¬ first.1 < second.1 := by
  -- Two different ones would be the ends of a tie, and each direction leads to one of them.
  intro less
  obtain ⟨low, lower⟩ := left.multiple
  obtain ⟨high, upper⟩ := right.multiple
  have apart : low + 1 ≤ high := Nat.lt_of_mul_lt_mul_left (lower ▸ upper ▸ less)
  have step : unit * (low + 1) ≤ unit * high := Nat.mul_le_mul_left unit apart
  rw [Nat.mul_succ, ← lower, ← upper] at step
  have nearLeft := left.near
  have nearRight := right.near
  have above := neg_abs_le ((first.1 : ℤ) - n)
  have below := le_abs_self ((second.1 : ℤ) - n)
  rw [Nat.mul_comm] at lower upper
  -- A unit lies between them, and half of one on either side of the number.
  have halfway : 2 * n = 2 * (low * unit) + unit := by omega
  have next : second.1 = (low + 1) * unit := by rw [Nat.succ_mul]; omega
  obtain ⟨ended, leftEnd, decided⟩ := left.tie low halfway
  obtain ⟨other, rightEnd, decidedOther⟩ := right.tie low halfway
  have same : ended = low := Nat.eq_of_mul_eq_mul_right positive (leftEnd.symm.trans lower)
  have sameOther : other = low + 1 := Nat.eq_of_mul_eq_mul_right positive (rightEnd.symm.trans next)
  cases incoming with
  | down => dsimp only at decided; omega
  | up => dsimp only at decidedOther; omega
  | exact => dsimp only at decided decidedOther; omega

theorem RoundedTo.unique : first = second := by
  have value : first.1 = second.1 :=
    Nat.le_antisymm (Nat.le_of_not_lt (right.not_lt positive left))
      (Nat.le_of_not_lt (left.not_lt positive right))
  refine Prod.ext value ?_
  rcases left.side with ⟨more, leftUp⟩ | ⟨less, leftDown⟩ <;>
    rcases right.side with ⟨moreToo, rightUp⟩ | ⟨lessToo, rightDown⟩
  · exact leftUp.trans rightUp.symm
  · omega
  · omega
  · exact leftDown.trans rightDown.symm

end Unique

variable (n precision : Nat) (incoming : Direction)

theorem round_partly (partly : ¬ weight 2 (bitLength n - precision) ∣ n) :
    RoundedTo (weight 2 (bitLength n - precision)) n incoming
      (roundToBits n precision incoming) := by
  have positive := bit_pos (bitLength n - precision)
  rw [roundToBits]
  generalize weight 2 (bitLength n - precision) = unit at *
  simp only [mt Nat.dvd_of_mod_eq_zero partly, ↓reduceIte]
  split
  · next moves => exact rounded_up positive moves
  · next stays => exact rounded_down positive partly stays

/-- The outcome of rounding a number, told by multiples and distances alone. -/
def Rounds (result : Nat × Direction) : Prop :=
  if weight 2 (bitLength n - precision) ∣ n then result = (n, incoming)
  else RoundedTo (weight 2 (bitLength n - precision)) n incoming result

theorem rounds_iff (result : Nat × Direction) :
    Rounds n precision incoming result ↔ result = roundToBits n precision incoming := by
  unfold Rounds
  split
  · next divides => rw [round_multiple n precision incoming divides]
  · next partly =>
      have rounded := round_partly n precision incoming partly
      constructor
      · exact fun other => other.unique (bit_pos _) rounded
      · rintro rfl
        exact rounded

theorem round_again (positive : 1 ≤ precision) :
    roundToBits (roundToBits n precision incoming).1 precision
      (roundToBits n precision incoming).2 = roundToBits n precision incoming := by
  have divides := round_dvd n precision incoming
  refine round_multiple _ precision _ ?_
  rcases round_length n precision incoming positive with kept | carry
  · rw [kept]
    exact divides
  · rw [carry, bitLength_weight]
    exact weight_dvd 2 (by omega)

/-- A number that has no more bits than are kept, or nothing but zeros behind them, stays
as it is and keeps its direction. Every other number goes to the nearest multiple of the
unit, with its direction to break ties, and comes out with the direction of the error. A
rounded number is rounded to itself by the same precision. Where the number is cut, the
first bit that is dropped and those behind it tell the outcome. -/
theorem round_breaks_ties :
    (bitLength n ≤ precision ∨ weight 2 (bitLength n - precision) ∣ n →
      roundToBits n precision incoming = (n, incoming)) ∧
    (¬ (bitLength n ≤ precision ∨ weight 2 (bitLength n - precision) ∣ n) →
      RoundedTo (weight 2 (bitLength n - precision)) n incoming
        (roundToBits n precision incoming)) ∧
    (1 ≤ precision →
      roundToBits (roundToBits n precision incoming).1 precision
        (roundToBits n precision incoming).2 = roundToBits n precision incoming) ∧
    (precision < bitLength n →
      let cutoff := bitLength n - precision - 1
      let kept := n / weight 2 (cutoff + 1)
      roundToBits n precision incoming =
        if ∀ index ≤ cutoff, n.testBit index = false then (n, incoming)
        else if n.testBit cutoff = true ∧
            ((∃ index < cutoff, n.testBit index = true) ∨ incoming.breaksUp kept = true) then
          ((kept + 1) * weight 2 (cutoff + 1), .up)
        else (kept * weight 2 (cutoff + 1), .down)) := by
  refine ⟨?_, ?_, round_again n precision incoming, round_by_bits n precision incoming⟩
  · rintro (short | divides)
    · have whole : weight 2 (bitLength n - precision) ∣ n := by
        rw [Nat.sub_eq_zero_of_le short]
        exact Nat.one_dvd n
      exact round_multiple n precision incoming whole
    · exact round_multiple n precision incoming divides
  · intro longer
    exact round_partly n precision incoming fun divides => longer (.inr divides)

/-- A tie with an odd quotient: told that the exact number is smaller, it is rounded down
to the odd multiple; told nothing, it is carried to a longer number, which stays. -/
theorem round_ties_of_248 : roundToBits 248 4 .up = (240, .down) ∧
    RoundedTo (weight 2 (bitLength 248 - 4)) 248 .up (240, .down) ∧
    RoundedTo (weight 2 (bitLength 248 - 4)) 248 .exact (256, .up) ∧
    roundToBits 256 4 .up = (256, .up) := by
  have dropped : ¬ (bitLength 248 ≤ 4 ∨ weight 2 (bitLength 248 - 4) ∣ 248) := by decide
  obtain ⟨_, up, _, bits⟩ := round_breaks_ties 248 4 .up
  obtain ⟨_, exact, again, _⟩ := round_breaks_ties 248 4 .exact
  have told : roundToBits 248 4 .up = (240, .down) := (bits (by decide)).trans (by decide)
  have untold : roundToBits 248 4 .exact = (256, .up) := by decide
  have first := up dropped
  have second := exact dropped
  have third := again (by decide)
  rw [told] at first
  rw [untold] at second third
  exact ⟨told, first, second, third⟩

end TypedLiteral.Binary

import Mathlib.Data.List.Forall2
import Mathlib.Data.Nat.Digits.Defs
import Mathlib.Tactic.IntervalCases
import TypedLiteral.Numeral

/-!
The value of a row of digits as a sum over the powers of its radix. A text spells
a row of digit values when each of its characters is the mark of its digit, in
either case; reading such a text never fails, whatever its length.
-/
namespace TypedLiteral

/-- The text is a row of digits to this radix, each of them in either case. -/
def Spelled (radix : Nat) (text : List Char) (values : List Nat) : Prop :=
  List.Forall₂ (fun c value => value < radix ∧
    (c = Nat.digitChar value ∨ c = (Nat.digitChar value).toUpper)) text values

namespace Base

def Spells (base : Base) (text : List Char) (values : List Nat) : Prop :=
  Spelled base.radix text values

theorem radix_of_mem {base : Base} {radix : Nat}
    (named : (base, radix) ∈ [(.binary, 2), (.octal, 8), (.decimal, 10), (.hex, 16)]) :
    base.radix = radix := by
  simp only [List.mem_cons, Prod.mk.injEq, List.not_mem_nil, or_false] at named
  rcases named with ⟨rfl, rfl⟩ | ⟨rfl, rfl⟩ | ⟨rfl, rfl⟩ | ⟨rfl, rfl⟩ <;> rfl

theorem radix_le (base : Base) : base.radix ≤ 16 := by
  cases base <;> decide

theorem mark_byte (value : Nat) (c : Char) (bounded : value < 16)
    (marked : c = Nat.digitChar value ∨ c = (Nat.digitChar value).toUpper) :
    String.utf8EncodeChar c = [UInt8.ofNat c.toNat] ∧
      digitValue? (UInt8.ofNat c.toNat).toNat = some value := by
  interval_cases value <;> rcases marked with rfl | rfl <;> decide

theorem digits_spelled (base : Base) (text : List Char) (values : List Nat)
    (spelled : base.Spells text values) : base.digits (Utf8.bytes text) = .ok values := by
  induction spelled with
  | nil => rfl
  | @cons c value rest tail head _ ih =>
      have bounded := Nat.lt_of_lt_of_le head.1 base.radix_le
      obtain ⟨single, known⟩ := mark_byte value c bounded head.2
      have read : base.digit? (UInt8.ofNat c.toNat) = some value := by
        rw [digit?, known]
        simp [Option.filter, head.1]
      simp only [Utf8.bytes] at ih
      simp [Utf8.bytes, single, digits, read, ih, Except.map]

/-- Reading digits from the left is summing them over the powers of the radix. -/
theorem positional_ofDigits (base : Base) (values : List Nat) :
    base.positional values = Nat.ofDigits base.radix values.reverse := by
  rw [Nat.ofDigits_eq_foldr, List.foldr_reverse]
  simp [positional, Nat.mul_comm, Nat.add_comm]

theorem magnitude_spelled (base : Base) (text : List Char) (values : List Nat)
    (spelled : base.Spells text values) :
    base.magnitude text = .ok (Nat.ofDigits base.radix values.reverse) := by
  simp [magnitude, digits_spelled base text values spelled, positional_ofDigits, Except.map]

/-- A character that stands for a digit of the base, in either case. -/
def Mark (base : Base) (c : Char) (value : Nat) : Prop :=
  value < base.radix ∧ (c = Nat.digitChar value ∨ c = (Nat.digitChar value).toUpper)

def IsDigit (base : Base) (c : Char) : Prop := ∃ value, base.Mark c value

theorem digitValue_cases {code value : Nat} (known : digitValue? code = some value) :
    (48 ≤ code ∧ code ≤ 57 ∧ value = code - 48) ∨ (65 ≤ code ∧ code ≤ 70 ∧ value = code - 55) ∨
      (97 ≤ code ∧ code ≤ 102 ∧ value = code - 87) := by
  unfold digitValue? at known
  split at known
  · cases known
    omega
  · split at known
    · cases known
      omega
    · split at known
      · cases known
        omega
      · cases known

theorem marked_of_digitValue {c : Char} {value : Nat} (known : digitValue? c.toNat = some value) :
    c = Nat.digitChar value ∨ c = (Nat.digitChar value).toUpper := by
  have range := digitValue_cases known
  rw [← Char.ofNat_toNat c]
  generalize c.toNat = code at *
  rcases range with ⟨low, high, rfl⟩ | ⟨low, high, rfl⟩ | ⟨low, high, rfl⟩
  · interval_cases code <;> decide
  · interval_cases code <;> decide
  · interval_cases code <;> decide

theorem mark_iff (base : Base) (c : Char) (value : Nat) :
    base.Mark c value ↔ digitValue? c.toNat = some value ∧ value < base.radix := by
  constructor
  · rintro ⟨bounded, marked⟩
    refine ⟨?_, bounded⟩
    have small := Nat.lt_of_lt_of_le bounded base.radix_le
    interval_cases value <;> rcases marked with rfl | rfl <;> rfl
  · rintro ⟨known, bounded⟩
    exact ⟨bounded, marked_of_digitValue known⟩

theorem spells_of_digits (base : Base) (text : List Char) (all : ∀ c ∈ text, base.IsDigit c) :
    ∃ values, base.Spells text values := by
  induction text with
  | nil => exact ⟨[], .nil⟩
  | cons c rest ih =>
      obtain ⟨⟨value, mark⟩, later⟩ := List.forall_mem_cons.mp all
      obtain ⟨values, spelled⟩ := ih later
      exact ⟨value :: values, .cons mark spelled⟩

theorem digits_of_spells (base : Base) (text : List Char) (values : List Nat)
    (spelled : base.Spells text values) : ∀ c ∈ text, base.IsDigit c := by
  induction spelled with
  | nil => exact fun _ member => nomatch member
  | cons mark _ ih => exact List.forall_mem_cons.mpr ⟨⟨_, mark⟩, ih⟩

theorem values_lt (base : Base) (text : List Char) (values : List Nat)
    (spelled : base.Spells text values) : ∀ value ∈ values, value < base.radix := by
  induction spelled with
  | nil => exact fun _ member => nomatch member
  | cons mark _ ih => exact List.forall_mem_cons.mpr ⟨mark.1, ih⟩

theorem spells_append (base : Base) (first second : List Char) (left right : List Nat)
    (spelledFirst : base.Spells first left) (spelledSecond : base.Spells second right) :
    base.Spells (first ++ second) (left ++ right) :=
  List.rel_append spelledFirst spelledSecond

theorem spells_toDigits (base : Base) (number : Nat) : ∃ values,
    base.Spells (Nat.toDigits base.radix number) values ∧
      Nat.ofDigits base.radix values.reverse = number := by
  have several : 1 < base.radix := by cases base <;> decide
  induction number using Nat.strongRecOn with
  | ind number ih =>
      rw [Nat.toDigits_eq_if several]
      split
      · next small => exact ⟨[number], .cons ⟨small, .inl rfl⟩ .nil, by simp⟩
      · next large =>
          have positive : 0 < number := by omega
          obtain ⟨values, spelled, value⟩ :=
            ih (number / base.radix) (Nat.div_lt_self positive several)
          have last : number % base.radix < base.radix := Nat.mod_lt _ (by omega)
          refine ⟨values ++ [number % base.radix],
            spells_append base _ _ _ _ spelled (.cons ⟨last, .inl rfl⟩ .nil), ?_⟩
          rw [List.reverse_append, List.reverse_singleton, List.singleton_append, Nat.ofDigits_cons,
            value]
          exact Nat.mod_add_div number base.radix

theorem spells_zeros (base : Base) (count : Nat) :
    base.Spells (List.replicate count '0') (List.replicate count 0) := by
  have positive : 0 < base.radix := by cases base <;> decide
  induction count with
  | zero => exact .nil
  | succ count ih => exact .cons ⟨positive, .inl rfl⟩ ih

theorem spells_leftpad (base : Base) (count number : Nat) : ∃ values,
    base.Spells (List.leftpad count '0' (Nat.toDigits base.radix number)) values ∧
      Nat.ofDigits base.radix values.reverse = number := by
  obtain ⟨values, spelled, value⟩ := base.spells_toDigits number
  refine ⟨_, spells_append base _ _ _ _ (base.spells_zeros _) spelled, ?_⟩
  rw [List.reverse_append, List.reverse_replicate, Nat.ofDigits_append_replicate_zero, value]

theorem leftpad_inj (base : Base) {count first second : Nat}
    (same : List.leftpad count '0' (Nat.toDigits base.radix first) =
      List.leftpad count '0' (Nat.toDigits base.radix second)) : first = second := by
  obtain ⟨values, spelled, value⟩ := base.spells_leftpad count first
  obtain ⟨others, respelled, other⟩ := base.spells_leftpad count second
  have read := magnitude_spelled base _ _ spelled
  rw [same, magnitude_spelled base _ _ respelled, value, other] at read
  exact (Except.ok.inj read).symm

theorem leftpad_blankless (base : Base) (count number : Nat) :
    ' ' ∉ List.leftpad count '0' (Nat.toDigits base.radix number) := by
  intro member
  obtain ⟨_, spelled, _⟩ := base.spells_leftpad count number
  obtain ⟨_, mark⟩ := digits_of_spells base _ _ spelled _ member
  cases ((mark_iff base _ _).mp mark).1

end Base

end TypedLiteral

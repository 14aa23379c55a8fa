import Mathlib.Algebra.Order.Floor.Div
import Mathlib.Data.Nat.Digits.Lemmas
import TypedLiteral.Binary.Bits

/-!
Four views of one number: its digits to base 2^32, its length in bits, its single bits and
its leading bits. The digits are the only row for the number without a zero in front. A
digit holds 32 bits, so the length in bits gives the length of the row, and a place among
the bits is a digit and a place in it.
-/
namespace TypedLiteral.Binary

/-- A row of digits, least significant first, that stands for a number. Only zero has a
zero in front, which is its single digit. -/
structure IsDigits (row : List Nat) (n : Nat) : Prop where
  nonempty : row ≠ []
  bounded : ∀ digit ∈ row, digit < 2 ^ 32
  value : (row.mapIdx fun place digit => digit * 2 ^ (32 * place)).sum = n
  highest : row.getLast nonempty = 0 → row = [0]

theorem value_ofDigits (row : List Nat) :
    (row.mapIdx fun place digit => digit * 2 ^ (32 * place)).sum = Nat.ofDigits (2 ^ 32) row := by
  simp only [Nat.ofDigits_eq_sum_mapIdx, ← pow_mul]

theorem digits_zero : digits 0 = [0] := by
  rw [digits]
  rfl

theorem digits_of_ne_zero {n : Nat} (nonzero : n ≠ 0) : digits n = Nat.digits (2 ^ 32) n := by
  induction n using Nat.strongRecOn with
  | ind n ih =>
      rw [digits]
      by_cases small : n < 2 ^ 32
      · rw [Nat.digits_of_lt _ _ nonzero small]
        exact if_pos small
      · have positive : 0 < n := Nat.pos_of_ne_zero nonzero
        have further : n / 2 ^ 32 ≠ 0 := by omega
        have tail := ih (n / 2 ^ 32) (Nat.div_lt_self positive (by decide)) further
        rw [Nat.digits_def' (by decide) positive, ← tail]
        exact if_neg small

theorem isDigits_digits (n : Nat) : IsDigits (digits n) n := by
  by_cases zero : n = 0
  · subst zero
    rw [digits_zero]
    exact ⟨by decide, by decide, by decide, fun _ => rfl⟩
  · rw [digits_of_ne_zero zero]
    refine ⟨Nat.digits_ne_nil_iff_ne_zero.mpr zero, ?_, ?_, ?_⟩
    · intro digit member
      exact Nat.digits_lt_base (by decide) member
    · rw [value_ofDigits, Nat.ofDigits_digits]
    · intro clear
      exact absurd clear (Nat.getLast_digit_ne_zero _ zero)

theorem IsDigits.eq_digits {row : List Nat} {n : Nat} (isDigits : IsDigits row n) :
    row = digits n := by
  obtain ⟨nonempty, bounded, value, highest⟩ := isDigits
  rw [value_ofDigits] at value
  subst value
  by_cases clear : row.getLast nonempty = 0
  · rw [highest clear, Nat.ofDigits_singleton, digits_zero]
  · have restored : Nat.digits (2 ^ 32) (Nat.ofDigits (2 ^ 32) row) = row :=
      Nat.digits_ofDigits _ (by decide) row bounded fun _ => clear
    have nonzero : Nat.ofDigits (2 ^ 32) row ≠ 0 := by
      rw [← Nat.digits_ne_nil_iff_ne_zero (b := 2 ^ 32), restored]
      exact nonempty
    rw [digits_of_ne_zero nonzero, restored]

theorem isDigits_iff (row : List Nat) (n : Nat) : IsDigits row n ↔ row = digits n := by
  constructor
  · exact IsDigits.eq_digits
  · rintro rfl
    exact isDigits_digits n

theorem digits_length (n : Nat) : (digits n).length = max 1 (bitLength n ⌈/⌉ 32) := by
  by_cases zero : n = 0
  · subst zero
    rw [digits_zero]
    decide
  · rw [digits_of_ne_zero zero]
    have row (count : Nat) :
        (Nat.digits (2 ^ 32) n).length ≤ count ↔ bitLength n ⌈/⌉ 32 ≤ count := by
      rw [Nat.digits_length_le_iff (by decide), ceilDiv_le_iff_le_mul (by decide), bitLength_le,
        ← pow_mul]
      exact Iff.rfl
    have length := eq_of_forall_ge_iff row
    have some_digit : 0 < (Nat.digits (2 ^ 32) n).length :=
      List.length_pos_of_ne_nil (Nat.digits_ne_nil_iff_ne_zero.mpr zero)
    omega

theorem digit_at (n place : Nat) :
    ((digits n)[place]?).getD 0 = n / 2 ^ (32 * place) % 2 ^ 32 := by
  by_cases zero : n = 0
  · subst zero
    rw [digits_zero]
    cases place <;> simp
  · rw [digits_of_ne_zero zero, ← List.getD_eq_getElem?_getD, Nat.getD_digits _ _ (by decide),
      ← pow_mul]

/-- A bit of a number is a bit of one of its digits. Behind the last digit there is none. -/
theorem testBit_digits (n index : Nat) :
    n.testBit index = ((digits n)[index / 32]?).any fun digit => digit.testBit (index % 32) := by
  have inside : index % 32 < 32 := Nat.mod_lt _ (by decide)
  have place : index % 32 + index / 32 * 32 = index := Nat.mod_add_div' index 32
  have digit : (((digits n)[index / 32]?).getD 0).testBit (index % 32) = n.testBit index := by
    rw [digit_at, Nat.testBit_mod_two_pow, Nat.testBit_div_two_pow, Nat.mul_comm 32, place]
    simp [inside]
  rw [← digit]
  cases (digits n)[index / 32]? <;> simp

theorem bitLength_shiftRight (n count : Nat) : bitLength (n >>> count) = bitLength n - count := by
  refine eq_of_forall_ge_iff fun length => ?_
  have positive := bit_pos count
  rw [bitLength_le, Nat.sub_le_iff_le_add, bitLength_le, weight_add, Nat.shiftRight_eq_div_pow]
  exact Nat.div_lt_iff_lt_mul positive

theorem leadingBits_shiftRight (n count : Nat) (bounded : count ≤ 64)
    (present : count ≤ bitLength n) : leadingBits n count = .ok (n >>> (bitLength n - count)) := by
  rw [leadingBits, if_pos ⟨bounded, present⟩, Nat.shiftRight_eq_div_pow]
  rfl

end TypedLiteral.Binary

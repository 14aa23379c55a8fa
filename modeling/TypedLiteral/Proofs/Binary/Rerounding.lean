import TypedLiteral.Proofs.Binary.Chain
import TypedLiteral.Proofs.Binary.RoundedStep
import TypedLiteral.Proofs.Binary.Widening

/-!
A number rounded to a format, and then to a narrower one. The narrower format keeps
fewer bits at every exponent, and a carry of the first rounding moves the exponent by
one, where the narrower format keeps at most one bit more. So the second rounding, told
the direction of the first, ends where rounding to the narrower format at once ends.
-/
namespace TypedLiteral.Binary

section Powers

variable (n precision : Nat)

theorem round_outcome (incoming : Direction) :
    (roundToBits n precision incoming).1 = 0 ∨
      bitLength (roundToBits n precision incoming).1 = bitLength n ∨
      (roundToBits n precision incoming).1 = weight 2 (bitLength n) := by
  rcases Nat.eq_zero_or_pos precision with none | some
  · subst none
    have whole := round_dvd n 0 incoming
    have high := round_le n 0 (weight 2 (bitLength n)) incoming (Nat.dvd_refl _)
      (lt_bitLength n).le
    rw [Nat.sub_zero] at whole
    rcases Nat.eq_zero_or_pos (roundToBits n 0 incoming).1 with zero | positive
    · exact .inl zero
    · exact .inr (.inr (Nat.le_antisymm high (Nat.le_of_dvd positive whole)))
  · exact .inr (round_length n precision incoming some)

theorem carried_up (carry : (roundToBits n precision .exact).1 = weight 2 (bitLength n)) :
    (roundToBits n precision .exact).2 = .up := by
  obtain ⟨_, _, _, tells⟩ := round_exact n precision
  have less : (n : ℚ) < (roundToBits n precision .exact).1 := by
    rw [carry]
    exact_mod_cast lt_bitLength n
  cases direction : (roundToBits n precision .exact).2 with
  | up => rfl
  | down =>
      rw [direction] at tells
      exact absurd tells (not_lt.mpr less.le)
  | exact =>
      rw [direction] at tells
      exact absurd tells less.ne'

theorem round_power (index : Nat) : roundToBits (weight 2 index) 0 .up = (0, .down) := by
  have positive := bit_pos index
  have less : weight 2 index < weight 2 (index + 1) := (weight_lt_iff _ _).mpr (Nat.lt_succ_self _)
  rw [roundToBits, bitLength_weight, Nat.sub_zero]
  simp only [Nat.mod_eq_of_lt less, Nat.div_eq_of_lt less, positive.ne', ↓reduceIte, roundsUp]
  rw [weight_succ, Nat.mul_comm 2]
  simp [Direction.breaksUp]

end Powers

namespace Format

variable {format target : Format} {leading : ℤ} {precision : Nat}

theorem precisionAt_succ_none (regular : format.Regular)
    (absent : format.precisionAt leading = none) :
    format.precisionAt (leading + 1) = none ∨ format.precisionAt (leading + 1) = some 0 := by
  rcases precisionAt_cases regular leading with ⟨_, below⟩ | ⟨_, _, held, _⟩
  · rcases precisionAt_cases regular (leading + 1) with
      ⟨none, _⟩ | ⟨more, count, found, _, place, _⟩
    · exact .inl none
    · right
      rw [found, show more = 0 by omega]
  · rw [absent] at held
    cases held

theorem precisionAt_succ_some (regular : format.Regular)
    (held : format.precisionAt leading = some precision) :
    ∃ more, format.precisionAt (leading + 1) = some (more + 1) := by
  have width := regular.precision_eq
  rcases precisionAt_cases regular leading with ⟨none, _⟩ | ⟨_, count, found, _, place, _⟩
  · rw [held] at none
    cases none
  · rw [held] at found
    cases found
    rcases precisionAt_cases regular (leading + 1) with
      ⟨_, below⟩ | ⟨more, further, higher, _, above, row⟩
    · omega
    · exact ⟨more - 1, by rw [higher, Nat.sub_add_cancel (by omega)]⟩

theorem precisionAt_lt (widens : format.Widens target) (narrow : format.Regular)
    (wide : target.Regular) (finer : format.precision < target.precision)
    (held : format.precisionAt leading = some precision) :
    ∃ more, target.precisionAt leading = some more ∧ precision < more := by
  have reach := widens.reach
  have width := wide.precision_eq
  have fraction := wide.fraction
  have least : target.leastExponent = target.minExponent - target.fractionBits := rfl
  rcases precisionAt_cases narrow leading with ⟨none, _⟩ | ⟨_, count, found, bounded, place, _⟩
  · rw [held] at none
    cases none
  · rw [held] at found
    cases found
    rcases precisionAt_cases wide leading with
      ⟨_, below⟩ | ⟨more, further, higher, _, above, row⟩
    · omega
    · exact ⟨more, higher, by omega⟩

end Format

namespace Scaled

variable {format target : Format} {number : Scaled} {incoming : Direction} {precision : Nat}

theorem round_absent (absent : format.precisionAt number.leadingExponent = none) :
    (number.round format incoming).1.mantissa = 0 := by
  rw [round]
  split
  · next zero => exact zero
  · rw [absent]
    rfl

theorem round_held (present : number.mantissa ≠ 0)
    (held : format.precisionAt number.leadingExponent = some precision) :
    number.round format incoming =
      (⟨(roundToBits number.mantissa precision incoming).1, number.exponent⟩,
        (roundToBits number.mantissa precision incoming).2) := by
  rw [round, if_neg present, held]

theorem leading_kept {mantissa : Nat} (kept : bitLength mantissa = bitLength number.mantissa) :
    leadingExponent ⟨mantissa, number.exponent⟩ = number.leadingExponent := by
  rw [leadingExponent, leadingExponent, kept]

theorem leading_carried :
    leadingExponent ⟨weight 2 (bitLength number.mantissa), number.exponent⟩ =
      number.leadingExponent + 1 := by
  rw [leadingExponent, leadingExponent, bitLength_weight]
  push_cast
  ring

section Twice

variable (narrow : format.Regular) (present : number.mantissa ≠ 0)
include narrow present

/-- What the narrower format has no bit for is still nothing after the first rounding, also
where that one carries it to half of the least subnormal: it comes with its direction. -/
theorem round_twice_absent (absent : format.precisionAt number.leadingExponent = none) :
    ((number.round target .exact).1.round format (number.round target .exact).2).1.mantissa =
      0 := by
  cases held : target.precisionAt number.leadingExponent with
  | none =>
      have zero : (number.round target .exact).1.mantissa = 0 := round_absent held
      rw [round, if_pos zero, zero]
  | some more =>
      rw [round_held present held]
      rcases round_outcome number.mantissa more .exact with zero | kept | carry
      · rw [round, if_pos zero, zero]
      · exact round_absent (by rw [leading_kept kept, absent])
      · rw [carried_up _ _ carry, carry]
        rcases Format.precisionAt_succ_none narrow absent with none | nothing
        · exact round_absent (by rw [leading_carried, none])
        · rw [round_held (bit_pos _).ne' (by rw [leading_carried, nothing]), round_power]

theorem round_twice_held (widens : format.Widens target) (wide : target.Regular)
    (finer : format.precision < target.precision)
    (held : format.precisionAt number.leadingExponent = some precision) :
    (number.round target .exact).1.round format (number.round target .exact).2 =
      number.round format .exact := by
  obtain ⟨more, higher, fewer⟩ := Format.precisionAt_lt widens narrow wide finer held
  rw [round_held present higher, round_held present held]
  rcases round_length number.mantissa more .exact (by omega) with kept | carry
  · have still : (roundToBits number.mantissa more .exact).1 ≠ 0 := by
      rw [← bitLength_pos, kept, bitLength_pos]
      exact present
    rw [round_held still (by rw [leading_kept kept, held]), round_kept _ _ _ fewer.le kept]
  · obtain ⟨one, next⟩ := Format.precisionAt_succ_some narrow held
    rw [round_carried _ _ _ fewer carry]
    generalize roundToBits number.mantissa more .exact = rounded at carry
    obtain ⟨mantissa, direction⟩ := rounded
    subst carry
    rw [round_held (bit_pos _).ne' (by rw [leading_carried, next])]
    rw [round_multiple]
    rw [bitLength_weight]
    exact weight_dvd 2 (by omega)

end Twice

theorem encode_zero (negative : Bool) (zero : number.mantissa = 0) :
    number.encode format negative = .ok (format.pattern negative 0 0) := by
  simp [encode, zero]

/-- Rounding to a format by way of a wider one gives the pattern of rounding to it at once. -/
theorem encode_twice (widens : format.Widens target) (narrow : format.Regular)
    (wide : target.Regular) (finer : format.precision < target.precision)
    (number : Scaled) (negative : Bool) :
    ((number.round target .exact).1.round format
        (number.round target .exact).2).1.encode format negative =
      (number.round format .exact).1.encode format negative := by
  by_cases zero : number.mantissa = 0
  · simp [round, zero]
  · cases held : format.precisionAt number.leadingExponent with
    | none =>
        rw [encode_zero negative (round_twice_absent narrow zero held),
          encode_zero negative (round_absent held)]
    | some precision => rw [round_twice_held narrow zero widens wide finer held]

end Scaled

end TypedLiteral.Binary

import TypedLiteral.Proofs.Binary.Encoding
import TypedLiteral.Proofs.Binary.Widening

/-!
Rounding a number of a wider format to a narrower one. When the narrower format
has the number, it is kept, whatever direction it comes with, and widening its
pattern gives back the wider one. Infinity is kept because the leading bit stays
beyond both formats.
-/
namespace TypedLiteral.Binary.Format

variable {format target : Format} {number : Scaled} {step : Nat}

theorem over_of_top (regular : format.Regular) (onStep : number.OnStep format step)
    (reached : format.topStep ≤ step) :
    number.mantissa ≠ 0 ∧ (format.maxExponent : ℤ) < number.leadingExponent := by
  have positive := topStep_pos regular
  have large := fraction_le_topStep regular
  constructor
  · intro zero
    have first := step_zero onStep zero
    omega
  · obtain ⟨count, significand, place, low, high, same, _⟩ := onStep_row onStep
    have normal : weight 2 format.fractionBits ≤ significand := by
      rcases low with first | normal
      · rw [first, Nat.zero_mul, Nat.zero_add] at place
        omega
      · exact normal
    exact (leading_normal regular normal high same).2.mpr (place ▸ reached)

theorem number_top (negative : Bool) :
    format.number (format.pattern negative 0 format.topStep) = .infinite negative := by
  rw [number_infinite, format.stepOf_pattern _ _ format.topStep_lt]
  exact ⟨format.isNegative_pattern _ _ format.topStep_lt, rfl⟩

theorem round_represented (widens : format.Widens target) (narrow : format.Regular)
    (wide : target.Regular) (negative : Bool) (incoming : Direction)
    (onStep : number.OnStep target step) (long : number.Long) {single other : Nat}
    (encoded : (number.round format incoming).1.encode format negative = .ok single)
    (represented : format.number other =
      target.number (target.pattern negative 0 (min step target.topStep))) :
    format.number single =
      target.number (target.pattern negative 0 (min step target.topStep)) := by
  have larger := widens.maxExponent_le
  rcases Nat.lt_or_ge step target.topStep with finite | infinite
  · rw [Nat.min_eq_left finite.le, number_step negative finite] at represented ⊢
    obtain ⟨_, below, same⟩ := (format.number_finite _ _ _).mp represented
    have narrower : number.OnStep format (format.stepOf other) := onStep.trans same
    rw [round_onStep narrow _ incoming narrower, encode_long narrow negative _ narrower long,
      Nat.min_eq_left below.le] at encoded
    cases encoded
    rw [number_step negative below, same]
  · -- The rounded mantissa is not the wider one here, but both are beyond their formats.
    obtain ⟨nonzero, beyond⟩ := over_of_top wide onStep infinite
    rw [Nat.min_eq_right infinite, number_top]
    rw [encode_over narrow negative incoming nonzero (by omega)] at encoded
    cases encoded
    exact number_top negative

/-- Widening the rounded pattern gives back the wider one exactly when the narrower
format has its number. -/
theorem widen_round_iff (widens : format.Widens target) (narrow : format.Regular)
    (wide : target.Regular) (negative : Bool) (incoming : Direction)
    (onStep : number.OnStep target step) (long : number.Long) {single : Nat}
    (encoded : (number.round format incoming).1.encode format negative = .ok single) :
    format.widen target single = target.pattern negative 0 (min step target.topStep) ↔
      ∃ other, format.number other =
        target.number (target.pattern negative 0 (min step target.topStep)) := by
  obtain ⟨exact, bounded⟩ := widen_exact widens narrow wide single
  constructor
  · intro same
    exact ⟨single, by rw [← same, exact]⟩
  · rintro ⟨other, represented⟩
    have kept := round_represented widens narrow wide negative incoming onStep long encoded
      represented
    refine target.number_injective bounded
      (target.pattern_lt negative _ (target.min_topStep_lt step))
      (exact.trans kept) ?_
    rcases Nat.lt_or_ge step target.topStep with finite | infinite
    · rw [Nat.min_eq_left finite.le, number_step negative finite]
      exact nofun
    · rw [Nat.min_eq_right infinite, number_top]
      exact nofun

end TypedLiteral.Binary.Format

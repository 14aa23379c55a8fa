import Mathlib.Algebra.Order.Field.Rat
import Mathlib.Algebra.Order.Group.Abs
import Mathlib.Order.Monotone.Basic
import Mathlib.Tactic.Linarith
import Mathlib.Tactic.Positivity
import Mathlib.Tactic.Ring
import TypedLiteral.Binary.Format
import TypedLiteral.Proofs.Binary.Nearest

/-!
The magnitudes of a format in order, as multiples of the least subnormal. Patterns
without a sign count them: a step up is the next magnitude. Steps come in rows of
equal distance; the first two rows, of the subnormals and of the least normals,
share theirs, and every later row doubles it. The ladder goes on beyond the
largest finite number, where infinity takes the place of all later steps.
-/
namespace TypedLiteral.Binary.Format

variable (format : Format)

def row (step : Nat) : Nat := step / weight 2 format.fractionBits - 1

/-- The magnitude at a step, in units of the least subnormal. -/
def rung (step : Nat) : Nat :=
  (step - format.row step * weight 2 format.fractionBits) * weight 2 (format.row step)

/-- The formats considered have a fraction, 62 bits of precision at most, and more
than one exponent of normal numbers. -/
structure Regular : Prop where
  fraction : 1 ≤ format.fractionBits
  precise : format.precision ≤ 62
  exponents : 2 ≤ format.exponentBits

theorem binary32_regular : binary32.Regular := ⟨by decide, by decide, by decide⟩

theorem binary64_regular : binary64.Regular := ⟨by decide, by decide, by decide⟩

theorem Regular.precision_eq {format : Format} (regular : format.Regular) :
    format.precision = format.fractionBits + 1 := by
  have := regular.fraction
  unfold fractionBits at *
  omega

theorem Regular.even {format : Format} (regular : format.Regular) :
    weight 2 format.fractionBits % 2 = 0 := by
  have := regular.fraction
  obtain ⟨rest, same⟩ : ∃ rest, format.fractionBits = rest + 1 :=
    ⟨format.fractionBits - 1, by omega⟩
  rw [same, weight_succ]
  exact Nat.mul_mod_left _ 2

theorem rung_row (count significand : Nat)
    (low : count = 0 ∨ weight 2 format.fractionBits ≤ significand)
    (high : significand ≤ 2 * weight 2 format.fractionBits) :
    format.rung (count * weight 2 format.fractionBits + significand) =
      significand * weight 2 count := by
  have positive := bit_pos format.fractionBits
  unfold rung row
  generalize weight 2 format.fractionBits = base at *
  rw [Nat.add_comm (count * base), Nat.add_mul_div_right _ _ positive]
  rcases Nat.lt_or_eq_of_le high with less | carry
  · have same : significand / base + count - 1 = count := by
      rcases low with zero | normal
      · have : significand / base < 2 := (Nat.div_lt_iff_lt_mul positive).mpr (by omega)
        omega
      · have : significand / base = 1 := Nat.div_eq_of_lt_le (by omega) (by omega)
        omega
    rw [same, Nat.add_sub_cancel]
  · -- A significand that fills the row is the first one of the next row.
    have same : significand / base + count - 1 = count + 1 := by
      rw [carry, Nat.mul_div_cancel _ positive]
      omega
    rw [same, weight_succ, carry, Nat.add_mul]
    rw [show 2 * base + count * base - (count * base + 1 * base) = base by omega]
    ring

theorem step_row (step : Nat) : ∃ count significand,
    step = count * weight 2 format.fractionBits + significand ∧
      (count = 0 ∨ weight 2 format.fractionBits ≤ significand) ∧
      significand < 2 * weight 2 format.fractionBits := by
  have positive := bit_pos format.fractionBits
  generalize weight 2 format.fractionBits = base at *
  have whole := Nat.div_add_mod' step base
  have rest := Nat.mod_lt step positive
  cases row : step / base with
  | zero => exact ⟨0, step, by omega, Or.inl rfl, by rw [row] at whole; omega⟩
  | succ count =>
      rw [row, Nat.add_mul] at whole
      exact ⟨count, step % base + base, by omega, Or.inr (by omega), by omega⟩

theorem rung_succ (step : Nat) :
    ∃ count, format.rung (step + 1) = format.rung step + weight 2 count := by
  obtain ⟨count, significand, same, low, high⟩ := format.step_row step
  refine ⟨count, ?_⟩
  rw [same, format.rung_row count significand low (by omega), Nat.add_assoc,
    format.rung_row count (significand + 1) (by omega) (by omega)]
  ring

theorem rung_strictMono : StrictMono format.rung := by
  refine strictMono_nat_of_lt_succ fun step => ?_
  obtain ⟨count, next⟩ := format.rung_succ step
  have := bit_pos count
  omega

/-- The step whose magnitude is nearest to a scaled number. Of two that are equally
near, it is the even one. -/
structure NearestRung (scaled : ℚ) (step : Nat) : Prop where
  near : ∀ other, |(format.rung step : ℚ) - scaled| ≤ |(format.rung other : ℚ) - scaled|
  even : ∀ other, other ≠ step →
    |(format.rung other : ℚ) - scaled| = |(format.rung step : ℚ) - scaled| → step % 2 = 0

variable {format} {count quotient : Nat} {scaled : ℚ}

theorem nearest_in_row (nearest : NearestMultiple (weight 2 count) scaled quotient)
    (reached : count = 0 ∨ ((weight 2 format.fractionBits * weight 2 count : ℕ) : ℚ) ≤ scaled)
    (within : scaled ≤ (2 * weight 2 format.fractionBits * weight 2 count : ℕ)) :
    (count = 0 ∨ weight 2 format.fractionBits ≤ quotient) ∧
      quotient ≤ 2 * weight 2 format.fractionBits := by
  have positive := bit_pos count
  obtain ⟨lower, upper⟩ := nearest.bounds
  generalize weight 2 format.fractionBits = base at *
  generalize weight 2 count = unit at *
  constructor
  · rcases reached with first | reached
    · exact Or.inl first
    · right
      have halves : 2 * (base * unit) ≤ 2 * (quotient * unit) + unit := by
        exact_mod_cast (by push_cast at reached ⊢; linarith :
          ((2 * (base * unit) : ℕ) : ℚ) ≤ (2 * (quotient * unit) + unit : ℕ))
      by_contra less
      have := Nat.mul_le_mul_right unit (Nat.lt_of_not_le less)
      rw [Nat.succ_mul] at this
      omega
  · have halves : 2 * (quotient * unit) ≤ 2 * (2 * base * unit) + unit := by
      exact_mod_cast (by push_cast at within ⊢; linarith :
        ((2 * (quotient * unit) : ℕ) : ℚ) ≤ (2 * (2 * base * unit) + unit : ℕ))
    by_contra more
    have := Nat.mul_le_mul_right unit (Nat.lt_of_not_le more)
    rw [Nat.succ_mul] at this
    omega

section Apart

variable (other : Nat) (low : count = 0 ∨ weight 2 format.fractionBits ≤ quotient)
variable (high : quotient ≤ 2 * weight 2 format.fractionBits)
include low high

theorem rung_below
    (reached : count = 0 ∨ ((weight 2 format.fractionBits * weight 2 count : ℕ) : ℚ) ≤ scaled)
    (before : other < count * weight 2 format.fractionBits + quotient) :
    format.rung other + weight 2 count ≤ quotient * weight 2 count ∨
      ((format.rung other : ℚ) < (quotient * weight 2 count : ℕ) ∧
        ((quotient * weight 2 count : ℕ) : ℚ) ≤ scaled) := by
  have value := format.rung_row count quotient low high
  have less := format.rung_strictMono before
  rw [value] at less
  by_cases first : count ≠ 0 ∧ quotient = weight 2 format.fractionBits
  · right
    rw [first.2] at less ⊢
    exact ⟨by exact_mod_cast less, reached.resolve_left first.1⟩
  · left
    -- The step before this one is in the row too, and no magnitude lies between.
    obtain ⟨previous, same⟩ : ∃ previous, quotient = previous + 1 := by
      refine ⟨quotient - 1, ?_⟩
      have := bit_pos format.fractionBits
      rcases low with zero | normal
      · rw [zero] at before
        omega
      · omega
    have neighbour := format.rung_row count previous (by omega) (by omega)
    have ordered := format.rung_strictMono.monotone
      (show other ≤ count * weight 2 format.fractionBits + previous by omega)
    rw [neighbour] at ordered
    rw [same, Nat.succ_mul]
    omega

theorem rung_above
    (within : scaled ≤ (2 * weight 2 format.fractionBits * weight 2 count : ℕ))
    (after : count * weight 2 format.fractionBits + quotient < other) :
    quotient * weight 2 count + weight 2 count ≤ format.rung other ∨
      ((quotient * weight 2 count : ℕ) : ℚ) < format.rung other ∧
        scaled ≤ (quotient * weight 2 count : ℕ) := by
  have value := format.rung_row count quotient low high
  have more := format.rung_strictMono after
  rw [value] at more
  by_cases last : quotient = 2 * weight 2 format.fractionBits
  · right
    rw [last] at more ⊢
    exact ⟨by exact_mod_cast more, within⟩
  · left
    have neighbour := format.rung_row count (quotient + 1) (by omega) (by omega)
    have ordered := format.rung_strictMono.monotone
      (show count * weight 2 format.fractionBits + (quotient + 1) ≤ other by omega)
    rw [neighbour, Nat.succ_mul] at ordered
    exact ordered

end Apart

theorem farther_of_apart {other chosen target distance : ℚ}
    (near : 2 * |chosen - target| ≤ distance)
    (apart : other + distance ≤ chosen ∨ chosen + distance ≤ other ∨
      (other < chosen ∧ chosen ≤ target) ∨ chosen < other ∧ target ≤ chosen) :
    |chosen - target| ≤ |other - target| ∧
      (|other - target| = |chosen - target| → 2 * |chosen - target| = distance) := by
  have low := neg_abs_le (chosen - target)
  have high := le_abs_self (chosen - target)
  have otherLow := neg_abs_le (other - target)
  have otherHigh := le_abs_self (other - target)
  rcases apart with before | after | ⟨less, below⟩ | ⟨more, above⟩
  · exact ⟨by linarith, fun _ => by linarith⟩
  · exact ⟨by linarith, fun _ => by linarith⟩
  · rw [abs_of_nonpos (sub_nonpos.mpr below), abs_of_nonpos (by linarith)]
    exact ⟨by linarith, fun _ => by linarith⟩
  · rw [abs_of_nonneg (sub_nonneg.mpr above), abs_of_nonneg (by linarith)]
    exact ⟨by linarith, fun _ => by linarith⟩

/-- Rounding to the distance of a row finds the nearest step. -/
theorem nearestRung_of_row (regular : format.Regular)
    (nearest : NearestMultiple (weight 2 count) scaled quotient)
    (reached : count = 0 ∨ ((weight 2 format.fractionBits * weight 2 count : ℕ) : ℚ) ≤ scaled)
    (within : scaled ≤ (2 * weight 2 format.fractionBits * weight 2 count : ℕ)) :
    format.NearestRung scaled (count * weight 2 format.fractionBits + quotient) := by
  obtain ⟨low, high⟩ := nearest_in_row nearest reached within
  have value := format.rung_row count quotient low high
  have farther : ∀ other, other ≠ count * weight 2 format.fractionBits + quotient →
      |(quotient * weight 2 count : ℕ) - scaled| ≤ |(format.rung other : ℚ) - scaled| ∧
      (|(format.rung other : ℚ) - scaled| = |(quotient * weight 2 count : ℕ) - scaled| →
        2 * |(quotient : ℚ) * weight 2 count - scaled| = weight 2 count) := by
    intro other different
    push_cast
    refine farther_of_apart nearest.near ?_
    rcases Nat.lt_or_gt_of_ne different with before | after
    · have below := rung_below other low high reached before
      rcases below with whole | edge
      · exact Or.inl (by exact_mod_cast whole)
      · exact Or.inr (Or.inr (Or.inl (by exact_mod_cast edge)))
    · have above := rung_above other low high within after
      rcases above with whole | edge
      · exact Or.inr (Or.inl (by exact_mod_cast whole))
      · exact Or.inr (Or.inr (Or.inr (by exact_mod_cast edge)))
  constructor
  · intro other
    rw [value]
    by_cases same : other = count * weight 2 format.fractionBits + quotient
    · rw [same, value]
    · exact (farther other same).1
  · intro other different equal
    rw [value] at equal
    have evenQuotient := nearest.even ((farther other different).2 equal)
    rw [Nat.add_mod, Nat.mul_mod, regular.even, evenQuotient]
    simp

end TypedLiteral.Binary.Format

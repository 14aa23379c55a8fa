import Mathlib.Algebra.Order.Field.Rat
import Mathlib.Tactic.Linarith
import Mathlib.Tactic.Ring
import TypedLiteral.Binary.Rounding

/-!
Rounding to the multiples of a unit, against an exact number that may no longer
be at hand. What is kept of the exact number is a natural number and a direction
that compare with the multiples of a finer unit as the exact number does. That
is all a rounding to a coarser unit needs, and the result of the rounding is
again such a stand-in, so roundings can follow each other.
-/
namespace TypedLiteral.Binary

theorem cast_weight (index : Nat) : ((weight 2 index : ℕ) : ℚ) = 2 ^ index := by
  exact_mod_cast rfl

theorem weight_shift {index power : ℕ} {shift : ℤ} (same : (index : ℤ) + shift = power) :
    (weight 2 index : ℚ) * 2 ^ shift = weight 2 power := by
  rw [cast_weight, cast_weight, ← zpow_natCast, ← zpow_natCast, ← same, zpow_add₀ (by norm_num)]

/-- The multiple of a unit nearest to a number, given by its quotient. Of two that
are equally near, it is the even one. -/
structure NearestMultiple (unit : Nat) (exact : ℚ) (quotient : Nat) : Prop where
  near : 2 * |(quotient : ℚ) * unit - exact| ≤ unit
  even : 2 * |(quotient : ℚ) * unit - exact| = unit → quotient % 2 = 0

def Direction.Tells (rounded : Nat) (exact : ℚ) : Direction → Prop
  | .down => (rounded : ℚ) < exact
  | .exact => (rounded : ℚ) = exact
  | .up => exact < rounded

def IsRounding (unit : Nat) (exact : ℚ) (result : Nat × Direction) : Prop :=
  ∃ quotient, result.1 = quotient * unit ∧ NearestMultiple unit exact quotient ∧
    result.2.Tells result.1 exact

structure StandsIn (unit n : Nat) (direction : Direction) (exact : ℚ) : Prop where
  below : ∀ multiple : ℤ, (unit : ℤ) ∣ multiple → (n : ℤ) < multiple → exact < multiple
  above : ∀ multiple : ℤ, (unit : ℤ) ∣ multiple → multiple < n → (multiple : ℚ) < exact
  same : unit ∣ n → direction.Tells n exact

theorem standsIn_self (n : Nat) : StandsIn 1 n .exact n where
  below multiple _ less := by exact_mod_cast less
  above multiple _ less := by exact_mod_cast less
  same _ := rfl

namespace NearestMultiple

variable {unit : Nat} {exact : ℚ}

theorem bounds {quotient : Nat} (nearest : NearestMultiple unit exact quotient) :
    2 * ((quotient : ℚ) * unit) - unit ≤ 2 * exact ∧
      2 * exact ≤ 2 * ((quotient : ℚ) * unit) + unit := by
  have near := nearest.near
  have low := neg_abs_le ((quotient : ℚ) * unit - exact)
  have high := le_abs_self ((quotient : ℚ) * unit - exact)
  constructor <;> linarith

theorem not_lt {first second : Nat} (positive : 0 < unit)
    (left : NearestMultiple unit exact first) (right : NearestMultiple unit exact second) :
    ¬ first < second := by
  -- Two different ones would be a unit apart with the number halfway, and both quotients even.
  intro less
  have size : (0 : ℚ) < unit := by exact_mod_cast positive
  have step : ((first : ℚ) + 1) * unit ≤ second * unit :=
    mul_le_mul_of_nonneg_right (by exact_mod_cast less) size.le
  have upper := left.bounds.2
  have lower := right.bounds.1
  have halfway : 2 * exact = 2 * ((first : ℚ) * unit) + unit := by linarith
  have adjacent : (second : ℚ) * unit = (first + 1) * unit := by linarith
  have successor : second = first + 1 := by
    exact_mod_cast mul_right_cancel₀ (ne_of_gt size) adjacent
  have evenFirst := left.even (by
    rw [abs_of_nonpos (by linarith)]; linarith)
  have evenSecond := right.even (by
    rw [adjacent, abs_of_nonneg (by linarith)]; linarith)
  omega

theorem unique {first second : Nat} (positive : 0 < unit)
    (left : NearestMultiple unit exact first) (right : NearestMultiple unit exact second) :
    first = second := by
  have notLess := left.not_lt positive right
  have notMore := right.not_lt positive left
  omega

end NearestMultiple

theorem Direction.tells_unique {rounded : Nat} {exact : ℚ} {first second : Direction}
    (left : first.Tells rounded exact) (right : second.Tells rounded exact) : first = second := by
  cases first <;> cases second <;> simp only [Direction.Tells] at left right <;>
    first | rfl | (exfalso; linarith)

theorem IsRounding.unique {unit : Nat} {exact : ℚ} {first second : Nat × Direction}
    (positive : 0 < unit) (left : IsRounding unit exact first)
    (right : IsRounding unit exact second) : first = second := by
  obtain ⟨quotient, leftValue, leftNear, leftTells⟩ := left
  obtain ⟨_, rightValue, rightNear, rightTells⟩ := right
  have sameQuotient := leftNear.unique positive rightNear
  subst sameQuotient
  have sameValue : first.1 = second.1 := leftValue.trans rightValue.symm
  rw [sameValue] at leftTells
  exact Prod.ext sameValue (Direction.tells_unique leftTells rightTells)

theorem multiple_succ_le {unit : Nat} {low high : ℤ} (positive : 0 < unit)
    (less : unit * low < unit * high) : ((low : ℚ) + 1) * unit ≤ high * unit := by
  have further : low + 1 ≤ high := lt_of_mul_lt_mul_left less (Int.natCast_nonneg unit)
  have size : (0 : ℚ) ≤ unit := by exact_mod_cast positive.le
  exact mul_le_mul_of_nonneg_right (by exact_mod_cast further) size

/-- A rounding to a unit stands in for the exact number among the multiples of
the unit: the exact number lies on the same side of each of them. -/
theorem IsRounding.standsIn {unit : Nat} {exact : ℚ} {result : Nat × Direction}
    (positive : 0 < unit) (rounding : IsRounding unit exact result) :
    StandsIn unit result.1 result.2 exact := by
  obtain ⟨quotient, value, nearest, tells⟩ := rounding
  have size : (0 : ℚ) < unit := by exact_mod_cast positive
  have place : (result.1 : ℚ) = quotient * unit := by rw [value]; push_cast; rfl
  obtain ⟨low, high⟩ := nearest.bounds
  refine ⟨?_, ?_, fun _ => tells⟩
  · rintro _ ⟨other, rfl⟩ less
    rw [value, Nat.mul_comm, Nat.cast_mul] at less
    have step := multiple_succ_le positive less
    push_cast at step ⊢
    linarith
  · rintro _ ⟨other, rfl⟩ less
    rw [value, Nat.mul_comm, Nat.cast_mul] at less
    have step := multiple_succ_le positive less
    push_cast at step ⊢
    linarith

namespace StandsIn

variable {fine n : Nat} {direction : Direction} {exact : ℚ}

theorem lt_multiple (standsIn : StandsIn fine n direction exact) {multiple : Nat}
    (divides : fine ∣ multiple) (less : n < multiple) : exact < multiple := by
  have := standsIn.below multiple (Int.natCast_dvd_natCast.mpr divides) (by exact_mod_cast less)
  exact_mod_cast this

theorem multiple_lt (standsIn : StandsIn fine n direction exact) {multiple : Nat}
    (divides : fine ∣ multiple) (less : multiple < n) : (multiple : ℚ) < exact := by
  have := standsIn.above multiple (Int.natCast_dvd_natCast.mpr divides) (by exact_mod_cast less)
  exact_mod_cast this

theorem le_exact (standsIn : StandsIn fine n .exact exact) {multiple : Nat}
    (divides : fine ∣ multiple) (below : multiple ≤ n) : (multiple : ℚ) ≤ exact := by
  rcases Nat.lt_or_eq_of_le below with less | same
  · exact (standsIn.multiple_lt divides less).le
  · subst same
    exact (standsIn.same divides).le

theorem exact_le (standsIn : StandsIn fine n .exact exact) {multiple : Nat}
    (divides : fine ∣ multiple) (above : n ≤ multiple) : exact ≤ multiple := by
  rcases Nat.lt_or_eq_of_le above with less | same
  · exact (standsIn.lt_multiple divides less).le
  · subst same
    exact (standsIn.same divides).ge

theorem exact_eq_iff (standsIn : StandsIn fine n .exact exact) {multiple : Nat}
    (divides : fine ∣ multiple) : exact = multiple ↔ n = multiple := by
  constructor
  · intro same
    rcases Nat.lt_trichotomy n multiple with less | equal | more
    · exact absurd same (standsIn.lt_multiple divides less).ne
    · exact equal
    · exact absurd same (standsIn.multiple_lt divides more).ne'
  · rintro rfl
    exact (standsIn.same divides).symm

theorem close (standsIn : StandsIn fine n direction exact) (positive : 0 < fine)
    (divides : fine ∣ n) : |(n : ℚ) - exact| < fine := by
  have whole : (fine : ℤ) ∣ n := Int.natCast_dvd_natCast.mpr divides
  have low := standsIn.above (n - fine) (Int.dvd_sub whole (Int.dvd_refl _)) (by omega)
  have high := standsIn.below (n + fine) (Int.dvd_add whole (Int.dvd_refl _)) (by omega)
  push_cast at low high
  rw [abs_lt]
  constructor <;> linarith

end StandsIn

namespace IsRounding

variable {unit quotient : Nat} {exact : ℚ}

theorem down (after : (quotient : ℚ) * unit < exact)
    (near : 2 * exact ≤ 2 * ((quotient : ℚ) * unit) + unit)
    (even : 2 * exact = 2 * ((quotient : ℚ) * unit) + unit → quotient % 2 = 0) :
    IsRounding unit exact (quotient * unit, .down) := by
  have distance : |(quotient : ℚ) * unit - exact| = exact - quotient * unit := by
    rw [abs_of_nonpos (by linarith)]; ring
  refine ⟨quotient, rfl, ⟨?_, ?_⟩, ?_⟩
  · rw [distance]; linarith
  · rw [distance]; intro halfway; exact even (by linarith)
  · simpa [Direction.Tells] using after

theorem up (before : exact < ((quotient : ℚ) + 1) * unit)
    (near : 2 * ((quotient : ℚ) * unit) + unit ≤ 2 * exact)
    (even : 2 * exact = 2 * ((quotient : ℚ) * unit) + unit → (quotient + 1) % 2 = 0) :
    IsRounding unit exact ((quotient + 1) * unit, .up) := by
  have distance : |((quotient + 1 : Nat) : ℚ) * unit - exact| = (quotient + 1) * unit - exact := by
    push_cast
    exact abs_of_nonneg (by linarith)
  refine ⟨quotient + 1, rfl, ⟨?_, ?_⟩, ?_⟩
  · rw [distance]; linarith
  · rw [distance]; intro halfway; exact even (by linarith)
  · simpa [Direction.Tells] using before

theorem kept {fine n : Nat} {direction : Direction} (standsIn : StandsIn fine n direction exact)
    (positive : 0 < fine) (coarse : 2 * fine ∣ unit) (unitPositive : 0 < unit)
    (divides : unit ∣ n) : IsRounding unit exact (n, direction) := by
  have finer : fine ∣ n := ((Nat.dvd_mul_left fine 2).trans coarse).trans divides
  have close := standsIn.close positive finer
  have twice : 2 * (fine : ℚ) ≤ unit := by exact_mod_cast Nat.le_of_dvd unitPositive coarse
  obtain ⟨quotient, value⟩ := divides
  have place : (n : ℚ) = quotient * unit := by rw [value]; push_cast; ring
  rw [place] at close
  refine ⟨quotient, by rw [value, Nat.mul_comm], ⟨?_, ?_⟩, standsIn.same finer⟩
  · linarith
  · intro halfway; linarith

/-- At a tie of the rounded number the direction says on which side of the tie the
exact number lies, and no direction that it is a tie as well. -/
theorem tie {n : Nat} {direction : Direction}
    (halfway : 2 * n = 2 * (quotient * unit) + unit) (tells : direction.Tells n exact)
    (after : (quotient : ℚ) * unit < exact) (before : exact < ((quotient : ℚ) + 1) * unit) :
    IsRounding unit exact (if direction.breaksUp quotient then ((quotient + 1) * unit, .up)
      else (quotient * unit, .down)) := by
  have place : 2 * (n : ℚ) = 2 * ((quotient : ℚ) * unit) + unit := by exact_mod_cast halfway
  cases direction with
  | down =>
      simp only [Direction.Tells] at tells
      exact up before (by linarith) (by intro; linarith)
  | up =>
      simp only [Direction.Tells] at tells
      exact down after (by linarith) (by intro; linarith)
  | exact =>
      simp only [Direction.Tells] at tells
      by_cases odd : quotient % 2 = 1
      · simp only [Direction.breaksUp, odd, decide_true, ↓reduceIte]
        exact up before (by linarith) (by intro; omega)
      · simp only [Direction.breaksUp, odd, decide_false, Bool.false_eq_true, ↓reduceIte]
        exact down after (by linarith) (by intro; omega)

end IsRounding

/-- Rounding a stand-in to a unit at least twice as coarse rounds the exact number:
the nearest multiple, ties to even, and the direction of the error. -/
theorem round_nearest (fine n precision : Nat) (direction : Direction) (exact : ℚ)
    (standsIn : StandsIn fine n direction exact) (positive : 0 < fine)
    (coarse : 2 * fine ∣ weight 2 (bitLength n - precision)) :
    IsRounding (weight 2 (bitLength n - precision)) exact (roundToBits n precision direction) := by
  have unitPositive := bit_pos (bitLength n - precision)
  rw [roundToBits]
  generalize weight 2 (bitLength n - precision) = unit at *
  by_cases divides : n % unit = 0
  · simp only [divides, ↓reduceIte]
    exact .kept standsIn positive coarse unitPositive (Nat.dvd_of_mod_eq_zero divides)
  obtain ⟨half, finer, twice⟩ : ∃ half, fine ∣ half ∧ unit = 2 * half := by
    obtain ⟨ratio, same⟩ := coarse
    exact ⟨fine * ratio, Nat.dvd_mul_right _ _, by rw [same, Nat.mul_assoc]⟩
  have whole : n / unit * unit + n % unit = n := Nat.div_add_mod' n unit
  have rest := Nat.mod_lt n unitPositive
  -- Both ends and the middle of the interval around n are multiples of the finer unit.
  have start : fine ∣ n / unit * unit := (twice ▸ finer.mul_left 2).mul_left _
  have stop : fine ∣ (n / unit + 1) * unit := (twice ▸ finer.mul_left 2).mul_left _
  have middle : fine ∣ n / unit * unit + half := Nat.dvd_add start finer
  have after := standsIn.multiple_lt start (by omega)
  have before := standsIn.lt_multiple stop (by rw [Nat.add_mul]; omega)
  have halves : (unit : ℚ) = 2 * half := by exact_mod_cast twice
  push_cast at after before
  simp only [divides, ↓reduceIte, roundsUp]
  rcases Nat.lt_trichotomy (2 * (n % unit)) unit with below | halfway | above
  · have nearer := standsIn.lt_multiple middle (by omega)
    push_cast at nearer
    simp only [below, ↓reduceIte, Bool.false_eq_true]
    exact .down after (by linarith) (by intro; linarith)
  · have same : n = n / unit * unit + half := by omega
    simp only [halfway, Nat.lt_irrefl, ↓reduceIte]
    exact .tie (by omega) (standsIn.same (same ▸ middle)) after before
  · have nearer := standsIn.multiple_lt middle (by omega)
    push_cast at nearer
    simp only [above, Nat.lt_asymm above, ↓reduceIte]
    exact .up before (by linarith) (by intro; linarith)

end TypedLiteral.Binary

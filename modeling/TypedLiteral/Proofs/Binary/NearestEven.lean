import TypedLiteral.Proofs.Binary.Number

/-!
The nearest step of a format's ladder is its correctly rounded pattern, cut off at
infinity, and no other pattern is.
-/
namespace TypedLiteral.Binary

theorem nearer_above {low high target : ℚ} (ordered : low < high) :
    |high - target| ≤ |low - target| ↔ low + high ≤ 2 * target := by
  rw [← sq_le_sq]
  constructor
  · intro squares
    by_contra less
    nlinarith [mul_pos (sub_pos.mpr ordered) (sub_pos.mpr (not_le.mp less))]
  · intro past
    nlinarith [mul_nonneg (sub_nonneg.mpr ordered.le) (sub_nonneg.mpr past)]

theorem nearer_below {low high target : ℚ} (ordered : low < high) :
    |low - target| ≤ |high - target| ↔ 2 * target ≤ low + high := by
  have mirrored := @nearer_above (-high) (-low) (-target) (neg_lt_neg ordered)
  rw [neg_sub_neg, neg_sub_neg, abs_sub_comm, abs_sub_comm target high] at mirrored
  rw [mirrored]
  constructor <;> intro <;> linarith

namespace Format

variable {format : Format}

theorem Regular.special_eq (regular : format.Regular) :
    ∃ count, format.specialExponent = count + 2 ∧ 2 * format.maxExponent = count + 1 := by
  have exponents := regular.exponents
  obtain ⟨rest, same⟩ : ∃ rest, format.exponentBits = rest + 2 :=
    ⟨format.exponentBits - 2, by omega⟩
  have positive := bit_pos rest
  rw [specialExponent, maxExponent, same, show rest + 2 - 1 = rest + 1 from rfl, weight_succ,
    weight_succ]
  exact ⟨weight 2 rest * 2 * 2 - 3, by omega, by omega⟩

theorem Regular.bound_scaled (regular : format.Regular) :
    2 * (format.overflowBound / 2 ^ format.leastExponent) =
      format.rung (format.topStep - 1) + format.rung format.topStep := by
  obtain ⟨count, special, largest⟩ := regular.special_eq
  have positive := bit_pos format.fractionBits
  have top : format.topStep = (count + 1) * weight 2 format.fractionBits +
      weight 2 format.fractionBits := by
    rw [topStep, special]; ring
  have last : format.topStep - 1 = count * weight 2 format.fractionBits +
      (2 * weight 2 format.fractionBits - 1) := by
    rw [topStep, special, Nat.add_mul]; omega
  have upper : (format.maxExponent : ℤ) + 1 =
      format.leastExponent + (count + 1 + format.fractionBits : ℕ) := by
    rw [leastExponent, minExponent]; push_cast; linarith
  have lower : (format.maxExponent : ℤ) - format.precision =
      format.leastExponent + count - 1 := by
    rw [leastExponent, minExponent, regular.precision_eq]; push_cast; linarith
  have scale : (2 : ℚ) ^ format.leastExponent ≠ 0 := by positivity
  rw [last, top, format.rung_row _ _ (Or.inr (by omega)) (by omega),
    format.rung_row _ _ (Or.inr (by omega)) (by omega), overflowBound, upper, lower,
    zpow_sub₀ (by norm_num), zpow_add₀ (by norm_num), zpow_add₀ (by norm_num), zpow_natCast,
    zpow_natCast, Nat.cast_mul, Nat.cast_mul, Nat.cast_sub (by omega)]
  push_cast [cast_weight]
  field_simp
  ring

theorem topStep_even (regular : format.Regular) : format.topStep % 2 = 0 := by
  rw [topStep, Nat.mul_mod, regular.even]
  simp

theorem fraction_le_topStep (regular : format.Regular) :
    weight 2 format.fractionBits ≤ format.topStep := by
  obtain ⟨count, special, _⟩ := regular.special_eq
  rw [topStep, special]
  exact Nat.le_mul_of_pos_left _ (Nat.succ_pos _)

theorem topStep_pos (regular : format.Regular) : 0 < format.topStep :=
  Nat.lt_of_lt_of_le (bit_pos _) (fraction_le_topStep regular)

theorem rung_lt_iff (low high : Nat) :
    (format.rung low : ℚ) < format.rung high ↔ low < high := by
  rw [Nat.cast_lt]
  exact format.rung_strictMono.lt_iff_lt

/-- The nearest step reaches infinity exactly from the overflow bound on. -/
theorem overflow_iff (regular : format.Regular) {value : ℚ} {step : Nat}
    (nearest : format.NearestRung (value / 2 ^ format.leastExponent) step) :
    format.topStep ≤ step ↔ format.overflowBound ≤ value := by
  have bound := regular.bound_scaled
  have positive := topStep_pos regular
  have scale : (0 : ℚ) < 2 ^ format.leastExponent := by positivity
  have scaled : format.overflowBound ≤ value ↔
      2 * (format.overflowBound / 2 ^ format.leastExponent) ≤
        2 * (value / 2 ^ format.leastExponent) := by
    rw [mul_le_mul_iff_right₀ (by norm_num), div_le_div_iff_of_pos_right scale]
  rw [scaled, bound]
  constructor
  · intro reached
    have ordered : (format.rung (format.topStep - 1) : ℚ) < format.rung step :=
      (rung_lt_iff _ _).mpr (by omega)
    have near := (nearer_above ordered).mp (nearest.near _)
    have top : (format.rung format.topStep : ℚ) ≤ format.rung step := by
      exact_mod_cast format.rung_strictMono.monotone reached
    linarith
  · intro past
    by_contra below
    have ordered : (format.rung step : ℚ) < format.rung format.topStep :=
      (rung_lt_iff _ _).mpr (by omega)
    have near := (nearer_below ordered).mp (nearest.near _)
    have last : (format.rung step : ℚ) ≤ format.rung (format.topStep - 1) := by
      exact_mod_cast format.rung_strictMono.monotone (by omega : step ≤ format.topStep - 1)
    -- Only the last finite step could be as near, at a tie, and it is odd.
    have same : format.rung step = format.rung (format.topStep - 1) := by
      exact_mod_cast le_antisymm last (by linarith)
    have odd := format.rung_strictMono.injective same
    have tie := (nearer_above ordered).mpr (by linarith)
    have even := nearest.even format.topStep (by omega)
      (le_antisymm tie (nearest.near format.topStep))
    have topEven := topStep_even regular
    omega

theorem distance_scaled (rung : Nat) (value : ℚ) :
    |(rung : ℚ) * 2 ^ format.leastExponent - value| =
      |(rung : ℚ) - value / 2 ^ format.leastExponent| * 2 ^ format.leastExponent := by
  have scale : (0 : ℚ) < 2 ^ format.leastExponent := by positivity
  rw [← abs_of_pos scale, ← abs_mul, abs_of_pos scale, sub_mul, div_mul_cancel₀ _ scale.ne']

theorem pattern_even (regular : format.Regular) (pattern : Nat) :
    pattern % 2 = format.stepOf pattern % 2 := by
  have exponents := regular.exponents
  obtain ⟨rest, same⟩ : ∃ rest, format.exponentBits + format.fractionBits = rest + 1 :=
    ⟨format.exponentBits + format.fractionBits - 1, by omega⟩
  rw [stepOf, same, weight_succ, Nat.mod_mul_left_mod]

theorem nearestEven_of_rung (regular : format.Regular) (negative : Bool) (value : ℚ) (step : Nat)
    (nearest : format.NearestRung (value / 2 ^ format.leastExponent) step) :
    format.NearestEven negative value (format.pattern negative 0 (min step format.topStep)) := by
  have scale : (0 : ℚ) < 2 ^ format.leastExponent := by positivity
  have inside := format.min_topStep_lt step
  have place := format.stepOf_pattern negative _ inside
  have sign := format.isNegative_pattern negative _ inside
  have below : value < format.overflowBound → step < format.topStep := fun less =>
    Nat.lt_of_not_le fun reached => not_le.mpr less ((overflow_iff regular nearest).mp reached)
  refine ⟨format.pattern_lt negative _ inside, ?_, ?_, ?_, ?_⟩
  · intro past
    have reached := (overflow_iff regular nearest).mpr past
    rw [number_infinite, place, sign]
    exact ⟨rfl, Nat.min_eq_right reached⟩
  · intro less
    rw [number_finite, place, sign]
    exact ⟨rfl, Nat.lt_of_le_of_lt (Nat.min_le_left _ _) (below less), format.magnitude_rung _ ▸
      by rw [place]⟩
  · intro less other magnitude finite
    obtain ⟨_, _, same⟩ := (format.number_finite _ _ _).mp finite
    rw [same, magnitude_rung, place, Nat.min_eq_left (below less).le, distance_scaled,
      distance_scaled]
    exact mul_le_mul_of_nonneg_right (nearest.near _) scale.le
  · intro less other magnitude finite different equal
    obtain ⟨_, _, same⟩ := (format.number_finite _ _ _).mp finite
    rw [magnitude_rung, place, Nat.min_eq_left (below less).le] at different equal
    rw [same, distance_scaled, distance_scaled] at equal
    rw [pattern_even regular, place, Nat.min_eq_left (below less).le]
    refine nearest.even (format.stepOf other) ?_ (mul_right_cancel₀ scale.ne' equal)
    intro equalSteps
    exact different (by rw [same, equalSteps])

theorem number_step (negative : Bool) {step : Nat} (finite : step < format.topStep) :
    format.number (format.pattern negative 0 step) =
      .finite negative (format.rung step * 2 ^ format.leastExponent) := by
  have inside := Nat.lt_trans finite format.topStep_lt
  rw [number_finite, format.stepOf_pattern _ _ inside]
  exact ⟨format.isNegative_pattern _ _ inside, finite, rfl⟩

/-- Two finite patterns that are both nearest would be two even steps around the
value, and the odd step after the first one is nearer. -/
theorem steps_not_lt (regular : format.Regular) {negative : Bool} {value : ℚ} {first second : Nat}
    (less : value < format.overflowBound)
    (left : format.NearestEven negative value first)
    (right : format.NearestEven negative value second) :
    ¬ format.stepOf first < format.stepOf second := by
  intro ordered
  have scale : (0 : ℚ) < 2 ^ format.leastExponent := by positivity
  have leftFinite := left.finite less
  have rightFinite := right.finite less
  have inside := ((format.number_finite _ _ _).mp rightFinite).2.1
  have climb : ∀ low high, low < high →
      (format.rung low : ℚ) * 2 ^ format.leastExponent <
        format.rung high * 2 ^ format.leastExponent :=
    fun low high less => mul_lt_mul_of_pos_right ((rung_lt_iff low high).mpr less) scale
  have apart := climb _ _ ordered
  rw [← magnitude_rung, ← magnitude_rung] at apart
  have equal := le_antisymm (left.near less second _ rightFinite)
    (right.near less first _ leftFinite)
  have halfway := (nearer_above apart).mp equal.ge
  have leftEven := left.even less second _ rightFinite apart.ne' equal.symm
  have rightEven := right.even less first _ leftFinite apart.ne equal
  rw [pattern_even regular] at leftEven rightEven
  -- The steps are both even, so the next step after the first one is another.
  have near := left.near less _ _ (number_step negative
    (show format.stepOf first + 1 < format.topStep by omega))
  have above := climb (format.stepOf first) (format.stepOf first + 1) (Nat.lt_succ_self _)
  have below := climb (format.stepOf first + 1) (format.stepOf second) (by omega)
  rw [← magnitude_rung] at above below
  have past := (nearer_below above).mp near
  linarith

theorem NearestEven.sign {negative : Bool} {value : ℚ} {pattern : Nat}
    (nearest : format.NearestEven negative value pattern) :
    format.isNegative pattern = negative := by
  rcases lt_or_ge value format.overflowBound with less | past
  · exact ((format.number_finite _ _ _).mp (nearest.finite less)).1
  · exact ((format.number_infinite _ _).mp (nearest.overflow past)).1

theorem NearestEven.unique (regular : format.Regular) {negative : Bool} {value : ℚ}
    {first second : Nat} (left : format.NearestEven negative value first)
    (right : format.NearestEven negative value second) : first = second := by
  refine format.pattern_ext left.bounded right.bounded (left.sign.trans right.sign.symm) ?_
  rcases lt_or_ge value format.overflowBound with less | past
  · have notLess := steps_not_lt regular less left right
    have notMore := steps_not_lt regular less right left
    omega
  · have leftTop := ((format.number_infinite _ _).mp (left.overflow past)).2
    have rightTop := ((format.number_infinite _ _).mp (right.overflow past)).2
    exact leftTop.trans rightTop.symm

theorem NearestEven.infinite_iff {negative : Bool} {value : ℚ} {pattern : Nat}
    (nearest : format.NearestEven negative value pattern) :
    format.number pattern = .infinite negative ↔ format.overflowBound ≤ value := by
  refine ⟨fun infinite => ?_, nearest.overflow⟩
  by_contra less
  have finite := nearest.finite (not_le.mp less)
  rw [infinite] at finite
  cases finite

end Format

end TypedLiteral.Binary

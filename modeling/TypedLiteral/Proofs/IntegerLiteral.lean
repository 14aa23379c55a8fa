import TypedLiteral.Proofs.IntegerConstant
import TypedLiteral.Proofs.Numeral
import TypedLiteral.Proofs.TierTable

/-!
Integer literals are exact and narrowest: a literal is given the type of least
width that contains its value, and a literal outside every type of its signedness
is refused. Cutting magnitudes at 64 bits refuses no more than the types do.
-/
namespace TypedLiteral.IntegerLiteral

theorem apply_natAbs (sign : Sign) (magnitude : Nat) :
    (sign.apply magnitude).natAbs = magnitude := by
  cases sign <;> simp [Sign.apply]

theorem narrow_eq (sign : Sign) (magnitude : Nat) (tiers : TierTable) :
    narrow? sign magnitude tiers =
      (tiers.narrowest sign.isExplicit (sign.apply magnitude)).map
        (IntegerConstant.ofInt · (sign.apply magnitude)) := by
  -- The cut at 64 bits is not observable, because no type reaches past it.
  unfold narrow?
  split
  · rfl
  · next large =>
      have outside : tiers.narrowest sign.isExplicit (sign.apply magnitude) = none := by
        rw [TierTable.narrowest_none]
        intro type member
        have bounded := (tiers.types_valid _ type member).2.2
        by_contra inside
        have reached := type.contains_natAbs _ bounded (by simpa using inside)
        rw [apply_natAbs] at reached
        exact large reached
      rw [outside]
      rfl

theorem evaluate_spelled (literal : IntegerLiteral) (tiers : TierTable) (values : List Nat)
    (spelled : literal.base.Spells literal.digits values) :
    literal.evaluate tiers =
      match tiers.narrowest literal.sign.isExplicit
          (literal.sign.apply (Nat.ofDigits literal.base.radix values.reverse)) with
      | some type => .ok (IntegerConstant.ofInt type
          (literal.sign.apply (Nat.ofDigits literal.base.radix values.reverse)))
      | none => .error (.outOfRange literal.rangeError) := by
  rw [evaluate, Base.magnitude_spelled _ _ _ spelled]
  simp only [narrow_eq]
  cases tiers.narrowest literal.sign.isExplicit _ <;> rfl

/-- An integer literal succeeds exactly when some type of its signedness contains
its value. It then has the type of least width, the value itself and the value's
residue as its pattern; otherwise it is out of range. -/
theorem evaluate_exact_narrowest (literal : IntegerLiteral) (tiers : TierTable) (radix : Nat)
    (named : (literal.base, radix) ∈ [(.binary, 2), (.octal, 8), (.decimal, 10), (.hex, 16)])
    (values : List Nat) (spelled : Spelled radix literal.digits values) :
    let magnitude : ℤ := (Nat.ofDigits radix values.reverse : ℕ)
    let value := if literal.sign = .minus then -magnitude else magnitude
    let types := tiers.types (decide (literal.sign ≠ .none))
    ((∃ constant, literal.evaluate tiers = .ok constant) ↔
      ∃ type ∈ types, type.contains value = true) ∧
    (∀ constant, literal.evaluate tiers = .ok constant →
      constant.type ∈ types ∧ constant.type.contains value = true ∧
      (∀ type ∈ types, type.contains value = true → constant.type.width ≤ type.width) ∧
      constant.value = value ∧ (constant.bits : Int) = value % 2 ^ constant.type.width) ∧
    ((¬ ∃ type ∈ types, type.contains value = true) →
      ∃ fault, literal.evaluate tiers = .error (.outOfRange fault) ∧
        (fault.signed = true ↔ literal.sign ≠ .none)) := by
  intro magnitude value types
  obtain rfl := Base.radix_of_mem named
  have outcome := evaluate_spelled literal tiers values spelled
  have signedValue : literal.sign.apply (Nat.ofDigits literal.base.radix values.reverse) = value :=
    literal.sign.apply_eq _
  rw [signedValue, literal.sign.isExplicit_eq] at outcome
  cases found : tiers.narrowest (decide (literal.sign ≠ .none)) value with
  | none =>
      have outside : ¬ ∃ type ∈ types, type.contains value = true := by
        rintro ⟨type, member, inside⟩
        have excluded := (tiers.narrowest_none _ _).mp found type member
        simp [inside] at excluded
      rw [found] at outcome
      simp only [outcome, reduceCtorEq, exists_false, false_iff, IsEmpty.forall_iff, implies_true,
        true_and]
      refine ⟨outside, fun _ => ⟨_, rfl, ?_⟩⟩
      rw [rangeError, literal.sign.isExplicit_eq, decide_eq_true_eq]
  | some type =>
      obtain ⟨member, inside, least⟩ := tiers.narrowest_some _ _ _ found
      obtain ⟨_, positive, bounded⟩ := tiers.types_valid _ type member
      have exact := IntegerConstant.value_ofInt type value positive bounded inside
      have residue := IntegerConstant.bits_ofInt type value
      have power : ((weight 2 type.width : ℕ) : ℤ) = 2 ^ type.width := by exact_mod_cast rfl
      rw [type.modulus_width bounded, power] at residue
      rw [found] at outcome
      refine ⟨⟨fun _ => ⟨type, member, inside⟩, fun _ => ⟨_, outcome⟩⟩, ?_, ?_⟩
      · intro constant succeeded
        rw [outcome] at succeeded
        cases succeeded
        exact ⟨member, inside, least, exact, residue⟩
      · intro outside
        exact absurd ⟨type, member, inside⟩ outside

theorem evaluate_least_signed :
    Spelled 16 ['0', '8', '0', '0', '0', '0', '0', '0', '0', '0', '0', '0', '0', '0', '0',
        '0', '0'] [0, 8, 0, 0, 0, 0, 0, 0, 0, 0, 0, 0, 0, 0, 0, 0, 0] ∧
      ∃ constant, evaluate ⟨.minus, .hex, ['0', '8', '0', '0', '0', '0', '0', '0', '0', '0', '0',
        '0', '0', '0', '0', '0', '0']⟩ .standard = .ok constant ∧
        constant.type = ⟨64, true⟩ ∧ constant.value = -2 ^ 63 := by
  -- The magnitude alone needs an unsigned type.
  have spelled : Spelled 16 ['0', '8', '0', '0', '0', '0', '0', '0', '0', '0', '0', '0', '0',
      '0', '0', '0', '0'] [0, 8, 0, 0, 0, 0, 0, 0, 0, 0, 0, 0, 0, 0, 0, 0, 0] := by
    simp [Spelled]
  obtain ⟨succeeds, result, _⟩ :=
    evaluate_exact_narrowest ⟨.minus, .hex, _⟩ .standard 16 (by decide) _ spelled
  obtain ⟨constant, done⟩ := succeeds.mpr ⟨⟨64, true⟩, by decide, by decide⟩
  obtain ⟨member, inside, _, value, _⟩ := result constant done
  refine ⟨spelled, constant, done, ?_, value⟩
  have row : constant.type ∈ [⟨8, true⟩, ⟨16, true⟩, ⟨32, true⟩, ⟨64, true⟩] := member
  simp only [List.mem_cons, List.not_mem_nil, or_false] at row
  rcases row with narrow | narrow | narrow | widest
  · rw [narrow] at inside; exact absurd inside (by decide)
  · rw [narrow] at inside; exact absurd inside (by decide)
  · rw [narrow] at inside; exact absurd inside (by decide)
  · exact widest

end TypedLiteral.IntegerLiteral

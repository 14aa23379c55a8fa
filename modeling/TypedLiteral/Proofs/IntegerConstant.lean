import TypedLiteral.IntegerLiteral

/-!
Constants of integer types. The constant built from a value has the pattern of
the value's residue, and when the type contains the value, it stands for it.
-/
namespace TypedLiteral

namespace IntType

theorem contains_iff (type : IntType) (value : Int) :
    type.contains value = true ↔ type.least ≤ value ∧ value ≤ type.greatest := by
  simp [contains]

theorem modulus_width (type : IntType) (bounded : type.width ≤ maxWidth) :
    type.modulus = weight 2 type.width := by
  rw [modulus, Nat.min_eq_left bounded]

theorem modulus_halves (type : IntType) (positive : 1 ≤ type.width) :
    weight 2 type.width = 2 * weight 2 (type.width - 1) := by
  obtain ⟨rest, same⟩ : ∃ rest, type.width = rest + 1 := ⟨type.width - 1, by omega⟩
  rw [same, Nat.add_sub_cancel]
  exact Nat.pow_succ'

/-- No type of 64 bits at most reaches further than 64 bits, on either side of zero. -/
theorem contains_natAbs (type : IntType) (value : Int) (bounded : type.width ≤ maxWidth)
    (inside : type.contains value = true) : value.natAbs < weight 2 64 := by
  have widest : weight 2 type.width ≤ weight 2 64 := Nat.pow_le_pow_right (by decide) bounded
  have half : weight 2 (type.width - 1) ≤ weight 2 63 :=
    Nat.pow_le_pow_right (by decide) (by simp only [maxWidth] at bounded; omega)
  have doubled : weight 2 64 = 2 * weight 2 63 := rfl
  have some_bit := bit_pos 63
  rw [contains_iff, least, greatest] at inside
  cases signed : type.signed <;> simp only [signed, Bool.false_eq_true, ↓reduceIte] at inside <;>
    omega

theorem contains_wider {narrow wide : IntType} (sign : narrow.signed = wide.signed)
    (wider : narrow.width ≤ wide.width) (value : Int) (inside : narrow.contains value = true) :
    wide.contains value = true := by
  have range := weight_le wider
  have half := weight_le (show narrow.width - 1 ≤ wide.width - 1 by omega)
  rw [contains_iff, least, greatest] at inside ⊢
  rw [sign] at inside
  cases signed : wide.signed <;> simp only [signed, Bool.false_eq_true, ↓reduceIte] at inside ⊢ <;>
    omega

end IntType

namespace IntegerConstant

@[simp] theorem type_ofInt (type : IntType) (value : Int) : (ofInt type value).type = type := rfl

theorem bits_ofInt (type : IntType) (value : Int) :
    ((ofInt type value).bits : Int) = value % type.modulus :=
  Int.toNat_of_nonneg
    (Int.emod_nonneg value (Int.natCast_ne_zero.mpr (Nat.ne_of_gt type.modulus_pos)))

/-- Residues are one to one on the range of a type, so its values survive the cut
to the pattern. -/
theorem value_ofInt (type : IntType) (value : Int) (positive : 1 ≤ type.width)
    (bounded : type.width ≤ IntType.maxWidth) (inside : type.contains value = true) :
    (ofInt type value).value = value := by
  have modulus := type.modulus_width bounded
  have halves := type.modulus_halves positive
  rw [IntType.contains_iff, IntType.least, IntType.greatest] at inside
  rw [IntegerConstant.value, bits_ofInt, type_ofInt, modulus]
  cases signed : type.signed with
  | false =>
      simp only [signed, Bool.false_eq_true, ↓reduceIte] at inside ⊢
      exact Int.emod_eq_of_lt inside.1 (by omega)
  | true =>
      simp only [signed, ↓reduceIte] at inside ⊢
      rw [Int.emod_bmod]
      exact Int.bmod_eq_of_le_mul_two (by omega) (by omega)

theorem ofInt_value (constant : IntegerConstant) :
    ofInt constant.type constant.value = constant := by
  obtain ⟨type, bits, fits⟩ := constant
  have coarser : (type.modulus : Int) ∣ (weight 2 type.width : Int) :=
    Int.natCast_dvd_natCast.mpr (weight_dvd 2 (Nat.min_le_left _ _))
  have residue : value ⟨type, bits, fits⟩ % type.modulus = bits := by
    cases signed : type.signed with
    | false =>
        simp only [value, signed, Bool.false_eq_true, ↓reduceIte]
        exact_mod_cast Nat.mod_eq_of_lt fits
    | true =>
        simp only [value, signed, ↓reduceIte]
        rw [← Int.emod_emod_of_dvd _ coarser, Int.bmod_emod, Int.emod_emod_of_dvd _ coarser]
        exact_mod_cast Nat.mod_eq_of_lt fits
  simp only [ofInt, residue, Int.toNat_natCast]

end IntegerConstant

end TypedLiteral

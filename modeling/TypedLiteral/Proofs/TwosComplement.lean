import Mathlib.Data.Int.ModEq
import TypedLiteral.Proofs.TierTable

/-!
Two's complement, for every width from one bit to 64. A pattern is cut to the bits of the
type by its mask, and the highest bit that is left is the sign. The constants of a type,
the residues of patterns and the values of its range then correspond one to one.
-/
namespace TypedLiteral

theorem IntType.modulus_power (type : IntType) (bounded : type.width ≤ maxWidth) :
    (type.modulus : Int) = 2 ^ type.width := by
  rw [type.modulus_width bounded]
  exact_mod_cast rfl

namespace IntegerConstant

theorem bits_mask (type : IntType) (pattern : Nat) :
    (ofInt type pattern).bits = pattern &&& type.mask := by
  have residue : pattern &&& type.mask = pattern % type.modulus :=
    Nat.and_two_pow_sub_one_eq_mod pattern _
  have kept := bits_ofInt type pattern
  rw [residue]
  exact_mod_cast kept

theorem ofInt_eq_iff (type : IntType) (first second : Int) :
    ofInt type first = ofInt type second ↔ first ≡ second [ZMOD type.modulus] := by
  constructor
  · intro same
    rw [Int.ModEq, ← bits_ofInt, ← bits_ofInt, same]
  · intro same
    simp only [ofInt, same.eq]

theorem ofInt_low (type : IntType) (value : Int) :
    ofInt type (BitVec.ofInt 64 value).toNat = ofInt type value := by
  have coarser : (type.modulus : Int) ∣ (2 ^ 64 : ℕ) :=
    Int.natCast_dvd_natCast.mpr (weight_dvd 2 (Nat.min_le_right _ _))
  have low : (((BitVec.ofInt 64 value).toNat : ℕ) : Int) = value % (2 ^ 64 : ℕ) := by
    rw [BitVec.toNat_ofInt]
    exact Int.toNat_of_nonneg (Int.emod_nonneg _ (by decide))
  rw [ofInt_eq_iff, low]
  exact Int.emod_emod_of_dvd value coarser

theorem bits_lt (constant : IntegerConstant) (bounded : constant.type.width ≤ IntType.maxWidth) :
    constant.bits < weight 2 constant.type.width :=
  constant.type.modulus_width bounded ▸ constant.fits

section Sign

variable (constant : IntegerConstant) (positive : 1 ≤ constant.type.width)
variable (bounded : constant.type.width ≤ IntType.maxWidth)
include positive bounded

theorem signBit_iff : constant.bits.testBit (constant.type.width - 1) = true ↔
    weight 2 (constant.type.width - 1) ≤ constant.bits := by
  have fits := constant.bits_lt bounded
  constructor
  · exact Nat.ge_two_pow_of_testBit
  · intro upper
    have last : constant.type.width - 1 + 1 = constant.type.width := by omega
    exact Nat.testBit_of_two_pow_le_and_two_pow_add_one_gt upper (by rw [last]; exact fits)

/-- A signed constant with its highest bit set is less than its pattern, by the number of
all patterns. -/
theorem value_signBit : constant.value = constant.bits -
    if constant.type.signed && constant.bits.testBit (constant.type.width - 1) then
      (weight 2 constant.type.width : Int) else 0 := by
  have sign := signBit_iff constant positive bounded
  have halves := constant.type.modulus_halves positive
  have fits := constant.bits_lt bounded
  have residue : (constant.bits : Int) % weight 2 constant.type.width = constant.bits :=
    Int.emod_eq_of_lt (Int.natCast_nonneg _) (by exact_mod_cast fits)
  rw [value]
  cases signed : constant.type.signed with
  | false => simp
  | true =>
      simp only [↓reduceIte, Bool.true_and, sign, Int.bmod_def, residue]
      split <;> split <;> omega

theorem value_contained : constant.type.contains constant.value = true := by
  have sign := signBit_iff constant positive bounded
  have halves := constant.type.modulus_halves positive
  have fits := constant.bits_lt bounded
  rw [IntType.contains_iff, IntType.least, IntType.greatest,
    value_signBit constant positive bounded]
  cases signed : constant.type.signed with
  | false =>
      simp only [Bool.false_and, Bool.false_eq_true, ↓reduceIte]
      omega
  | true =>
      simp only [Bool.true_and, sign, ↓reduceIte]
      split <;> omega

theorem value_modEq : constant.value ≡ constant.bits [ZMOD constant.type.modulus] := by
  rw [value_signBit constant positive bounded, Int.modEq_iff_dvd, sub_sub_cancel,
    constant.type.modulus_width bounded]
  split
  · exact dvd_rfl
  · exact dvd_zero _

end Sign

/-- A type of a table has the value of every constant built from a pattern, and that value
agrees with the pattern in the bits of the type, which are what its mask keeps. Two
patterns build the same constant exactly when they agree in these bits, and each value in
the range of the type is the value of the constant built from its own low bits. -/
theorem patterns_match_range (table : TierTable) (signed : Bool) (type : IntType)
    (member : type ∈ table.types signed) :
    (∀ pattern : BitVec 64,
      (ofInt type pattern.toNat).bits = pattern.toNat &&& type.mask ∧
      type.contains (ofInt type pattern.toNat).value = true ∧
      (ofInt type pattern.toNat).value ≡ pattern.toNat [ZMOD 2 ^ type.width]) ∧
    (∀ first second : BitVec 64, ofInt type first.toNat = ofInt type second.toNat ↔
      first.toNat ≡ second.toNat [ZMOD 2 ^ type.width]) ∧
    ∀ value : Int, type.least ≤ value → value ≤ type.greatest →
      (ofInt type (BitVec.ofInt 64 value).toNat).value = value := by
  obtain ⟨_, positive, bounded⟩ := table.types_valid signed type member
  rw [← type.modulus_power bounded]
  refine ⟨?_, ?_, ?_⟩
  · intro pattern
    have cut : ((ofInt type pattern.toNat).bits : Int) ≡ pattern.toNat [ZMOD type.modulus] := by
      rw [bits_ofInt]
      exact Int.mod_modEq _ _
    have stands := value_modEq (ofInt type pattern.toNat) positive bounded
    exact ⟨bits_mask type _, value_contained (ofInt type pattern.toNat) positive bounded,
      stands.trans cut⟩
  · intro first second
    exact ofInt_eq_iff type _ _
  · intro value low high
    rw [ofInt_low]
    exact value_ofInt type value positive bounded ((type.contains_iff value).mpr ⟨low, high⟩)

/-- The narrowest signed type has only zero and minus one, and the widest type of all
reaches down to the pattern of the sign bit alone. -/
theorem patterns_match_range_extremes :
    let table : TierTable := ⟨[1], [1, 64], TierTable.fault_none false _ (by decide),
      TierTable.fault_none true _ (by decide)⟩
    (⟨1, true⟩ ∈ table.types true ∧ ofInt ⟨1, true⟩ (3 : BitVec 64).toNat =
      ofInt ⟨1, true⟩ (1 : BitVec 64).toNat ∧ (ofInt ⟨1, true⟩ (3 : BitVec 64).toNat).value = -1 ∧
      (ofInt ⟨1, true⟩ (3 : BitVec 64).toNat).value ≡ (3 : BitVec 64).toNat [ZMOD 2 ^ 1]) ∧
    ⟨64, true⟩ ∈ table.types true ∧
      (ofInt ⟨64, true⟩ (BitVec.ofInt 64 (-2 ^ 63)).toNat).value = -2 ^ 63 := by
  intro table
  have narrow : ⟨1, true⟩ ∈ table.types true := by decide
  have wide : ⟨64, true⟩ ∈ table.types true := by decide
  obtain ⟨cut, same, _⟩ := patterns_match_range table true ⟨1, true⟩ narrow
  obtain ⟨_, _, restored⟩ := patterns_match_range table true ⟨64, true⟩ wide
  refine ⟨⟨narrow, (same 3 1).mpr (by decide), by decide, (cut 3).2.2⟩, wide, ?_⟩
  exact restored (-2 ^ 63) (by decide) (by decide)

end IntegerConstant

end TypedLiteral

import TypedLiteral.FloatLiteral
import TypedLiteral.Proofs.Binary.Narrowing
import TypedLiteral.Proofs.Binary.Quotient
import TypedLiteral.Proofs.Binary.Rerounding
import TypedLiteral.Proofs.Binary.RoundedStep
import TypedLiteral.Proofs.Numeral

/-!
Float literals are correctly rounded and as narrow as they can be. The digits on
both sides of the point spell a fraction over a power of ten; the constant has the
binary64 pattern nearest to it, and single precision exactly when binary32 has the
number of that pattern as well.
-/
namespace TypedLiteral.FloatLiteral

open Binary

def decimalValue (whole part : List Nat) : ℚ :=
  (Nat.ofDigits 10 (whole ++ part).reverse : ℕ) / 10 ^ part.length

/-- The outcome of a literal: the correctly rounded binary64 pattern, the pattern of
the second candidate, and the choice between them. -/
structure Outcome (literal : FloatLiteral) (value : ℚ) (double single : Nat) : Prop where
  nearest : binary64.NearestEven (decide (literal.sign = .minus)) value double
  bounded : single < weight 2 32
  narrow : binary32.widen binary64 single = double ↔
    ∃ other, binary32.number other = binary64.number double
  same : binary32.widen binary64 single = double →
    binary32.number single = binary64.number double
  evaluated : literal.evaluate = .ok (if binary32.widen binary64 single = double then
    .single (BitVec.ofNat 32 single) else .double (BitVec.ofNat 64 double))

variable {literal : FloatLiteral}

theorem choose_ok {candidates : Candidates} (negative : Bool) {double single : Nat}
    (doubleDone : candidates.double.encode binary64 negative = .ok double)
    (singleDone : candidates.single.encode binary32 negative = .ok single) :
    choose candidates negative = .ok (if binary32.widen binary64 single = double then
      .single (BitVec.ofNat 32 single) else .double (BitVec.ofNat 64 double)) := by
  rw [choose, doubleDone, singleDone]
  simp only [bind, Except.bind]
  split <;> rfl

theorem outcome_of_scaled {number : Scaled} {value : ℚ} (scaled : literal.scaled = .ok number)
    (standsFor : number.StandsFor value) :
    ∃ double single, literal.Outcome value double single := by
  have narrow := Format.binary32_regular
  have wide := Format.binary64_regular
  obtain ⟨step, nearest, onStep, long⟩ := Format.round_standsFor wide standsFor
  have doubleDone := Format.encode_long wide literal.sign.isNegative step onStep long
  have rounded :=
    Format.nearestEven_of_rung wide (decide (literal.sign = .minus)) value step nearest
  obtain ⟨single, singleDone, bounded⟩ := Format.encode_total narrow
    (Candidates.of number).single literal.sign.isNegative
  rw [literal.sign.isNegative_eq] at doubleDone singleDone
  refine ⟨_, single, rounded, bounded, ?_, ?_, ?_⟩
  · exact Format.widen_round_iff Format.binary_widens narrow wide _ _ onStep long singleDone
  · intro widened
    rw [← widened, (Format.widen_exact Format.binary_widens narrow wide single).1]
  · rw [evaluate, scaled, literal.sign.isNegative_eq]
    exact choose_ok _ doubleDone singleDone

variable {whole part : List Nat}

theorem scaled_standsFor (spelledWhole : Base.decimal.Spells literal.integer whole)
    (spelledPart : Base.decimal.Spells literal.fraction part) :
    ∃ number, literal.scaled = .ok number ∧ number.StandsFor (decimalValue whole part) := by
  have spelled := Base.spells_append _ _ _ _ _ spelledWhole spelledPart
  have length := spelledPart.length_eq
  have power : ((weight 10 part.length : ℕ) : ℚ) = 10 ^ part.length := by exact_mod_cast rfl
  rw [scaled, Base.magnitude_spelled _ _ _ spelled, decimalValue, length, ← power,
    show Base.decimal.radix = 10 from rfl]
  simp only [bind, Except.bind]
  generalize Nat.ofDigits 10 (whole ++ part).reverse = numerator
  by_cases zero : numerator = 0
  · simp only [zero, ↓reduceIte]
    exact ⟨_, rfl, Or.inl ⟨rfl, by simp⟩⟩
  · simp only [zero, ↓reduceIte]
    exact quotient_standsFor numerator _ zero (weight_pos 10 part.length (by decide))

namespace Outcome

variable {value : ℚ} {double single : Nat} (outcome : literal.Outcome value double single)
include outcome

theorem single_toNat : (BitVec.ofNat 32 single).toNat = single :=
  Nat.mod_eq_of_lt outcome.bounded

theorem double_toNat : (BitVec.ofNat 64 double).toNat = double :=
  Nat.mod_eq_of_lt outcome.nearest.bounded

theorem single_iff : (∃ pattern, literal.evaluate = .ok (.single pattern)) ↔
    ∃ narrow : BitVec 32, binary32.number narrow.toNat = binary64.number double := by
  rw [outcome.evaluated]
  constructor
  · rintro ⟨pattern, chosen⟩
    have widened : binary32.widen binary64 single = double := by
      by_contra different
      rw [if_neg different] at chosen
      cases chosen
    exact ⟨_, outcome.single_toNat.symm ▸ outcome.same widened⟩
  · rintro ⟨narrow, represented⟩
    have widened := outcome.narrow.mpr ⟨narrow.toNat, represented⟩
    exact ⟨_, by rw [if_pos widened]⟩

theorem single_number (pattern : BitVec 32) (chosen : literal.evaluate = .ok (.single pattern)) :
    binary32.number pattern.toNat = binary64.number double := by
  rw [outcome.evaluated] at chosen
  by_cases widened : binary32.widen binary64 single = double
  · rw [if_pos widened] at chosen
    cases chosen
    rw [outcome.single_toNat]
    exact outcome.same widened
  · rw [if_neg widened] at chosen
    cases chosen

theorem doubleBits :
    ∃ constant, literal.evaluate = .ok constant ∧ constant.doubleBits = double := by
  refine ⟨_, outcome.evaluated, ?_⟩
  by_cases widened : binary32.widen binary64 single = double
  · rw [if_pos widened, FloatConstant.doubleBits, outcome.single_toNat, widened]
  · rw [if_neg widened, FloatConstant.doubleBits, outcome.double_toNat]

end Outcome

theorem overflowBound_binary64 : binary64.overflowBound = 2 ^ 1024 - 2 ^ 970 := by
  have largest : (binary64.maxExponent : ℤ) = 1023 := by decide
  rw [Format.overflowBound, largest]
  rfl

theorem outcome_of_spelled (spelledWhole : Base.decimal.Spells literal.integer whole)
    (spelledPart : Base.decimal.Spells literal.fraction part) :
    ∃ double single, literal.Outcome (decimalValue whole part) double single := by
  obtain ⟨number, scaled, standsFor⟩ := scaled_standsFor spelledWhole spelledPart
  exact outcome_of_scaled scaled standsFor

/-- A literal of decimal digits always has a constant. Its binary64 pattern is the only
one that is nearest to the spelled value, ties to even, with the literal's sign; from
halfway past the largest finite number on it is infinity. -/
theorem evaluate_correctly_rounded (literal : FloatLiteral) (whole part : List Nat)
    (spelledWhole : Base.decimal.Spells literal.integer whole)
    (spelledPart : Base.decimal.Spells literal.fraction part) :
    ∃ constant, literal.evaluate = .ok constant ∧
      (∀ pattern, binary64.NearestEven (decide (literal.sign = .minus)) (decimalValue whole part)
          pattern ↔ pattern = constant.doubleBits) ∧
      (binary64.isNegative constant.doubleBits = true ↔ literal.sign = .minus) ∧
      (binary64.number constant.doubleBits = .infinite (decide (literal.sign = .minus)) ↔
        2 ^ 1024 - 2 ^ 970 ≤ decimalValue whole part) := by
  obtain ⟨double, single, outcome⟩ := outcome_of_spelled spelledWhole spelledPart
  obtain ⟨constant, done, bits⟩ := outcome.doubleBits
  refine ⟨constant, done, ?_, ?_, ?_⟩
  · intro pattern
    rw [bits]
    constructor
    · intro nearest
      exact nearest.unique Format.binary64_regular outcome.nearest
    · rintro rfl
      exact outcome.nearest
  · rw [bits, outcome.nearest.sign, decide_eq_true_eq]
  · rw [bits, ← overflowBound_binary64]
    exact outcome.nearest.infinite_iff

theorem evaluate_tie :
    Base.decimal.Spells ['9', '0', '0', '7', '1', '9', '9', '2', '5', '4', '7', '4', '0', '9', '9',
        '3'] [9, 0, 0, 7, 1, 9, 9, 2, 5, 4, 7, 4, 0, 9, 9, 3] ∧
      Base.decimal.Spells ['0'] [0] ∧
      evaluate ⟨.minus, ['9', '0', '0', '7', '1', '9', '9', '2', '5', '4', '7', '4', '0', '9', '9',
        '3'], ['0']⟩ = .ok (.single 0xda000000) ∧
      binary64.NearestEven true
        (decimalValue [9, 0, 0, 7, 1, 9, 9, 2, 5, 4, 7, 4, 0, 9, 9, 3] [0])
        0xc340000000000000 := by
  -- Of the two neighbours above 2^53 the even one is taken, and binary32 has it.
  have spelledWhole : Base.decimal.Spells ['9', '0', '0', '7', '1', '9', '9', '2', '5', '4', '7',
      '4', '0', '9', '9', '3'] [9, 0, 0, 7, 1, 9, 9, 2, 5, 4, 7, 4, 0, 9, 9, 3] := by
    simp [Base.Spells, Spelled, Base.radix]
  have spelledPart : Base.decimal.Spells ['0'] [0] := by simp [Base.Spells, Spelled, Base.radix]
  have single : evaluate ⟨.minus, ['9', '0', '0', '7', '1', '9', '9', '2', '5', '4', '7', '4', '0',
      '9', '9', '3'], ['0']⟩ = .ok (.single 0xda000000) := by rfl
  obtain ⟨constant, done, nearest, _⟩ :=
    evaluate_correctly_rounded ⟨.minus, _, _⟩ _ _ spelledWhole spelledPart
  refine ⟨spelledWhole, spelledPart, single, (nearest _).mpr ?_⟩
  cases done.symm.trans single
  decide

/-- A literal has single precision exactly when binary32 has the number that the
literal is rounded to in binary64; the pattern then stands for that number, with its
sign. Every other literal has double precision and the binary64 pattern itself. -/
theorem evaluate_narrowest (literal : FloatLiteral) (whole part : List Nat) (double : Nat)
    (spelledWhole : Base.decimal.Spells literal.integer whole)
    (spelledPart : Base.decimal.Spells literal.fraction part)
    (nearest : binary64.NearestEven (decide (literal.sign = .minus)) (decimalValue whole part)
      double) :
    ((∃ pattern, literal.evaluate = .ok (.single pattern)) ↔
      ∃ narrow : BitVec 32, binary32.number narrow.toNat = binary64.number double) ∧
    (∀ pattern, literal.evaluate = .ok (.single pattern) →
      binary32.number pattern.toNat = binary64.number double) ∧
    ((¬ ∃ narrow : BitVec 32, binary32.number narrow.toNat = binary64.number double) →
      ∃ pattern, literal.evaluate = .ok (.double pattern) ∧ pattern.toNat = double) := by
  obtain ⟨rounded, single, outcome⟩ := outcome_of_spelled spelledWhole spelledPart
  obtain rfl := nearest.unique Format.binary64_regular outcome.nearest
  refine ⟨outcome.single_iff, outcome.single_number, ?_⟩
  intro absent
  have different : ¬ binary32.widen binary64 single = double := by
    intro widened
    exact absent ⟨_, outcome.single_toNat.symm ▸ outcome.same widened⟩
  exact ⟨_, by rw [outcome.evaluated, if_neg different], outcome.double_toNat⟩

theorem evaluate_first_double :
    Base.decimal.Spells ['1', '6', '7', '7', '7', '2', '1', '7'] [1, 6, 7, 7, 7, 2, 1, 7] ∧
      Base.decimal.Spells [] [] ∧
      evaluate ⟨.none, ['1', '6', '7', '7', '7', '2', '1', '7'], []⟩ =
        .ok (.double 0x4170000010000000) ∧
      binary64.NearestEven false (decimalValue [1, 6, 7, 7, 7, 2, 1, 7] []) 0x4170000010000000 ∧
      ¬ ∃ narrow : BitVec 32, binary32.number narrow.toNat =
        binary64.number 0x4170000010000000 := by
  -- This is the first natural number that binary32 does not have.
  have spelledWhole : Base.decimal.Spells ['1', '6', '7', '7', '7', '2', '1', '7']
      [1, 6, 7, 7, 7, 2, 1, 7] := by
    simp [Base.Spells, Spelled, Base.radix]
  have spelledPart : Base.decimal.Spells [] [] := List.Forall₂.nil
  have done : evaluate ⟨.none, ['1', '6', '7', '7', '7', '2', '1', '7'], []⟩ =
      .ok (.double 0x4170000010000000) := by rfl
  obtain ⟨double, single, outcome⟩ :=
    @outcome_of_spelled ⟨.none, _, _⟩ _ _ spelledWhole spelledPart
  obtain ⟨chosen, _, kept⟩ := evaluate_narrowest ⟨.none, _, _⟩ _ _ double spelledWhole spelledPart
    outcome.nearest
  have absent : ¬ ∃ narrow : BitVec 32, binary32.number narrow.toNat = binary64.number double := by
    intro represented
    obtain ⟨pattern, narrow⟩ := chosen.mpr represented
    cases done.symm.trans narrow
  obtain ⟨pattern, wide, same⟩ := kept absent
  cases done.symm.trans wide
  subst same
  exact ⟨spelledWhole, spelledPart, done, outcome.nearest, absent⟩

theorem overflowBound_binary32 : binary32.overflowBound = 2 ^ 128 - 2 ^ 103 := by
  have largest : (binary32.maxExponent : ℤ) = 127 := by decide
  rw [Format.overflowBound, largest]
  rfl

/-- The single candidate of a literal has a pattern in either sign, although it is rounded
from the double one. It is the only binary32 pattern that is nearest to the spelled value,
ties to even; from halfway past the largest finite number on it is infinity. -/
theorem single_correctly_rounded (literal : FloatLiteral) (whole part : List Nat)
    (spelledWhole : Base.decimal.Spells literal.integer whole)
    (spelledPart : Base.decimal.Spells literal.fraction part) :
    ∃ number, literal.scaled = .ok number ∧ ∀ negative, ∃ single,
      (Candidates.of number).single.encode binary32 negative = .ok single ∧
      (∀ pattern, binary32.NearestEven negative (decimalValue whole part) pattern ↔
        pattern = single) ∧
      (binary32.number single = .infinite negative ↔
        2 ^ 128 - 2 ^ 103 ≤ decimalValue whole part) := by
  have narrow := Format.binary32_regular
  obtain ⟨number, scaled, standsFor⟩ := scaled_standsFor spelledWhole spelledPart
  refine ⟨number, scaled, fun negative => ?_⟩
  obtain ⟨step, nearest, onStep, long⟩ := Format.round_standsFor narrow standsFor
  have rounded := Format.nearestEven_of_rung narrow negative _ step nearest
  have direct := Format.encode_long narrow negative step onStep long
  have chained := Scaled.encode_twice Format.binary_widens narrow Format.binary64_regular
    (by decide) number negative
  refine ⟨_, chained.trans direct, ?_, ?_⟩
  · intro pattern
    constructor
    · intro other
      exact other.unique narrow rounded
    · rintro rfl
      exact rounded
  · rw [rounded.infinite_iff, overflowBound_binary32]

/-- Just above halfway between 2^24 and its neighbour in binary32: the double candidate is
the tie itself, which alone would go to the even 2^24, and its direction leads upwards. -/
theorem single_above_tie :
    Base.decimal.Spells ['1', '6', '7', '7', '7', '2', '1', '7'] [1, 6, 7, 7, 7, 2, 1, 7] ∧
      Base.decimal.Spells ['0', '0', '0', '0', '0', '0', '0', '0', '1']
        [0, 0, 0, 0, 0, 0, 0, 0, 1] ∧
      binary32.NearestEven false
        (decimalValue [1, 6, 7, 7, 7, 2, 1, 7] [0, 0, 0, 0, 0, 0, 0, 0, 1]) 0x4b800001 := by
  have spelledWhole : Base.decimal.Spells ['1', '6', '7', '7', '7', '2', '1', '7']
      [1, 6, 7, 7, 7, 2, 1, 7] := by
    simp [Base.Spells, Spelled, Base.radix]
  have spelledPart : Base.decimal.Spells ['0', '0', '0', '0', '0', '0', '0', '0', '1']
      [0, 0, 0, 0, 0, 0, 0, 0, 1] := by
    simp [Base.Spells, Spelled, Base.radix]
  have quotient : scaled ⟨.none, ['1', '6', '7', '7', '7', '2', '1', '7'],
      ['0', '0', '0', '0', '0', '0', '0', '0', '1']⟩ = .ok ⟨18446745173221180491, -40⟩ := by rfl
  have chained : (Candidates.of ⟨18446745173221180491, -40⟩).single.encode binary32 false =
      .ok 0x4b800001 := by decide
  obtain ⟨number, done, rounded⟩ :=
    single_correctly_rounded ⟨.none, _, _⟩ _ _ spelledWhole spelledPart
  cases quotient.symm.trans done
  obtain ⟨single, encoded, nearest, _⟩ := rounded false
  cases chained.symm.trans encoded
  exact ⟨spelledWhole, spelledPart, (nearest _).mpr rfl⟩

end TypedLiteral.FloatLiteral

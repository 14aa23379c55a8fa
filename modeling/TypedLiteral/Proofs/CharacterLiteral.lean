import TypedLiteral.Proofs.Escape.Widths
import TypedLiteral.Proofs.IntegerConstant
import TypedLiteral.QuotedLiteral

/-!
Character literals. A body decodes to one unit exactly where it is one item that has one
unit: every item has at least one, so no body of several items is that short. The unit
fits the unsigned type of its width, so the constant stands for the unit itself.
-/
namespace TypedLiteral

/-- A character that is one unit. -/
def UnitWidth.Short : UnitWidth → Char → Prop
  | .narrow, c => c.toNat < 0x80
  | .wide, _ => True

namespace Item

inductive Single (width : UnitWidth) : Item → Nat → Prop where
  | plain (c : Char) (short : width.Short c) : Single width (.plain c) c.toNat
  | simple (letter : Char) (unit : Nat) : Single width (.simple letter unit) unit
  | named (item : Item) (value : Nat) (names : item.Names value)
      (fits : value ≤ width.greatest) : Single width item value
  | universal (digits : List Char) (values : List Nat) (c : Char)
      (spelled : Base.hex.Spells digits values) (scalar : c.toNat = Base.hex.exactValue values)
      (short : width.Short c) : Single width (.universal digits) c.toNat

/-- The item is all of the body. -/
structure IsBody (item : Item) (body : List Char) : Prop where
  written : body = item.text
  precedes : item.Precedes []

variable {width : UnitWidth} {item : Item} {rest body : List Char} {units : List Nat}
variable {unit : Nat} {c : Char}

theorem narrow_length (encodes : UnitWidth.narrow.Encodes c units) : units.length = c.utf8Size := by
  cases encodes
  rw [List.length_map, String.length_utf8EncodeChar]

theorem encodes_single : width.Encodes c [unit] ↔ width.Short c ∧ unit = c.toNat := by
  constructor
  · intro encodes
    cases width with
    | narrow =>
        have ascii := (Utf8.size_ascii c).mp (narrow_length encodes).symm
        exact ⟨ascii, List.singleton_inj.mp ((encodes_ascii ascii).mp encodes)⟩
    | wide =>
        cases encodes
        exact ⟨trivial, rfl⟩
  · rintro ⟨short, rfl⟩
    cases width with
    | narrow => exact (encodes_ascii short).mpr rfl
    | wide => exact .wide c

theorem single_iff (precedes : item.Precedes rest) :
    item.Single width unit ↔ item.Gives width [unit] := by
  constructor
  · intro single
    cases single with
    | plain c short => exact .plain c _ (encodes_single.mpr ⟨short, rfl⟩)
    | simple letter unit => exact .simple letter unit
    | named _ _ names fits => exact (gives_iff precedes).mpr (.inl ⟨unit, names, fits, rfl⟩)
    | universal digits values c spelled scalar short =>
        exact .universal digits values c _ spelled scalar (encodes_single.mpr ⟨short, rfl⟩)
  · intro gives
    rcases (gives_iff precedes).mp gives with ⟨value, names, fits, same⟩ | ⟨c, denotes, encodes⟩
    · obtain rfl := List.singleton_inj.mp same
      exact .named item unit names fits
    · obtain ⟨short, rfl⟩ := encodes_single.mp encodes
      cases denotes with
      | plain => exact .plain c short
      | simple letter => exact .simple letter c.toNat
      | universal digits values _ spelled scalar =>
          exact .universal digits values c spelled scalar short

theorem gives_ne_nil (precedes : item.Precedes rest) (gives : item.Gives width units) :
    units ≠ [] := by
  rcases (gives_iff precedes).mp gives with ⟨value, _, _, rfl⟩ | ⟨c, _, encodes⟩
  · exact List.cons_ne_nil value []
  · rintro rfl
    cases width with
    | narrow => exact Nat.ne_of_lt c.utf8Size_pos (narrow_length encodes)
    | wide => cases encodes

theorem single_le (precedes : item.Precedes rest) (single : item.Single width unit) :
    unit ≤ width.greatest := by
  have short_le : ∀ c : Char, width.Short c → c.toNat ≤ width.greatest := by
    intro c short
    cases width with
    | narrow => exact Nat.le_trans (Nat.le_of_lt short) (by decide)
    | wide => exact Nat.le_of_lt_succ c.val.toNat_lt
  cases single with
  | plain c short => exact short_le c short
  | simple letter unit =>
      cases precedes with
      | simple _ _ _ listed =>
          obtain ⟨_, _, ascii⟩ := simple_ascii listed
          exact Nat.le_trans (Nat.le_of_lt ascii) (by cases width <;> decide)
  | named _ _ _ fits => exact fits
  | universal _ _ c _ _ short => exact short_le c short

theorem IsBody.decodes (isBody : item.IsBody body) (gives : item.Gives width units) :
    decodeUnits width body = .ok units := by
  have splits : Splits body [item] [] := by
    rw [isBody.written, ← List.append_nil item.text]
    exact .item item [] [] [] isBody.precedes (.here [])
  simpa using decodeUnits_whole splits (.cons gives .nil)

theorem isBody_of_splits {items : List Item} {parts : List (List Nat)}
    (splits : Splits body items []) (given : List.Forall₂ (Gives width) items parts)
    (one : parts.flatten = [unit]) : ∃ item, IsBody item body ∧ item.Single width unit := by
  -- Every item gives some unit, so one unit is what one item gives.
  cases splits with
  | here =>
      cases given
      cases one
  | item item later items _ precedes splits =>
      cases given with
      | @cons _ units _ parts gives others =>
          have own := gives_ne_nil precedes gives
          rw [List.flatten_cons, List.append_eq_singleton_iff] at one
          obtain ⟨none, _⟩ | ⟨rfl, rest⟩ := one
          · exact absurd none own
          · cases splits with
            | here =>
                refine ⟨item, ⟨List.append_nil _, precedes⟩, (single_iff precedes).mpr gives⟩
            | item next _ _ _ follows _ =>
                cases others with
                | cons second _ =>
                    rw [List.flatten_cons, List.append_eq_nil_iff] at rest
                    exact absurd rest.1 (gives_ne_nil follows second)

theorem decoded_single : decodeUnits width body = .ok [unit] ↔
    ∃ item, IsBody item body ∧ item.Single width unit := by
  constructor
  · intro decoded
    rcases decodeUnits_cases width body with ⟨items, parts, splits, given, same⟩ |
      ⟨_, _, _, _, _, _, _, refused⟩
    · exact isBody_of_splits splits given (Except.ok.inj (same.symm.trans decoded))
    · cases decoded.symm.trans refused
  · rintro ⟨item, isBody, single⟩
    exact isBody.decodes ((single_iff isBody.precedes).mp single)

end Item

namespace QuotedLiteral

variable {width : UnitWidth} {body : List Char} {units : List Nat} {unit : Nat}

theorem unit_kept (fits : unit ≤ width.greatest) :
    (IntegerConstant.ofInt width.unitType unit).value = unit := by
  apply IntegerConstant.value_ofInt
  · cases width <;> decide
  · cases width <;> decide
  · have range : (weight 2 width.bits : Int) - 1 = width.greatest := by cases width <;> rfl
    rw [IntType.contains_iff, IntType.least, IntType.greatest]
    simp only [UnitWidth.unitType, Bool.false_eq_true, ↓reduceIte, range]
    omega

theorem character_single (decoded : decodeUnits width body = .ok [unit]) :
    character ⟨width, body⟩ = .ok (IntegerConstant.ofInt width.unitType unit) := by
  simp only [character, decoded]

theorem character_several (decoded : decodeUnits width body = .ok units)
    (several : 2 ≤ units.length) :
    character ⟨width, body⟩ = .error (.multiCharacter units.length) := by
  match units with
  | first :: second :: rest => simp only [character, decoded]

theorem decoded_of_accepted {constant : IntegerConstant}
    (accepted : character ⟨width, body⟩ = .ok constant) :
    ∃ unit, decodeUnits width body = .ok [unit] := by
  cases decoded : decodeUnits width body with
  | error fault => simp [character, decoded] at accepted
  | ok units =>
      match units with
      | [] => simp [character, decoded] at accepted
      | [unit] => exact ⟨unit, rfl⟩
      | first :: second :: rest => simp [character, decoded] at accepted

theorem character_bytes {item : Item} {c : Char} (isBody : item.IsBody body)
    (denotes : item.Denotes c) (large : 0x80 ≤ c.toNat) :
    character ⟨.narrow, body⟩ = .error (.multiCharacter (String.utf8EncodeChar c).length) := by
  have encodes := UnitWidth.Encodes.narrow c
  have gives := (Item.gives_iff isBody.precedes).mpr (.inr ⟨c, denotes, encodes⟩)
  have length := Item.narrow_length encodes
  have long : 2 ≤ c.utf8Size := by
    have positive := c.utf8Size_pos
    have different := mt (Utf8.size_ascii c).mp (Nat.not_lt_of_le large)
    omega
  rw [String.length_utf8EncodeChar, ← length]
  exact character_several (isBody.decodes gives) (length ▸ long)

theorem character_counted (decoded : decodeUnits width body = .ok units)
    (notOne : ∀ unit, units ≠ [unit]) :
    (units = [] ∧ character ⟨width, body⟩ = .error .emptyCharacter) ∨
      (2 ≤ units.length ∧ character ⟨width, body⟩ = .error (.multiCharacter units.length)) := by
  match units with
  | [] => exact .inl ⟨rfl, by simp only [character, decoded]⟩
  | [unit] => exact absurd rfl (notOne unit)
  | first :: second :: rest =>
      have several : 2 ≤ (first :: second :: rest).length := by simp
      exact .inr ⟨several, character_several decoded several⟩

/-- A character literal is accepted exactly where its body is one item that is one unit,
and its constant is that unit. A narrow character of several bytes is refused with their
number, and so is any other body with the number of its units. -/
theorem character_iff_single (width : UnitWidth) (body : List Char) :
    let literal : QuotedLiteral := ⟨width, body⟩
    (∀ item unit, Item.IsBody item body → item.Single width unit →
      decodeUnits width body = .ok [unit] ∧ ∃ constant, literal.character = .ok constant ∧
        constant.type = ⟨width.bits, false⟩ ∧ constant.value = unit) ∧
    (∀ constant, literal.character = .ok constant →
      ∃ item unit, Item.IsBody item body ∧ item.Single width unit) ∧
    (∀ item c, width = .narrow → Item.IsBody item body → item.Denotes c → 0x80 ≤ c.toNat →
      literal.character = .error (.multiCharacter (String.utf8EncodeChar c).length)) ∧
    (∀ units, decodeUnits width body = .ok units →
      (∀ item unit, Item.IsBody item body → ¬ item.Single width unit) →
      (units = [] ∧ literal.character = .error .emptyCharacter) ∨
        (2 ≤ units.length ∧ literal.character = .error (.multiCharacter units.length))) ∧
    ∀ fault, decodeUnits width body = .error fault → literal.character = .error fault := by
  intro literal
  refine ⟨?_, ?_, ?_, ?_, ?_⟩
  · intro item unit isBody single
    have decoded := Item.decoded_single.mpr ⟨item, isBody, single⟩
    exact ⟨decoded, _, character_single decoded, rfl,
      unit_kept (Item.single_le isBody.precedes single)⟩
  · intro constant accepted
    obtain ⟨unit, decoded⟩ := decoded_of_accepted accepted
    obtain ⟨item, isBody, single⟩ := Item.decoded_single.mp decoded
    exact ⟨item, unit, isBody, single⟩
  · rintro item c rfl isBody denotes large
    exact character_bytes isBody denotes large
  · intro units decoded foreign
    apply character_counted decoded
    rintro unit rfl
    obtain ⟨item, isBody, single⟩ := Item.decoded_single.mp decoded
    exact foreign item unit isBody single
  · intro fault refused
    simp only [literal, character, refused]

/-- A hexadecimal escape may begin with any number of zeros, a character beyond ASCII is
several narrow units, and a plain character behind an escape is one unit too many. -/
theorem character_iff_single_zeros :
    (∃ constant, character ⟨.narrow, ['\\', 'x', '0', '0', '0', '0', '4', '1']⟩ = .ok constant ∧
      constant.type = ⟨8, false⟩ ∧ constant.value = 0x41) ∧
    character ⟨.narrow, ['é']⟩ = .error (.multiCharacter (String.utf8EncodeChar 'é').length) ∧
    character ⟨.wide, ['\\', '1', '0', '1', '2']⟩ = .error (.multiCharacter 2) := by
  refine ⟨?_, ?_, ?_⟩
  · have spelled : Base.hex.Spells ['0', '0', '0', '0', '4', '1'] [0, 0, 0, 0, 4, 1] := by
      simp [Base.Spells, Spelled, Base.radix]
    have precedes : Item.Precedes (.hex ['0', '0', '0', '0', '4', '1']) [] :=
      .hex _ [] (by decide) (Base.digits_of_spells _ _ _ spelled) (by simp)
    exact ((character_iff_single .narrow _).1 _ _ ⟨rfl, precedes⟩
      (.named _ _ (.hex _ _ spelled) (by decide))).2
  · exact (character_iff_single .narrow ['é']).2.2.1 (.plain 'é') 'é' rfl
      ⟨rfl, .plain 'é' [] (by decide)⟩ (.plain 'é') (by decide)
  · have decoded : decodeUnits .wide ['\\', '1', '0', '1', '2'] = .ok [0x41, 0x32] := by
      decide +kernel
    have foreign : ∀ item unit, Item.IsBody item ['\\', '1', '0', '1', '2'] →
        ¬ item.Single .wide unit := by
      intro item unit isBody single
      have one := Item.decoded_single.mpr ⟨item, isBody, single⟩
      rw [decoded] at one
      cases one
    rcases (character_iff_single .wide _).2.2.2.1 _ decoded foreign with ⟨none, _⟩ | ⟨_, refused⟩
    · cases none
    · exact refused

end QuotedLiteral

end TypedLiteral

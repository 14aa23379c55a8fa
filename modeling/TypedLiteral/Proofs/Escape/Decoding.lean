import TypedLiteral.Escape.Units
import TypedLiteral.Proofs.Escape.Grammar

/-!
The units of a body. An item that is admissible gives its units, and one that is not
gives the fault found there; the value of an escape is exact, however many digits it
has, although digits are read only up to the one that takes it past 32 bits. Decoding
succeeds exactly where a body splits into admissible items, and otherwise reports the
first item from the left that is malformed or not admissible.
-/
namespace TypedLiteral

/-- The units of a character: its UTF-8 bytes, or its code point. -/
inductive UnitWidth.Encodes : UnitWidth → Char → List Nat → Prop where
  | narrow (c : Char) : Encodes .narrow c ((String.utf8EncodeChar c).map UInt8.toNat)
  | wide (c : Char) : Encodes .wide c [c.toNat]

def UnitWidth.greatest : UnitWidth → Nat
  | .narrow => 0xff
  | .wide => 0xffffffff

namespace Base

def exactValue (base : Base) (values : List Nat) : Nat := Nat.ofDigits base.radix values.reverse

/-- The value of the digits up to the first one that takes it past 32 bits, or of all. -/
inductive ReadValue (base : Base) (values : List Nat) : Nat → Prop where
  | upTo (count : Nat) (bounded : count ≤ values.length)
      (small : ∀ fewer < count, base.exactValue (values.take fewer) ≤ 0xffffffff)
      (stops : count = values.length ∨ 0xffffffff < base.exactValue (values.take count)) :
      ReadValue base values (base.exactValue (values.take count))

end Base

namespace Item

/-- An admissible item and its units. -/
inductive Gives (width : UnitWidth) : Item → List Nat → Prop where
  | plain (c : Char) (units : List Nat) (encodes : width.Encodes c units) :
      Gives width (.plain c) units
  | simple (letter : Char) (unit : Nat) : Gives width (.simple letter unit) [unit]
  | octal (digits : List Char) (values : List Nat) (spelled : Base.octal.Spells digits values)
      (fits : Base.octal.exactValue values ≤ width.greatest) :
      Gives width (.octal digits) [Base.octal.exactValue values]
  | hex (digits : List Char) (values : List Nat) (spelled : Base.hex.Spells digits values)
      (fits : Base.hex.exactValue values ≤ width.greatest) :
      Gives width (.hex digits) [Base.hex.exactValue values]
  | universal (digits : List Char) (values : List Nat) (c : Char) (units : List Nat)
      (spelled : Base.hex.Spells digits values) (scalar : c.toNat = Base.hex.exactValue values)
      (encodes : width.Encodes c units) : Gives width (.universal digits) units

/-- An item that is not admissible, and its fault. -/
inductive Inadmissible (width : UnitWidth) : Item → EscapeError → Prop where
  | octal (digits : List Char) (values : List Nat) (spelled : Base.octal.Spells digits values)
      (large : width.greatest < Base.octal.exactValue values) :
      Inadmissible width (.octal digits) (.outOfRange (Base.octal.exactValue values) width.bits)
  | hex (digits : List Char) (values : List Nat) (shown : Nat)
      (spelled : Base.hex.Spells digits values)
      (large : width.greatest < Base.hex.exactValue values)
      (read : Base.hex.ReadValue values shown) :
      Inadmissible width (.hex digits) (.outOfRange shown width.bits)
  | universal (digits : List Char) (values : List Nat) (spelled : Base.hex.Spells digits values)
      (noScalar : ∀ c : Char, c.toNat ≠ Base.hex.exactValue values) :
      Inadmissible width (.universal digits) (.invalidCodePoint (Base.hex.exactValue values))

/-- A text that begins with a bad item. -/
inductive Bad (width : UnitWidth) : List Char → EscapeError → Prop where
  | malformed (text : List Char) (fault : EscapeError) (malformed : Malformed text fault) :
      Bad width text fault
  | inadmissible (item : Item) (rest : List Char) (fault : EscapeError)
      (precedes : item.Precedes rest) (inadmissible : item.Inadmissible width fault) :
      Bad width (item.text ++ rest) fault

end Item

section Value

variable {base : Base} {digits : List Char} {values : List Nat}

theorem Base.le_foldl (base : Base) (values : List Nat) (total : Nat) :
    total ≤ values.foldl (fun sum value => sum * base.radix + value) total := by
  induction values generalizing total with
  | nil => exact Nat.le_refl total
  | cons value values ih =>
      have positive : 1 ≤ base.radix := by cases base <;> decide
      calc total
          ≤ total * base.radix := Nat.le_mul_of_pos_right total positive
        _ ≤ total * base.radix + value := Nat.le_add_right _ _
        _ ≤ _ := ih _

theorem Base.exactValue_take_le (base : Base) (values : List Nat) (count : Nat) :
    base.exactValue (values.take count) ≤ base.exactValue values := by
  simp only [exactValue, ← base.positional_ofDigits]
  conv => rhs; rw [← List.take_append_drop count values]
  rw [positional, positional, List.foldl_append]
  exact base.le_foldl _ _

theorem Item.cappedValue_from (spelled : base.Spells digits values) (total : Nat)
    (small : total < weight 2 32) :
    ∃ count ≤ values.length,
      cappedValue base.radix total digits =
        (values.take count).foldl (fun sum value => sum * base.radix + value) total ∧
      (∀ fewer < count, (values.take fewer).foldl (fun sum value => sum * base.radix + value) total
        < weight 2 32) ∧
      (count = values.length ∨ ¬ cappedValue base.radix total digits < weight 2 32) := by
  induction spelled generalizing total with
  | nil => exact ⟨0, Nat.le_refl 0, rfl, by simp, .inl rfl⟩
  | @cons c value digits values mark _ ih =>
      have known := ((base.mark_iff c value).mp mark).1
      simp only [cappedValue, known, Option.getD_some]
      by_cases below : total * base.radix + value < weight 2 32
      · obtain ⟨count, bounded, same, fewer, stops⟩ := ih _ below
        refine ⟨count + 1, Nat.succ_le_succ bounded, ?_, ?_, ?_⟩
        · simpa [below] using same
        · intro less isLess
          cases less with
          | zero => exact small
          | succ less => exact fewer less (Nat.lt_of_succ_lt_succ isLess)
        · simpa [below] using stops
      · refine ⟨1, Nat.succ_le_succ (Nat.zero_le _), ?_, ?_, ?_⟩
        · simp [below]
        · intro less isLess
          obtain rfl := Nat.lt_one_iff.mp isLess
          exact small
        · exact .inr (by simp [below])

theorem Item.cappedValue_read (spelled : base.Spells digits values) :
    base.ReadValue values (cappedValue base.radix 0 digits) := by
  obtain ⟨count, bounded, same, fewer, stops⟩ := cappedValue_from spelled 0 (bit_pos 32)
  have limit : weight 2 32 = 0xffffffff + 1 := by decide
  have value : ∀ count, base.exactValue (values.take count) =
      (values.take count).foldl (fun sum value => sum * base.radix + value) 0 := by
    intro count
    rw [Base.exactValue, ← base.positional_ofDigits, Base.positional]
  rw [same, ← value]
  rw [same, ← value] at stops
  apply Base.ReadValue.upTo count bounded
  · intro less isLess
    have below := fewer less isLess
    rw [← value] at below
    omega
  · omega

theorem Base.ReadValue.unique {shown other : Nat} (read : base.ReadValue values shown)
    (again : base.ReadValue values other) : shown = other := by
  cases read with
  | upTo count bounded small stops =>
      cases again with
      | upTo further furtherBounded furtherSmall furtherStops =>
          -- The shorter part is past 32 bits already, or it is all of the digits.
          rcases Nat.lt_trichotomy count further with less | same | more
          · have below := furtherSmall count less
            omega
          · rw [same]
          · have below := small further more
            omega

theorem Base.readValue_exact (base : Base) (small : base.exactValue values ≤ 0xffffffff) :
    base.ReadValue values (base.exactValue values) := by
  have whole : base.ReadValue values (base.exactValue (values.take values.length)) := by
    apply Base.ReadValue.upTo values.length (Nat.le_refl _)
    · exact fun fewer _ => Nat.le_trans (base.exactValue_take_le values fewer) small
    · exact .inl rfl
  rwa [List.take_length] at whole

theorem Base.ReadValue.large {shown : Nat} {width : UnitWidth} (read : base.ReadValue values shown)
    (large : width.greatest < base.exactValue values) : width.greatest < shown := by
  cases read with
  | upTo count _ _ stops =>
      rcases stops with rfl | past
      · rwa [List.take_length]
      · have widest : width.greatest ≤ 0xffffffff := by cases width <;> decide
        exact Nat.lt_of_le_of_lt widest past

theorem Base.exactValue_lt (spelled : base.Spells digits values) :
    base.exactValue values < base.radix ^ digits.length := by
  have several : 1 < base.radix := by cases base <;> decide
  have bounded := Nat.ofDigits_lt_base_pow_length (l := values.reverse) several
    (fun value member => base.values_lt _ _ spelled value (List.mem_reverse.mp member))
  rwa [List.length_reverse, ← spelled.length_eq] at bounded

end Value

namespace Item

variable {width : UnitWidth} {item : Item} {rest : List Char} {units : List Nat}
variable {fault : EscapeError} {base : Base} {digits : List Char} {values : List Nat}

theorem fitUnit_eq (width : UnitWidth) (value : Nat) : fitUnit width value =
    if value ≤ width.greatest then .ok [value] else .error (.outOfRange value width.bits) := by
  have limit : weight 2 width.bits = width.greatest + 1 := by cases width <;> decide
  exact if_congr (by rw [limit, Nat.lt_succ_iff]) rfl rfl

theorem fitUnit_ok (spelled : base.Spells digits values)
    (fits : base.exactValue values ≤ width.greatest) :
    fitUnit width (cappedValue base.radix 0 digits) = .ok [base.exactValue values] := by
  have widest : width.greatest ≤ 0xffffffff := by cases width <;> decide
  have whole := base.readValue_exact (Nat.le_trans fits widest)
  rw [(cappedValue_read spelled).unique whole, fitUnit_eq, if_pos fits]

theorem fitUnit_error {shown : Nat} (spelled : base.Spells digits values)
    (large : width.greatest < base.exactValue values) (read : base.ReadValue values shown) :
    fitUnit width (cappedValue base.radix 0 digits) = .error (.outOfRange shown width.bits) := by
  rw [(cappedValue_read spelled).unique read, fitUnit_eq,
    if_neg (Nat.not_le_of_lt (read.large large))]

theorem units_of_encodes {c : Char} (encodes : width.Encodes c units) : width.units c = units := by
  cases encodes with
  | narrow => rfl
  | wide => rfl

theorem universalValue (spelled : Base.hex.Spells digits values)
    (count : digits.length = 4 ∨ digits.length = 8) :
    cappedValue 16 0 digits = Base.hex.exactValue values := by
  have bounded := Base.exactValue_lt spelled
  have few : Base.hex.radix ^ digits.length ≤ 0xffffffff + 1 := by
    rcases count with four | eight
    · rw [four]; decide
    · rw [eight]; decide
  exact (cappedValue_read spelled).unique (Base.hex.readValue_exact (by omega))

theorem units_of_gives (precedes : item.Precedes rest) (gives : item.Gives width units) :
    item.units width = .ok units := by
  cases gives with
  | plain c units encodes => rw [Item.units, units_of_encodes encodes]
  | simple letter unit => rfl
  | octal digits values spelled fits => exact fitUnit_ok spelled fits
  | hex digits values spelled fits => exact fitUnit_ok spelled fits
  | universal digits values c units spelled scalar encodes =>
      cases precedes with
      | universal digits rest all count =>
          have valid : c.toNat.isValidChar := c.valid
          simp only [Item.units, universalValue spelled count, ← scalar, if_pos valid,
            Char.ofNat_toNat, units_of_encodes encodes]

theorem units_of_inadmissible (precedes : item.Precedes rest)
    (inadmissible : item.Inadmissible width fault) : item.units width = .error fault := by
  cases inadmissible with
  | octal digits values spelled large =>
      cases precedes with
      | octal first more rest all few ends =>
          apply fitUnit_error spelled large
          apply Base.readValue_exact
          have bounded := Base.exactValue_lt spelled
          have few : Base.octal.radix ^ (first :: more).length ≤ 8 ^ 3 :=
            Nat.pow_le_pow_right (by decide) (Nat.succ_le_succ few)
          omega
  | hex digits values shown spelled large read => exact fitUnit_error spelled large read
  | universal digits values spelled noScalar =>
      cases precedes with
      | universal digits rest all count =>
          have invalid : ¬ (Base.hex.exactValue values).isValidChar := by
            intro valid
            apply noScalar (Char.ofNat (Base.hex.exactValue values))
            rw [Char.ofNat, dif_pos valid]
            rfl
          simp only [Item.units, universalValue spelled count, if_neg invalid]

theorem gives_or_inadmissible (width : UnitWidth) (precedes : item.Precedes rest) :
    (∃ units, item.Gives width units) ∨ ∃ fault, item.Inadmissible width fault := by
  cases precedes with
  | plain c rest bare =>
      cases width with
      | narrow => exact .inl ⟨_, .plain c _ (.narrow c)⟩
      | wide => exact .inl ⟨_, .plain c _ (.wide c)⟩
  | simple letter unit rest listed => exact .inl ⟨_, .simple letter unit⟩
  | octal first more rest all few ends =>
      obtain ⟨values, spelled⟩ := Base.octal.spells_of_digits _ all
      rcases Nat.lt_or_ge width.greatest (Base.octal.exactValue values) with large | fits
      · exact .inr ⟨_, .octal _ values spelled large⟩
      · exact .inl ⟨_, .octal _ values spelled fits⟩
  | hex digits rest nonempty all ends =>
      obtain ⟨values, spelled⟩ := Base.hex.spells_of_digits _ all
      rcases Nat.lt_or_ge width.greatest (Base.hex.exactValue values) with large | fits
      · exact .inr ⟨_, .hex _ values _ spelled large (cappedValue_read spelled)⟩
      · exact .inl ⟨_, .hex _ values spelled fits⟩
  | universal digits rest all count =>
      obtain ⟨values, spelled⟩ := Base.hex.spells_of_digits _ all
      by_cases scalar : ∃ c : Char, c.toNat = Base.hex.exactValue values
      · obtain ⟨c, scalar⟩ := scalar
        cases width with
        | narrow => exact .inl ⟨_, .universal _ values c _ spelled scalar (.narrow c)⟩
        | wide => exact .inl ⟨_, .universal _ values c _ spelled scalar (.wide c)⟩
      · exact .inr ⟨_, .universal _ values spelled (not_exists.mp scalar)⟩

end Item

section Decoding

variable {width : UnitWidth} {body later rest : List Char} {item : Item} {items : List Item}
variable {fault : EscapeError} {units : List Nat} {parts : List (List Nat)}

theorem decodeUnits_item (precedes : item.Precedes later) (gives : item.Gives width units) :
    decodeUnits width (item.text ++ later) = (decodeUnits width later).map (units ++ ·) := by
  obtain ⟨first, more, same, read⟩ := Item.read_of_precedes precedes
  rw [same, decodeUnits]
  split
  · next failed => cases read.symm.trans failed
  · next found =>
      cases read.symm.trans found
      rw [Item.units_of_gives precedes gives]

theorem decodeUnits_bad (bad : Item.Bad width body fault) :
    decodeUnits width body = .error fault := by
  cases bad with
  | malformed text fault malformed =>
      obtain ⟨first, more, rfl, read⟩ := Item.read_of_malformed malformed
      rw [decodeUnits]
      split
      · next failed =>
          cases read.symm.trans failed
          rfl
      · next found => cases read.symm.trans found
  | inadmissible item rest fault precedes inadmissible =>
      obtain ⟨first, more, same, read⟩ := Item.read_of_precedes precedes
      rw [same, decodeUnits]
      split
      · next failed => cases read.symm.trans failed
      · next found =>
          cases read.symm.trans found
          rw [Item.units_of_inadmissible precedes inadmissible]

theorem decodeUnits_splits (splits : Item.Splits body items rest)
    (given : List.Forall₂ (Item.Gives width) items parts) :
    decodeUnits width body = (decodeUnits width rest).map (parts.flatten ++ ·) := by
  induction splits generalizing parts with
  | here rest =>
      cases given
      cases decodeUnits width rest <;> rfl
  | item item later items rest precedes _ ih =>
      cases given with
      | @cons _ units _ parts gives others =>
          rw [decodeUnits_item precedes gives, ih others]
          cases decodeUnits width rest with
          | error fault => rfl
          | ok units => simp [Except.map]

theorem exists_splits (width : UnitWidth) (body : List Char) : ∃ items parts rest,
    Item.Splits body items rest ∧ List.Forall₂ (Item.Gives width) items parts ∧
      (rest = [] ∨ ∃ fault, Item.Bad width rest fault) := by
  induction size : body.length using Nat.strongRecOn generalizing body with
  | ind size ih =>
      cases body with
      | nil => exact ⟨[], [], [], .here [], .nil, .inl rfl⟩
      | cons first more =>
          rcases Item.exists_item first more with ⟨item, later, same, precedes⟩ | ⟨fault, malformed⟩
          · rcases Item.gives_or_inadmissible width precedes with ⟨units, gives⟩ | ⟨fault, refused⟩
            · have shorter : later.length < (first :: more).length := by
                rw [same, List.length_append]
                exact Nat.lt_add_of_pos_left item.text_pos
              obtain ⟨items, parts, rest, splits, given, ends⟩ := ih _ (size ▸ shorter) later rfl
              exact ⟨item :: items, units :: parts, rest,
                same ▸ .item item later items rest precedes splits, .cons gives given, ends⟩
            · exact ⟨[], [], _, .here _, .nil,
                .inr ⟨fault, same ▸ .inadmissible item later fault precedes refused⟩⟩
          · exact ⟨[], [], _, .here _, .nil, .inr ⟨fault, .malformed _ fault malformed⟩⟩

theorem decodeUnits_end (width : UnitWidth) : decodeUnits width [] = .ok [] := by
  rw [decodeUnits]

theorem decodeUnits_whole (splits : Item.Splits body items [])
    (given : List.Forall₂ (Item.Gives width) items parts) :
    decodeUnits width body = .ok parts.flatten := by
  rw [decodeUnits_splits splits given, decodeUnits_end]
  simp [Except.map]

/-- Decoding reads admissible items up to the end of the body, or up to a bad item. -/
theorem decodeUnits_cases (width : UnitWidth) (body : List Char) :
    (∃ items parts, Item.Splits body items [] ∧ List.Forall₂ (Item.Gives width) items parts ∧
      decodeUnits width body = .ok parts.flatten) ∨
    ∃ items parts rest fault, Item.Splits body items rest ∧
      List.Forall₂ (Item.Gives width) items parts ∧ Item.Bad width rest fault ∧
      decodeUnits width body = .error fault := by
  obtain ⟨items, parts, rest, splits, given, rfl | ⟨fault, bad⟩⟩ := exists_splits width body
  · exact .inl ⟨items, parts, splits, given, decodeUnits_whole splits given⟩
  · refine .inr ⟨items, parts, rest, fault, splits, given, bad, ?_⟩
    rw [decodeUnits_splits splits given, decodeUnits_bad bad]
    rfl

end Decoding

/-- Decoding succeeds exactly where the whole body splits into admissible items, and
gives their units one behind the other. Otherwise the fault is that of the first bad
item from the left. There is one way only to split a body. -/
theorem decodeUnits_grammar (width : UnitWidth) (body : List Char) :
    (∀ units, decodeUnits width body = .ok units ↔
      ∃ items parts, Item.Splits body items [] ∧ List.Forall₂ (Item.Gives width) items parts ∧
        units = parts.flatten) ∧
    (∀ fault, decodeUnits width body = .error fault ↔
      ∃ items parts rest, Item.Splits body items rest ∧
        List.Forall₂ (Item.Gives width) items parts ∧ Item.Bad width rest fault) ∧
    ∀ items others, Item.Splits body items [] → Item.Splits body others [] → items = others := by
  have good : ∀ items parts, Item.Splits body items [] →
      List.Forall₂ (Item.Gives width) items parts → decodeUnits width body = .ok parts.flatten := by
    intro items parts splits given
    rw [decodeUnits_splits splits given, decodeUnits_end]
    simp [Except.map]
  have failed : ∀ items parts rest fault, Item.Splits body items rest →
      List.Forall₂ (Item.Gives width) items parts → Item.Bad width rest fault →
      decodeUnits width body = .error fault := by
    intro items parts rest fault splits given bad
    rw [decodeUnits_splits splits given, decodeUnits_bad bad]
    rfl
  obtain ⟨items, parts, rest, splits, given, ends⟩ := exists_splits width body
  refine ⟨?_, ?_, fun _ _ => Item.Splits.unique⟩
  · intro units
    constructor
    · intro done
      rcases ends with rfl | ⟨fault, bad⟩
      · exact ⟨items, parts, splits, given, Except.ok.inj (done.symm.trans (good _ _ splits given))⟩
      · cases done.symm.trans (failed _ _ _ _ splits given bad)
    · rintro ⟨items, parts, splits, given, rfl⟩
      exact good items parts splits given
  · intro fault
    constructor
    · intro refused
      rcases ends with rfl | ⟨other, bad⟩
      · cases refused.symm.trans (good _ _ splits given)
      · obtain rfl := Except.error.inj (refused.symm.trans (failed _ _ _ _ splits given bad))
        exact ⟨items, parts, rest, splits, given, bad⟩
    · rintro ⟨items, parts, rest, splits, given, bad⟩
      exact failed items parts rest fault splits given bad

/-- An octal escape takes three digits, so a fourth one is a plain character. -/
theorem decodeUnits_fourth_digit :
    let items : List Item := [.octal ['1', '0', '1'], .plain '2']
    Item.Splits ['\\', '1', '0', '1', '2'] items [] ∧
      decodeUnits .narrow ['\\', '1', '0', '1', '2'] = .ok [0x41, 0x32] ∧
      ∀ others, Item.Splits ['\\', '1', '0', '1', '2'] others [] → others = items := by
  intro items
  have spelled : Base.octal.Spells ['1', '0', '1'] [1, 0, 1] := by
    simp [Base.Spells, Spelled, Base.radix]
  have splits : Item.Splits ['\\', '1', '0', '1', '2'] items [] := by
    apply Item.Splits.item (.octal ['1', '0', '1']) ['2']
    · exact .octal '1' ['0', '1'] ['2'] (Base.digits_of_spells _ _ _ spelled) (by decide) (.inl rfl)
    · exact .item (.plain '2') [] [] [] (.plain '2' [] (by decide)) (.here [])
  obtain ⟨decodes, _, unique⟩ := decodeUnits_grammar .narrow ['\\', '1', '0', '1', '2']
  refine ⟨splits, (decodes _).mpr ⟨items, [[0x41], [0x32]], splits, ?_, rfl⟩, ?_⟩
  · exact .cons (.octal _ _ spelled (by decide)) (.cons (.plain '2' _ (.narrow '2')) .nil)
  · exact fun others again => unique others items again splits

end TypedLiteral

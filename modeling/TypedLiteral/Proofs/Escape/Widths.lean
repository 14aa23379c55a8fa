import TypedLiteral.Proofs.Escape.Decoding

/-!
One body in both widths. An item either names a unit by its value or denotes a
character. The first kind is the same unit in both widths, only the narrow ones are
smaller; the second kind is a code point in wide units and its UTF-8 bytes in narrow
ones. So the two decodings take the same items and stay in step until a named value
is too large for a narrow unit.
-/
namespace TypedLiteral

namespace Utf8

theorem size_ascii (c : Char) : c.utf8Size = 1 ↔ c.toNat < 0x80 := by
  rw [Char.utf8Size_eq_one_iff]
  exact Nat.lt_succ_iff.symm

theorem bytes_ascii {c : Char} (ascii : c.toNat < 0x80) :
    (String.utf8EncodeChar c).map UInt8.toNat = [c.toNat] := by
  rw [String.utf8EncodeChar_eq_singleton ((size_ascii c).mpr ascii), List.map_singleton]
  have small : c.toNat < 2 ^ 8 := Nat.lt_trans ascii (by decide)
  exact congrArg (fun byte => [byte]) (Nat.mod_eq_of_lt small)

end Utf8

namespace Item

/-- An octal or hexadecimal escape names its value. -/
inductive Names : Item → Nat → Prop where
  | octal (digits : List Char) (values : List Nat) (spelled : Base.octal.Spells digits values) :
      Names (.octal digits) (Base.octal.exactValue values)
  | hex (digits : List Char) (values : List Nat) (spelled : Base.hex.Spells digits values) :
      Names (.hex digits) (Base.hex.exactValue values)

inductive Denotes : Item → Char → Prop where
  | plain (c : Char) : Denotes (.plain c) c
  | simple (letter c : Char) (listed : (letter, c.toNat) ∈ simpleEscapes) :
      Denotes (.simple letter c.toNat) c
  | universal (digits : List Char) (values : List Nat) (c : Char)
      (spelled : Base.hex.Spells digits values) (scalar : c.toNat = Base.hex.exactValue values) :
      Denotes (.universal digits) c

variable {width : UnitWidth} {item : Item} {rest : List Char} {units : List Nat} {value : Nat}
variable {fault : EscapeError} {c : Char}

theorem simple_ascii {letter : Char} {unit : Nat} (listed : (letter, unit) ∈ simpleEscapes) :
    ∃ c : Char, c.toNat = unit ∧ unit < 0x80 := by
  have all : ∀ escape ∈ simpleEscapes,
      (Char.ofNat escape.2).toNat = escape.2 ∧ escape.2 < 0x80 := by
    decide
  exact ⟨_, all _ listed⟩

theorem encodes_ascii (ascii : c.toNat < 0x80) : width.Encodes c units ↔ units = [c.toNat] := by
  constructor
  · rintro ⟨⟩
    · exact Utf8.bytes_ascii ascii
    · rfl
  · rintro rfl
    cases width with
    | narrow => exact Utf8.bytes_ascii ascii ▸ .narrow c
    | wide => exact .wide c

theorem gives_iff (precedes : item.Precedes rest) : item.Gives width units ↔
    (∃ value, item.Names value ∧ value ≤ width.greatest ∧ units = [value]) ∨
      ∃ c, item.Denotes c ∧ width.Encodes c units := by
  constructor
  · intro gives
    cases gives with
    | plain c units encodes => exact .inr ⟨c, .plain c, encodes⟩
    | simple letter unit =>
        cases precedes with
        | simple _ _ _ listed =>
            obtain ⟨c, rfl, ascii⟩ := simple_ascii listed
            exact .inr ⟨c, .simple letter c listed, (encodes_ascii ascii).mpr rfl⟩
    | octal digits values spelled fits => exact .inl ⟨_, .octal digits values spelled, fits, rfl⟩
    | hex digits values spelled fits => exact .inl ⟨_, .hex digits values spelled, fits, rfl⟩
    | universal digits values c units spelled scalar encodes =>
        exact .inr ⟨c, .universal digits values c spelled scalar, encodes⟩
  · rintro (⟨value, names, fits, rfl⟩ | ⟨c, denotes, encodes⟩)
    · cases names with
      | octal digits values spelled => exact .octal digits values spelled fits
      | hex digits values spelled => exact .hex digits values spelled fits
    · cases denotes with
      | plain => exact .plain c units encodes
      | simple letter _ listed =>
          obtain ⟨_, _, ascii⟩ := simple_ascii listed
          rw [(encodes_ascii ascii).mp encodes]
          exact .simple letter c.toNat
      | universal digits values _ spelled scalar =>
          exact .universal digits values c units spelled scalar encodes

theorem inadmissible_cases (inadmissible : item.Inadmissible width fault) :
    (∃ value shown, item.Names value ∧ width.greatest < value ∧
        fault = .outOfRange shown width.bits) ∨
      ∀ other : UnitWidth, item.Inadmissible other fault := by
  cases inadmissible with
  | octal digits values spelled large =>
      exact .inl ⟨_, _, .octal digits values spelled, large, rfl⟩
  | hex digits values shown spelled large read =>
      exact .inl ⟨_, shown, .hex digits values spelled, large, rfl⟩
  | universal digits values spelled noScalar =>
      exact .inr fun _ => .universal digits values spelled noScalar

def Occurs (item : Item) (body : List Char) : Prop :=
  ∃ before rest, Splits body before (item.text ++ rest) ∧ item.Precedes rest

theorem Splits.occurs {body : List Char} {items : List Item} (splits : Splits body items rest) :
    ∀ item ∈ items, item.Occurs body := by
  induction splits with
  | here => exact nofun
  | item first later items rest precedes _ ih =>
      refine List.forall_mem_cons.mpr ⟨⟨[], later, .here _, precedes⟩, ?_⟩
      intro item member
      obtain ⟨before, behind, splits, follows⟩ := ih item member
      exact ⟨first :: before, behind, .item first later before _ precedes splits, follows⟩

theorem Splits.suffix {body : List Char} {items : List Item} (splits : Splits body items rest) :
    rest <:+ body := by
  induction splits with
  | here rest => exact List.suffix_refl rest
  | item item later items rest _ _ ih => exact ih.trans (List.suffix_append _ _)

theorem Occurs.backslash {body : List Char} (occurs : item.Occurs body)
    (names : item.Names value) : '\\' ∈ body := by
  obtain ⟨before, rest, splits, _⟩ := occurs
  apply splits.suffix.subset
  cases names <;> exact List.mem_cons_self

/-- Wide and narrow units of a row of items: one wide unit for each of them, which is
kept where it is named and encoded in UTF-8 where it is a character. -/
inductive Aligned : List Item → List Nat → List Nat → Prop where
  | done : Aligned [] [] []
  | named (item : Item) (value : Nat) (items : List Item) (wide narrow : List Nat)
      (names : item.Names value) (aligned : Aligned items wide narrow) :
      Aligned (item :: items) (value :: wide) (value :: narrow)
  | denoted (item : Item) (c : Char) (items : List Item) (wide narrow : List Nat)
      (denotes : item.Denotes c) (aligned : Aligned items wide narrow) :
      Aligned (item :: items) (c.toNat :: wide)
        ((String.utf8EncodeChar c).map UInt8.toNat ++ narrow)

theorem aligned_of_given {body : List Char} {items : List Item} {parts : List (List Nat)}
    (splits : Splits body items rest) (given : List.Forall₂ (Gives .narrow) items parts) :
    ∃ wide, Aligned items wide parts.flatten ∧
      List.Forall₂ (Gives .wide) items (wide.map fun unit => [unit]) := by
  induction splits generalizing parts with
  | here =>
      cases given
      exact ⟨[], .done, .nil⟩
  | item item later items rest precedes _ ih =>
      cases given with
      | @cons _ units _ parts gives others =>
          obtain ⟨wide, aligned, wider⟩ := ih others
          rw [List.flatten_cons]
          rcases (gives_iff precedes).mp gives with ⟨value, names, fits, rfl⟩ | ⟨c, denotes, ⟨⟩⟩
          · refine ⟨value :: wide, .named item value items wide _ names aligned, .cons ?_ wider⟩
            exact (gives_iff precedes).mpr (.inl ⟨value, names, Nat.le_trans fits (by decide), rfl⟩)
          · refine ⟨c.toNat :: wide, .denoted item c items wide _ denotes aligned, .cons ?_ wider⟩
            exact (gives_iff precedes).mpr (.inr ⟨c, denotes, .wide c⟩)

theorem Aligned.chars {items : List Item} {wide narrow : List Nat}
    (aligned : Aligned items wide narrow) (unnamed : ∀ item ∈ items, ∀ value, ¬ item.Names value) :
    ∃ chars : List Char, wide = chars.map Char.toNat ∧
      narrow = (Utf8.bytes chars).map UInt8.toNat := by
  induction aligned with
  | done => exact ⟨[], rfl, rfl⟩
  | named item value items wide narrow names _ _ =>
      exact absurd names (unnamed item List.mem_cons_self value)
  | denoted item c items wide narrow _ _ ih =>
      obtain ⟨chars, rfl, rfl⟩ := ih fun item member =>
        unnamed item (List.mem_cons_of_mem _ member)
      exact ⟨c :: chars, rfl, by simp [Utf8.bytes]⟩

end Item

/-- A body is decoded to aligned units, or has the same fault in both widths, or a value
that it names is too large for a narrow unit. -/
theorem widths_cases (body : List Char) :
    (∃ items wide narrow, Item.Splits body items [] ∧ Item.Aligned items wide narrow ∧
      decodeUnits .wide body = .ok wide ∧ decodeUnits .narrow body = .ok narrow) ∨
    (∃ fault, decodeUnits .wide body = .error fault ∧ decodeUnits .narrow body = .error fault) ∨
    ∃ (item : Item) (value shown : Nat), item.Occurs body ∧ item.Names value ∧
      UnitWidth.narrow.greatest < value ∧
      decodeUnits .narrow body = .error (.outOfRange shown UnitWidth.narrow.bits) := by
  rcases decodeUnits_cases .narrow body with ⟨items, parts, splits, given, decoded⟩ |
    ⟨items, parts, rest, fault, splits, given, bad, refused⟩
  · obtain ⟨wide, aligned, wider⟩ := Item.aligned_of_given splits given
    refine .inl ⟨items, wide, _, splits, aligned, ?_, decoded⟩
    rw [decodeUnits_whole splits wider, ← List.flatMap_def, List.flatMap_singleton']
  · obtain ⟨wide, _, wider⟩ := Item.aligned_of_given splits given
    -- The wide run reaches the same item, so it fails there if the item is bad in itself.
    have alike : Item.Bad .wide rest fault →
        decodeUnits .wide body = .error fault ∧ decodeUnits .narrow body = .error fault := by
      intro badWide
      rw [decodeUnits_splits splits wider, decodeUnits_bad badWide]
      exact ⟨rfl, refused⟩
    cases bad with
    | malformed _ _ malformed => exact .inr (.inl ⟨fault, alike (.malformed _ fault malformed)⟩)
    | inadmissible item rest _ precedes inadmissible =>
        rcases Item.inadmissible_cases inadmissible with ⟨value, shown, names, large, rfl⟩ | both
        · exact .inr (.inr ⟨item, value, shown, ⟨items, rest, splits, precedes⟩, names, large,
            refused⟩)
        · exact .inr (.inl ⟨fault, alike (.inadmissible item rest fault precedes (both .wide))⟩)

/-- A body that has a fault in wide units has one in narrow units as well, and the same
one unless a value that it names is too large for a byte. Where no value is named, the
narrow units are the UTF-8 encoding of the wide ones. In any body that is decoded in both
widths, the units that are named are the same, and the others are encoded. -/
theorem decodeUnits_widths (body : List Char) :
    (∀ fault, decodeUnits .wide body = .error fault →
      ∃ other, decodeUnits .narrow body = .error other ∧ (other = fault ∨
        ∃ item value shown, Item.Occurs item body ∧ item.Names value ∧ 0xff < value ∧
          other = .outOfRange shown 8)) ∧
    ((∀ item value, Item.Occurs item body → ¬ item.Names value) →
      (∀ fault, decodeUnits .narrow body = .error fault ↔ decodeUnits .wide body = .error fault) ∧
      ∀ units, decodeUnits .wide body = .ok units → ∃ chars : List Char,
        units = chars.map Char.toNat ∧
        decodeUnits .narrow body = .ok ((Utf8.bytes chars).map UInt8.toNat)) ∧
    ∀ wide narrow, decodeUnits .wide body = .ok wide → decodeUnits .narrow body = .ok narrow →
      ∃ items, Item.Splits body items [] ∧ Item.Aligned items wide narrow := by
  rcases widths_cases body with ⟨items, wide, narrow, splits, aligned, isWide, isNarrow⟩ |
    ⟨fault, isWide, isNarrow⟩ | ⟨item, value, shown, occurs, names, large, isNarrow⟩
  · rw [isWide, isNarrow]
    refine ⟨nofun, ?_, ?_⟩
    · intro unnamed
      refine ⟨by simp, ?_⟩
      rintro _ ⟨⟩
      obtain ⟨chars, same, encoded⟩ := aligned.chars fun item member value =>
        unnamed item value (splits.occurs item member)
      exact ⟨chars, same, by rw [encoded]⟩
    · rintro _ _ ⟨⟩ ⟨⟩
      exact ⟨items, splits, aligned⟩
  · rw [isWide, isNarrow]
    refine ⟨?_, fun _ => ⟨fun _ => Iff.rfl, nofun⟩, nofun⟩
    rintro _ ⟨⟩
    exact ⟨fault, rfl, .inl rfl⟩
  · rw [isNarrow]
    refine ⟨?_, ?_, nofun⟩
    · exact fun fault _ => ⟨_, rfl, .inr ⟨item, value, shown, occurs, names, large, rfl⟩⟩
    · exact fun unnamed => absurd names (unnamed item value occurs)

/-- A named byte beside a character of two bytes is kept as it is. Without it the
character is encoded all the same, and a named value that is no byte is a fault before the
one that both widths have. -/
theorem decodeUnits_widths_named_byte :
    (∃ items, Item.Splits ['é', '\\', 'x', 'f', 'f'] items [] ∧
      Item.Aligned items [0xe9, 0xff] [0xc3, 0xa9, 0xff]) ∧
    (∃ chars : List Char, [0xe9] = chars.map Char.toNat ∧
      decodeUnits .narrow ['é'] = .ok ((Utf8.bytes chars).map UInt8.toNat)) ∧
    decodeUnits .wide ['\\', '7', '7', '7', '\\', 'q'] = .error (.unknown 'q') ∧
    ∃ item value, Item.Occurs item ['\\', '7', '7', '7', '\\', 'q'] ∧ item.Names value ∧
      0xff < value := by
  refine ⟨?_, ?_, by decide +kernel, ?_⟩
  · exact (decodeUnits_widths _).2.2 _ _ (by decide +kernel) (by decide +kernel)
  · refine ((decodeUnits_widths ['é']).2.1 ?_).2 _ (by decide +kernel)
    intro item value occurs names
    exact absurd (occurs.backslash names) (by decide)
  · have wide : decodeUnits .wide ['\\', '7', '7', '7', '\\', 'q'] = .error (.unknown 'q') := by
      decide +kernel
    have narrow : decodeUnits .narrow ['\\', '7', '7', '7', '\\', 'q'] =
        .error (.outOfRange 511 8) := by decide +kernel
    obtain ⟨other, refused, same | ⟨item, value, _, occurs, names, large, _⟩⟩ :=
      (decodeUnits_widths _).1 _ wide
    · rw [narrow, same] at refused
      cases refused
    · exact ⟨item, value, occurs, names, large⟩

end TypedLiteral

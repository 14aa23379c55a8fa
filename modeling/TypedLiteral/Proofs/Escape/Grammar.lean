import TypedLiteral.Escape.Item
import TypedLiteral.Proofs.Numeral

/-!
The grammar of bodies. An item stands in front of a rest that it could not have
taken more of, so a text has one item at most at its start. Where it has none, the
text is malformed, in one way only. A body splits into items up to a rest.
-/
namespace TypedLiteral

namespace Item

def simpleEscapes : List (Char × Nat) :=
  [('n', 0x0a), ('t', 0x09), ('r', 0x0d), ('a', 0x07), ('b', 0x08), ('f', 0x0c), ('v', 0x0b),
    ('\\', 0x5c), ('\'', 0x27), ('"', 0x22), ('?', 0x3f)]

def universalEscapes : List (Char × Nat) := [('u', 4), ('U', 8)]

/-- An item that is written in front of a rest of the body. -/
inductive Precedes : Item → List Char → Prop where
  | plain (c : Char) (rest : List Char) (bare : c ≠ '\\') : Precedes (.plain c) rest
  | simple (letter : Char) (unit : Nat) (rest : List Char)
      (listed : (letter, unit) ∈ simpleEscapes) : Precedes (.simple letter unit) rest
  | octal (first : Char) (more rest : List Char)
      (digits : ∀ c ∈ first :: more, Base.octal.IsDigit c) (few : more.length ≤ 2)
      (ends : more.length = 2 ∨ ∀ c ∈ rest.head?, ¬ Base.octal.IsDigit c) :
      Precedes (.octal (first :: more)) rest
  | hex (digits rest : List Char) (nonempty : digits ≠ [])
      (all : ∀ c ∈ digits, Base.hex.IsDigit c)
      (ends : ∀ c ∈ rest.head?, ¬ Base.hex.IsDigit c) : Precedes (.hex digits) rest
  | universal (digits rest : List Char) (all : ∀ c ∈ digits, Base.hex.IsDigit c)
      (count : digits.length = 4 ∨ digits.length = 8) : Precedes (.universal digits) rest

/-- A text that begins with no item. -/
inductive Malformed : List Char → EscapeError → Prop where
  | truncated : Malformed ['\\'] .truncated
  | unknown (letter : Char) (rest : List Char)
      (unlisted : ∀ unit, (letter, unit) ∉ simpleEscapes) (notOctal : ¬ Base.octal.IsDigit letter)
      (unmarked : letter ∉ ['x', 'u', 'U']) : Malformed ('\\' :: letter :: rest) (.unknown letter)
  | missingHexDigits (rest : List Char) (absent : ∀ c ∈ rest.head?, ¬ Base.hex.IsDigit c) :
      Malformed ('\\' :: 'x' :: rest) .missingHexDigits
  | shortUniversalName (letter : Char) (count : Nat) (digits rest : List Char)
      (listed : (letter, count) ∈ universalEscapes) (all : ∀ c ∈ digits, Base.hex.IsDigit c)
      (short : digits.length < count) (ends : ∀ c ∈ rest.head?, ¬ Base.hex.IsDigit c) :
      Malformed ('\\' :: letter :: (digits ++ rest)) (.shortUniversalName count)

theorem text_pos (item : Item) : 0 < item.text.length := by
  cases item <;> exact Nat.zero_lt_succ _

theorem isOctal_iff (c : Char) : isOctal c = true ↔ Base.octal.IsDigit c := by
  have bounds : isOctal c = true ↔ 48 ≤ c.toNat ∧ c.toNat ≤ 55 := by
    simp only [isOctal, Bool.and_eq_true, decide_eq_true_eq]
    exact Iff.rfl
  rw [bounds]
  simp only [Base.IsDigit, Base.mark_iff, Base.radix]
  constructor
  · rintro ⟨low, high⟩
    exact ⟨c.toNat - 48, by rw [digitValue?, if_pos (by omega)], by omega⟩
  · rintro ⟨value, known, small⟩
    rcases Base.digitValue_cases known with decimal | upper | lower
    · omega
    · omega
    · omega

theorem isHex_iff (c : Char) : isHex c = true ↔ Base.hex.IsDigit c := by
  simp only [isHex, Option.isSome_iff_exists, Base.IsDigit, Base.mark_iff, Base.radix]
  apply exists_congr
  intro value
  refine ⟨?_, And.left⟩
  intro known
  refine ⟨known, ?_⟩
  rcases Base.digitValue_cases known with decimal | upper | lower
  · omega
  · omega
  · omega

section Runs

theorem exists_run (inside : Char → Prop) (limit : Nat) (text : List Char) :
    ∃ run rest, text = run ++ rest ∧ (∀ c ∈ run, inside c) ∧ run.length ≤ limit ∧
      (run.length = limit ∨ ∀ c ∈ rest.head?, ¬ inside c) := by
  induction text generalizing limit with
  | nil => exact ⟨[], [], rfl, by simp, Nat.zero_le limit, by simp⟩
  | cons c text ih =>
      cases limit with
      | zero => exact ⟨[], c :: text, rfl, by simp, Nat.le_refl 0, .inl rfl⟩
      | succ limit =>
          by_cases enters : inside c
          · obtain ⟨run, rest, rfl, all, short, ends⟩ := ih limit
            exact ⟨c :: run, rest, rfl, List.forall_mem_cons.mpr ⟨enters, all⟩,
              Nat.succ_le_succ short, ends.imp_left (congrArg Nat.succ)⟩
          · exact ⟨[], c :: text, rfl, by simp, Nat.zero_le _, .inr (by simpa using enters)⟩

theorem exists_full_run (inside : Char → Prop) (text : List Char) :
    ∃ run rest, text = run ++ rest ∧ (∀ c ∈ run, inside c) ∧ ∀ c ∈ rest.head?, ¬ inside c := by
  obtain ⟨run, rest, rfl, all, _, full | stopped⟩ := exists_run inside text.length text
  · rw [List.length_append, Nat.left_eq_add, List.length_eq_zero_iff] at full
    exact ⟨run, rest, rfl, all, by simp [full]⟩
  · exact ⟨run, rest, rfl, all, stopped⟩

variable {accepts : Char → Bool} {limit : Nat} {digits rest : List Char}

theorem takeWhile_run (all : ∀ c ∈ digits, accepts c = true)
    (ends : ∀ c ∈ rest.head?, accepts c = false) : (digits ++ rest).takeWhile accepts = digits := by
  rw [List.takeWhile_append_of_pos all]
  cases rest with
  | nil => simp
  | cons c rest => simp [ends c rfl]

theorem takeWhile_take_run (all : ∀ c ∈ digits, accepts c = true) (short : digits.length ≤ limit)
    (ends : digits.length = limit ∨ ∀ c ∈ rest.head?, accepts c = false) :
    ((digits ++ rest).take limit).takeWhile accepts = digits := by
  rw [List.take_append, List.take_of_length_le short]
  apply takeWhile_run all
  intro c first
  rcases ends with full | stopped
  · simp [full] at first
  · rw [List.head?_take] at first
    split at first
    · cases first
    · exact stopped c first

end Runs

theorem simpleUnit_iff (letter : Char) (unit : Nat) :
    simpleUnit? letter = some unit ↔ (letter, unit) ∈ simpleEscapes := by
  constructor
  · intro known
    unfold simpleUnit? at known
    split at known <;> simp_all [simpleEscapes]
  · intro listed
    simp only [simpleEscapes, List.mem_cons, Prod.mk.injEq, List.not_mem_nil, or_false] at listed
    rcases listed with ⟨rfl, rfl⟩ | ⟨rfl, rfl⟩ | ⟨rfl, rfl⟩ | ⟨rfl, rfl⟩ | ⟨rfl, rfl⟩ | ⟨rfl, rfl⟩ |
      ⟨rfl, rfl⟩ | ⟨rfl, rfl⟩ | ⟨rfl, rfl⟩ | ⟨rfl, rfl⟩ | ⟨rfl, rfl⟩ <;> rfl

theorem simpleUnit_none (letter : Char) (unlisted : ∀ unit, (letter, unit) ∉ simpleEscapes) :
    simpleUnit? letter = none := by
  apply Option.eq_none_iff_forall_ne_some.mpr
  intro unit known
  exact unlisted unit ((simpleUnit_iff letter unit).mp known)

theorem octal_unlisted {letter : Char} (digit : Base.octal.IsDigit letter) :
    simpleUnit? letter = none := by
  obtain ⟨value, small, mark⟩ := digit
  simp only [Base.radix] at small
  interval_cases value <;> rcases mark with rfl | rfl <;> rfl

section Read

variable {first : Char} {more rest : List Char} {item : Item} {fault : EscapeError}

theorem allHex {digits : List Char} (all : ∀ c ∈ digits, Base.hex.IsDigit c) :
    ∀ c ∈ digits, isHex c = true :=
  fun c member => (isHex_iff c).mpr (all c member)

theorem notHex {rest : List Char} (ends : ∀ c ∈ rest.head?, ¬ Base.hex.IsDigit c) :
    ∀ c ∈ rest.head?, isHex c = false := by
  intro c stops
  rw [← Bool.not_eq_true, isHex_iff]
  exact ends c stops

theorem readUniversal_of_digits (count : Nat) (digits rest : List Char)
    (all : ∀ c ∈ digits, Base.hex.IsDigit c) (exact : digits.length = count) :
    readUniversal count (digits ++ rest) = .ok (.universal digits, rest) := by
  have run : ((digits ++ rest).take count).takeWhile isHex = digits :=
    takeWhile_take_run (allHex all) (Nat.le_of_eq exact) (.inl exact)
  simp only [readUniversal, run, exact, if_true]
  rw [← exact, List.drop_left]

theorem readUniversal_of_short (count : Nat) (digits rest : List Char)
    (all : ∀ c ∈ digits, Base.hex.IsDigit c) (short : digits.length < count)
    (ends : ∀ c ∈ rest.head?, ¬ Base.hex.IsDigit c) :
    readUniversal count (digits ++ rest) = .error (.shortUniversalName count) := by
  have run := takeWhile_take_run (allHex all) (Nat.le_of_lt short) (.inr (notHex ends))
  simp only [readUniversal, run, if_neg (Nat.ne_of_lt short)]

theorem read_of_precedes (precedes : item.Precedes rest) :
    ∃ first more, item.text ++ rest = first :: more ∧ read first more = .ok (item, rest) := by
  cases precedes with
  | plain c rest bare => exact ⟨c, rest, rfl, by rw [read, if_neg bare]⟩
  | simple letter unit rest listed =>
      refine ⟨'\\', letter :: rest, rfl, ?_⟩
      simp only [read, if_true, readEscape, (simpleUnit_iff letter unit).mpr listed]
  | octal letter more rest digits few ends =>
      obtain ⟨digit, later⟩ := List.forall_mem_cons.mp digits
      refine ⟨'\\', letter :: (more ++ rest), rfl, ?_⟩
      have run : ((more ++ rest).take 2).takeWhile isOctal = more := by
        apply takeWhile_take_run
        · exact fun c member => (isOctal_iff c).mpr (later c member)
        · exact few
        · refine ends.imp_right fun stops c first => ?_
          rw [← Bool.not_eq_true, isOctal_iff]
          exact stops c first
      simp only [read, if_true, readEscape, octal_unlisted digit, (isOctal_iff letter).mpr digit, run,
        List.drop_left]
  | hex digits rest nonempty all ends =>
      refine ⟨'\\', 'x' :: (digits ++ rest), rfl, ?_⟩
      have run := takeWhile_run (allHex all) (notHex ends)
      have unlisted : simpleUnit? 'x' = none := rfl
      have notOctal : isOctal 'x' = false := rfl
      simp [read, readEscape, unlisted, notOctal, run, nonempty]
  | universal digits rest all count =>
      rcases count with four | eight
      · refine ⟨'\\', 'u' :: (digits ++ rest), by simp [text, four], ?_⟩
        exact readUniversal_of_digits 4 digits rest all four
      · refine ⟨'\\', 'U' :: (digits ++ rest), by simp [text, eight], ?_⟩
        exact readUniversal_of_digits 8 digits rest all eight

theorem read_of_malformed {body : List Char} (malformed : Malformed body fault) :
    ∃ first more, body = first :: more ∧ read first more = .error fault := by
  cases malformed with
  | truncated => exact ⟨'\\', [], rfl, rfl⟩
  | unknown letter rest unlisted notOctal unmarked =>
      refine ⟨'\\', letter :: rest, rfl, ?_⟩
      have octal : isOctal letter = false := by
        rw [← Bool.not_eq_true, isOctal_iff]
        exact notOctal
      simp only [List.mem_cons, List.not_mem_nil, or_false, not_or] at unmarked
      obtain ⟨notHex, notShort, notLong⟩ := unmarked
      simp [read, readEscape, simpleUnit_none letter unlisted, octal, notHex, notShort, notLong]
  | missingHexDigits rest absent =>
      refine ⟨'\\', 'x' :: rest, rfl, ?_⟩
      have run : rest.takeWhile isHex = [] := @takeWhile_run isHex [] rest (by simp) (notHex absent)
      have unlisted : simpleUnit? 'x' = none := rfl
      have notOctal : isOctal 'x' = false := rfl
      simp [read, readEscape, unlisted, notOctal, run]
  | shortUniversalName letter count digits rest listed all short ends =>
      refine ⟨'\\', letter :: (digits ++ rest), rfl, ?_⟩
      simp only [universalEscapes, List.mem_cons, Prod.mk.injEq, List.not_mem_nil, or_false]
        at listed
      rcases listed with ⟨rfl, rfl⟩ | ⟨rfl, rfl⟩
      · exact readUniversal_of_short 4 digits rest all short ends
      · exact readUniversal_of_short 8 digits rest all short ends

theorem exists_universal (letter : Char) (count : Nat) (more : List Char)
    (listed : (letter, count) ∈ universalEscapes) :
    (∃ item rest, '\\' :: letter :: more = item.text ++ rest ∧ Precedes item rest) ∨
      ∃ fault, Malformed ('\\' :: letter :: more) fault := by
  obtain ⟨digits, rest, rfl, all, few, ends⟩ := exists_run Base.hex.IsDigit count more
  by_cases full : digits.length = count
  · left
    simp only [universalEscapes, List.mem_cons, Prod.mk.injEq, List.not_mem_nil, or_false] at listed
    rcases listed with ⟨rfl, rfl⟩ | ⟨rfl, rfl⟩
    · exact ⟨.universal digits, rest, by simp [text, full], .universal digits rest all (.inl full)⟩
    · exact ⟨.universal digits, rest, by simp [text, full], .universal digits rest all (.inr full)⟩
  · right
    exact ⟨_, .shortUniversalName letter count digits rest listed all
      (Nat.lt_of_le_of_ne few full) (ends.resolve_left full)⟩

theorem exists_escape (letter : Char) (more : List Char) :
    (∃ item rest, '\\' :: letter :: more = item.text ++ rest ∧ Precedes item rest) ∨
      ∃ fault, Malformed ('\\' :: letter :: more) fault := by
  by_cases simple : ∃ unit, (letter, unit) ∈ simpleEscapes
  · obtain ⟨unit, listed⟩ := simple
    exact .inl ⟨.simple letter unit, more, rfl, .simple letter unit more listed⟩
  by_cases octal : Base.octal.IsDigit letter
  · obtain ⟨digits, rest, rfl, all, few, ends⟩ := exists_run Base.octal.IsDigit 2 more
    exact .inl ⟨.octal (letter :: digits), rest, rfl,
      .octal letter digits rest (List.forall_mem_cons.mpr ⟨octal, all⟩) few ends⟩
  by_cases hex : letter = 'x'
  · subst hex
    obtain ⟨digits, rest, rfl, all, ends⟩ := exists_full_run Base.hex.IsDigit more
    by_cases absent : digits = []
    · subst absent
      exact .inr ⟨_, .missingHexDigits rest ends⟩
    · exact .inl ⟨.hex digits, rest, rfl, .hex digits rest absent all ends⟩
  by_cases short : letter = 'u'
  · exact exists_universal letter 4 more (by simp [universalEscapes, short])
  by_cases long : letter = 'U'
  · exact exists_universal letter 8 more (by simp [universalEscapes, long])
  · exact .inr ⟨_, .unknown letter more (not_exists.mp simple) octal (by simp [hex, short, long])⟩

/-- Every text that is not empty begins with an item, or is malformed. -/
theorem exists_item (first : Char) (more : List Char) :
    (∃ item rest, first :: more = item.text ++ rest ∧ Precedes item rest) ∨
      ∃ fault, Malformed (first :: more) fault := by
  by_cases bare : first ≠ '\\'
  · exact .inl ⟨.plain first, more, rfl, .plain first more bare⟩
  · obtain rfl := not_not.mp bare
    cases more with
    | nil => exact .inr ⟨_, .truncated⟩
    | cons letter more => exact exists_escape letter more

end Read

/-- A body splits into items that stand one behind the other, up to a rest. -/
inductive Splits : List Char → List Item → List Char → Prop where
  | here (rest : List Char) : Splits rest [] rest
  | item (item : Item) (later : List Char) (items : List Item) (rest : List Char)
      (precedes : item.Precedes later) (splits : Splits later items rest) :
      Splits (item.text ++ later) (item :: items) rest

/-- There is one way only to split a whole body. -/
theorem Splits.unique {body : List Char} {items others : List Item}
    (splits : Splits body items []) (again : Splits body others []) : items = others := by
  generalize ended : [] = rest at splits
  induction splits generalizing others with
  | here =>
      subst ended
      generalize empty : [] = body at again
      cases again with
      | here => rfl
      | item item later items _ precedes _ =>
          obtain ⟨first, more, same, _⟩ := read_of_precedes precedes
          rw [same] at empty
          cases empty
  | item item later items rest precedes _ ih =>
      obtain ⟨first, more, same, read⟩ := read_of_precedes precedes
      generalize whole : item.text ++ later = body at again
      cases again with
      | here => simp [same] at whole
      | item other last others _ otherPrecedes otherSplits =>
          obtain ⟨second, further, otherSame, otherRead⟩ := read_of_precedes otherPrecedes
          -- Both items are what is read at the start of the same text.
          rw [same, otherSame] at whole
          cases whole
          cases read.symm.trans otherRead
          rw [ih otherSplits ended]

end Item

end TypedLiteral

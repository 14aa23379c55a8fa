import TypedLiteral.Lexicon
import TypedLiteral.Proofs.Pattern

/-!
The words of the token patterns. Numbers are described by their marks, and a word
tells its kind by its first characters and, where it is a number, by its point and
its digits. So no word is of two kinds.
-/
namespace TypedLiteral.Lexicon

open Pattern

variable {pattern left right : Pattern} {accepts other : Char → Prop} {word : List Char}

/-- A pattern of single characters. -/
def Letter (pattern : Pattern) (accepts : Char → Prop) : Prop :=
  ∀ word, pattern.Matches word ↔ ∃ c, word = [c] ∧ accepts c

theorem letter_char (mark : Char) : Letter (char mark) (· = mark) := by
  intro word
  simp [char, matches_one]

theorem letter_range (low high : Char) : Letter (range low high) fun c => low ≤ c ∧ c ≤ high := by
  intro word
  simp [range, matches_one]

theorem letter_oneOf (chars : List Char) : Letter (oneOf chars) (· ∈ chars) := by
  intro word
  simp [oneOf, matches_one]

namespace Letter

theorem alt (letters : Letter left accepts) (others : Letter right other) :
    Letter (.alt left right) fun c => accepts c ∨ other c := by
  intro word
  rw [matches_alt, letters word, others word]
  constructor
  · rintro (⟨c, rfl, accepted⟩ | ⟨c, rfl, accepted⟩)
    · exact ⟨c, rfl, .inl accepted⟩
    · exact ⟨c, rfl, .inr accepted⟩
  · rintro ⟨c, rfl, accepted | accepted⟩
    · exact .inl ⟨c, rfl, accepted⟩
    · exact .inr ⟨c, rfl, accepted⟩

variable (letters : Letter pattern accepts)
include letters

theorem seq : Matches (.seq pattern right) word ↔
    ∃ c rest, word = c :: rest ∧ accepts c ∧ Matches right rest := by
  rw [matches_seq]
  constructor
  · rintro ⟨head, tail, rfl, matchesHead, matchesTail⟩
    obtain ⟨c, rfl, accepted⟩ := (letters head).mp matchesHead
    exact ⟨c, tail, rfl, accepted, matchesTail⟩
  · rintro ⟨c, rest, rfl, accepted, matchesTail⟩
    exact ⟨[c], rest, rfl, (letters [c]).mpr ⟨c, rfl, accepted⟩, matchesTail⟩

theorem star : Matches (.star pattern) word ↔ ∀ c ∈ word, accepts c := by
  induction word with
  | nil => simp [matches_star_nil]
  | cons c rest ih =>
      rw [matches_star_cons, List.forall_mem_cons, ← ih]
      constructor
      · rintro ⟨head, tail, rfl, matchesHead, matchesTail⟩
        obtain ⟨d, single, accepted⟩ := (letters _).mp matchesHead
        cases single
        exact ⟨accepted, matchesTail⟩
      · rintro ⟨accepted, matchesTail⟩
        exact ⟨[], rest, rfl, (letters [c]).mpr ⟨c, rfl, accepted⟩, matchesTail⟩

theorem plus : Matches (plus pattern) word ↔ word ≠ [] ∧ ∀ c ∈ word, accepts c := by
  rw [Lexicon.plus, letters.seq]
  constructor
  · rintro ⟨c, rest, rfl, accepted, matchesTail⟩
    exact ⟨List.cons_ne_nil _ _, List.forall_mem_cons.mpr ⟨accepted, letters.star.mp matchesTail⟩⟩
  · rintro ⟨nonempty, all⟩
    obtain ⟨c, rest, rfl⟩ := List.exists_cons_of_ne_nil nonempty
    obtain ⟨accepted, later⟩ := List.forall_mem_cons.mp all
    exact ⟨c, rest, rfl, accepted, letters.star.mpr later⟩

end Letter

def DecimalMark (c : Char) : Prop := '0' ≤ c ∧ c ≤ '9'

def OctalMark (c : Char) : Prop := '0' ≤ c ∧ c ≤ '7'

def HexMark (c : Char) : Prop := DecimalMark c ∨ ('a' ≤ c ∧ c ≤ 'f') ∨ ('A' ≤ c ∧ c ≤ 'F')

instance : DecidablePred DecimalMark := fun c => inferInstanceAs (Decidable ('0' ≤ c ∧ c ≤ '9'))

instance : DecidablePred OctalMark := fun c => inferInstanceAs (Decidable ('0' ≤ c ∧ c ≤ '7'))

instance : DecidablePred HexMark := fun c =>
  inferInstanceAs (Decidable (DecimalMark c ∨ ('a' ≤ c ∧ c ≤ 'f') ∨ ('A' ≤ c ∧ c ≤ 'F')))

theorem letter_digit : Letter digit DecimalMark := letter_range _ _

theorem letter_octal : Letter octalDigit OctalMark := letter_range _ _

theorem letter_hex : Letter hexDigit HexMark :=
  (letter_range _ _).alt ((letter_range _ _).alt (letter_range _ _))

theorem matches_after (mark : Char) : Matches (.seq (char mark) pattern) word ↔
    ∃ rest, word = mark :: rest ∧ Matches pattern rest := by
  rw [(letter_char mark).seq]
  constructor
  · rintro ⟨c, rest, rfl, rfl, matched⟩
    exact ⟨rest, rfl, matched⟩
  · rintro ⟨rest, rfl, matched⟩
    exact ⟨mark, rest, rfl, rfl, matched⟩

theorem matches_hexInt : hexInt.Matches word ↔ ∃ mark digits, word = '0' :: mark :: digits ∧
    mark ∈ ['x', 'X'] ∧ digits ≠ [] ∧ ∀ c ∈ digits, HexMark c := by
  simp only [hexInt, matches_after, (letter_oneOf _).seq, letter_hex.plus]
  constructor
  · rintro ⟨_, rfl, mark, digits, rfl, marked, all⟩
    exact ⟨mark, digits, rfl, marked, all⟩
  · rintro ⟨mark, digits, rfl, marked, all⟩
    exact ⟨_, rfl, mark, digits, rfl, marked, all⟩

theorem matches_binaryInt : binaryInt.Matches word ↔ ∃ mark digits, word = '0' :: mark :: digits ∧
    mark ∈ ['b', 'B'] ∧ digits ≠ [] ∧ ∀ c ∈ digits, c ∈ ['0', '1'] := by
  simp only [binaryInt, matches_after, (letter_oneOf _).seq, (letter_oneOf _).plus]
  constructor
  · rintro ⟨_, rfl, mark, digits, rfl, marked, all⟩
    exact ⟨mark, digits, rfl, marked, all⟩
  · rintro ⟨mark, digits, rfl, marked, all⟩
    exact ⟨_, rfl, mark, digits, rfl, marked, all⟩

theorem matches_octalInt : octalInt.Matches word ↔
    ∃ digits, word = '0' :: digits ∧ ∀ c ∈ digits, OctalMark c := by
  simp only [octalInt, matches_after, letter_octal.star]

theorem matches_decimalInt : decimalInt.Matches word ↔
    ∃ first digits, word = first :: digits ∧ ('1' ≤ first ∧ first ≤ '9') ∧
      ∀ c ∈ digits, DecimalMark c := by
  simp only [decimalInt, (letter_range _ _).seq, letter_digit.star]

theorem matches_float : float.Matches word ↔ ∃ whole part, word = whole ++ '.' :: part ∧
    (whole ≠ [] ∨ part ≠ []) ∧ (∀ c ∈ whole, DecimalMark c) ∧ ∀ c ∈ part, DecimalMark c := by
  simp only [float, matches_alt, @matches_seq (Lexicon.plus digit), matches_after,
    letter_digit.plus, letter_digit.star]
  constructor
  · rintro (⟨whole, _, rfl, ⟨nonempty, all⟩, part, rfl, later⟩ | ⟨part, rfl, nonempty, all⟩)
    · exact ⟨whole, part, rfl, .inl nonempty, all, later⟩
    · exact ⟨[], part, rfl, .inr nonempty, by simp, all⟩
  · rintro ⟨whole, part, rfl, nonempty, all, later⟩
    cases whole with
    | nil => exact .inr ⟨part, rfl, by simpa using nonempty, later⟩
    | cons c whole => exact .inl ⟨c :: whole, _, rfl, ⟨List.cons_ne_nil _ _, all⟩, part, rfl, later⟩

theorem matches_malformedOctal : malformedOctal.Matches word ↔
    ∃ octals mark digits, word = '0' :: (octals ++ mark :: digits) ∧ (∀ c ∈ octals, OctalMark c) ∧
      mark ∈ ['8', '9'] ∧ ∀ c ∈ digits, DecimalMark c := by
  simp only [malformedOctal, matches_after, @matches_seq (.star octalDigit),
    letter_octal.star, (letter_oneOf _).seq, letter_digit.star]
  constructor
  · rintro ⟨_, rfl, octals, _, rfl, all, mark, digits, rfl, marked, later⟩
    exact ⟨octals, mark, digits, rfl, all, marked, later⟩
  · rintro ⟨octals, mark, digits, rfl, all, marked, later⟩
    exact ⟨_, rfl, octals, _, rfl, all, mark, digits, rfl, marked, later⟩

theorem quoted_head (quote : Char) (matched : (quoted quote).Matches word) :
    ∃ rest, word = quote :: rest := by
  obtain ⟨_, _, rfl, opened, _⟩ := matches_seq.mp matched
  obtain ⟨rest, rfl, _⟩ := (matches_after quote).mp opened
  exact ⟨_, rfl⟩

theorem wide_head (quote : Char) (matched : (wide (quoted quote)).Matches word) :
    ∃ rest, word = 'L' :: quote :: rest := by
  obtain ⟨tail, rfl, body⟩ := (matches_after 'L').mp matched
  obtain ⟨rest, rfl⟩ := quoted_head quote body
  exact ⟨rest, rfl⟩

theorem comment_head (matched : (Pattern.alt blockComment lineComment).Matches word) :
    ∃ rest, word = '/' :: rest := by
  rcases matches_alt.mp matched with block | line
  · obtain ⟨_, _, rfl, opened, _⟩ := matches_seq.mp block
    obtain ⟨_, _, rfl, marks, _⟩ := matches_seq.mp opened
    obtain ⟨_, rfl, _⟩ := (matches_after '/').mp marks
    exact ⟨_, rfl⟩
  · obtain ⟨_, _, rfl, marks, _⟩ := matches_seq.mp line
    obtain ⟨_, rfl, _⟩ := (matches_after '/').mp marks
    exact ⟨_, rfl⟩

/-- A number without a point is malformed where it begins like an octal literal and
has an 8 or a 9. -/
def numberKind (first : Char) (rest : List Char) : Kind :=
  if '.' ∈ first :: rest then .float
  else if first = '0' ∧ rest.head? ≠ some 'x' ∧ rest.head? ≠ some 'X' ∧ ('8' ∈ rest ∨ '9' ∈ rest)
  then .error
  else .int

def markKind : Char → Kind
  | '/' => .comment
  | '\'' => .char
  | '"' => .string
  | '+' => .plus
  | '-' => .minus
  | ',' => .comma
  | '\x7b' => .leftBrace
  | '\x7d' => .rightBrace
  | _ => .whitespace

/-- The only kind that a word may have. -/
def kindOf : List Char → Kind
  | [] => .error
  | first :: rest =>
      if DecimalMark first ∨ first = '.' then numberKind first rest
      else if first = 'L' then
        if rest.head? = some '\'' then .wideChar else .wideString
      else markKind first

theorem kindOf_number {first : Char} {rest : List Char} (number : DecimalMark first ∨ first = '.') :
    kindOf (first :: rest) = numberKind first rest := by
  rw [kindOf, if_pos number]

theorem not_mem_of_all {digits : List Char} (all : ∀ c ∈ digits, accepts c) {mark : Char}
    (foreign : ¬ accepts mark) : mark ∉ digits := by
  intro member
  exact foreign (all mark member)

theorem kindOf_zero {rest : List Char} (pointless : '.' ∉ rest)
    (sound : rest.head? = some 'x' ∨ rest.head? = some 'X' ∨ ('8' ∉ rest ∧ '9' ∉ rest)) :
    kindOf ('0' :: rest) = .int := by
  rw [kindOf_number (.inl (by decide)), numberKind, if_neg (by simpa using pointless), if_neg]
  rintro ⟨_, notLower, notUpper, eight | nine⟩
  · rcases sound with lower | upper | octal
    · exact notLower lower
    · exact notUpper upper
    · exact octal.1 eight
  · rcases sound with lower | upper | octal
    · exact notLower lower
    · exact notUpper upper
    · exact octal.2 nine

theorem OctalMark.decimal {c : Char} (mark : OctalMark c) : DecimalMark c :=
  ⟨mark.1, Char.le_trans mark.2 (by decide)⟩

theorem kindOf_int (matched : int.Matches word) : kindOf word = .int := by
  simp only [int, matches_alt, matches_hexInt, matches_binaryInt, matches_octalInt,
    matches_decimalInt] at matched
  rcases matched with ⟨mark, digits, rfl, marked, _, all⟩ | ⟨mark, digits, rfl, marked, _, all⟩ |
    ⟨digits, rfl, all⟩ | ⟨first, digits, rfl, ⟨low, high⟩, all⟩
  · -- An eight or a nine is a hexadecimal digit as well, so it is the mark that counts.
    have pointless : '.' ∉ digits := not_mem_of_all all (by decide)
    simp only [List.mem_cons, List.not_mem_nil, or_false] at marked
    rcases marked with rfl | rfl
    · exact kindOf_zero (by simpa using pointless) (.inl rfl)
    · exact kindOf_zero (by simpa using pointless) (.inr (.inl rfl))
  · have pointless : '.' ∉ digits := not_mem_of_all all (by decide)
    have eight : '8' ∉ digits := not_mem_of_all all (by decide)
    have nine : '9' ∉ digits := not_mem_of_all all (by decide)
    simp only [List.mem_cons, List.not_mem_nil, or_false] at marked
    apply kindOf_zero
    · rcases marked with rfl | rfl <;> simpa using pointless
    · rcases marked with rfl | rfl <;> simp [eight, nine]
  · apply kindOf_zero
    · exact not_mem_of_all all (by decide)
    · exact .inr (.inr ⟨not_mem_of_all all (by decide), not_mem_of_all all (by decide)⟩)
  · have decimal : DecimalMark first := ⟨Char.le_trans (by decide) low, high⟩
    have pointless : '.' ∉ first :: digits :=
      not_mem_of_all (List.forall_mem_cons.mpr ⟨decimal, all⟩) (by decide)
    have positive : first ≠ '0' := by
      rintro rfl
      exact absurd low (by decide)
    rw [kindOf_number (.inl decimal), numberKind, if_neg pointless]
    simp [positive]

theorem kindOf_float (matched : float.Matches word) : kindOf word = .float := by
  obtain ⟨whole, part, rfl, _, all, _⟩ := matches_float.mp matched
  cases whole with
  | nil => simp [kindOf, numberKind]
  | cons first whole =>
      have decimal := all first List.mem_cons_self
      rw [List.cons_append, kindOf_number (.inl decimal), numberKind, if_pos (by simp)]

theorem kindOf_malformedOctal (matched : malformedOctal.Matches word) : kindOf word = .error := by
  obtain ⟨octals, mark, digits, rfl, all, marked, later⟩ := matches_malformedOctal.mp matched
  have decimal : ∀ c ∈ octals ++ mark :: digits, DecimalMark c := by
    intro c member
    simp only [List.mem_append, List.mem_cons] at member marked
    rcases member with octal | rfl | digit
    · exact (all c octal).decimal
    · rcases marked with rfl | rfl | absurd
      · decide
      · decide
      · cases absurd
    · exact later c digit
  have pointless : '.' ∉ octals ++ mark :: digits := not_mem_of_all decimal (by decide)
  -- The first character behind the zero is a digit, so it is no mark of a base.
  have unmarked : ∀ c, ¬ DecimalMark c → (octals ++ mark :: digits).head? ≠ some c := by
    intro c foreign same
    exact foreign (decimal c (List.mem_of_mem_head? same))
  have high : '8' ∈ octals ++ mark :: digits ∨ '9' ∈ octals ++ mark :: digits := by
    simp only [List.mem_cons, List.not_mem_nil, or_false] at marked
    rcases marked with rfl | rfl <;> simp
  rw [kindOf_number (.inl (by decide)), numberKind, if_neg (by simpa using pointless),
    if_pos ⟨rfl, unmarked 'x' (by decide), unmarked 'X' (by decide), high⟩]

theorem kindOf_whitespace (matched : whitespace.Matches word) : kindOf word = .whitespace := by
  obtain ⟨nonempty, all⟩ := (letter_oneOf _).plus.mp matched
  obtain ⟨first, rest, rfl⟩ := List.exists_cons_of_ne_nil nonempty
  have blank := all first List.mem_cons_self
  simp only [List.mem_cons, List.not_mem_nil, or_false] at blank
  rcases blank with rfl | rfl | rfl | rfl <;> rfl

theorem kindOf_rule (rule : Kind × Pattern) (member : rule ∈ rules)
    (matched : rule.2.Matches word) : kindOf word = rule.1 := by
  simp only [rules, List.mem_cons, List.not_mem_nil, or_false] at member
  rcases member with rfl | rfl | rfl | rfl | rfl | rfl | rfl | rfl | rfl | rfl | rfl | rfl | rfl | rfl
  · exact kindOf_whitespace matched
  · obtain ⟨rest, rfl⟩ := comment_head matched
    rfl
  · exact kindOf_int matched
  · exact kindOf_float matched
  · exact kindOf_malformedOctal matched
  · obtain ⟨rest, rfl⟩ := quoted_head _ matched
    rfl
  · obtain ⟨rest, rfl⟩ := wide_head _ matched
    rfl
  · obtain ⟨rest, rfl⟩ := quoted_head _ matched
    rfl
  · obtain ⟨rest, rfl⟩ := wide_head _ matched
    rfl
  all_goals
    obtain ⟨c, rfl, rfl⟩ := (letter_char _ _).mp matched
    rfl

/-- A word of a kind: the pattern of the kind's rule stands for it. -/
def IsWord (kind : Kind) (word : List Char) : Prop :=
  ∃ pattern, (kind, pattern) ∈ rules ∧ pattern.Matches word

theorem kind_unique {kind second : Kind} (isWord : IsWord kind word)
    (again : IsWord second word) : kind = second := by
  obtain ⟨pattern, member, matched⟩ := isWord
  obtain ⟨rival, rivalMember, rivalMatched⟩ := again
  exact (kindOf_rule _ member matched).symm.trans (kindOf_rule _ rivalMember rivalMatched)

end TypedLiteral.Lexicon

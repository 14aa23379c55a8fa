import Mathlib.Algebra.Group.Nat.Even
import Mathlib.Data.List.DropRight
import TypedLiteral.Proofs.Causes
import TypedLiteral.Proofs.Escape.Decoding
import TypedLiteral.Proofs.Span

/-!
The words of quoted literals are what decoding needs. The lexicon takes a backslash with
one character behind it, and decoding takes an escape with up to nine; but what an escape
takes behind its first character are digits, which are plain characters for the lexicon.
So behind every item the rest of a body is made of whole units again, and no backslash is
ever the last character of it.
-/
namespace TypedLiteral

/-- The kinds of quoted literals, with the width of their units and their quotes. -/
inductive Kind.Quotes : Kind → UnitWidth → Char → Prop where
  | char : Quotes .char .narrow '\''
  | wideChar : Quotes .wideChar .wide '\''
  | string : Quotes .string .narrow '"'
  | wideString : Quotes .wideString .wide '"'

theorem Kind.Quotes.notError {kind : Kind} {width : UnitWidth} {quote : Char}
    (quotes : kind.Quotes width quote) : kind ≠ .error := by
  rintro rfl
  cases quotes

theorem Kind.Quotes.notBackslash {kind : Kind} {width : UnitWidth} {quote : Char}
    (quotes : kind.Quotes width quote) : quote ≠ '\\' := by
  cases quotes <;> decide

def UnitWidth.mark : UnitWidth → List Char
  | .narrow => []
  | .wide => ['L']

namespace Lexicon

open Pattern

/-- Whole units of a quoted literal: a backslash with a character behind it, or another
character that is not the quote. -/
inductive Units (quote : Char) : List Char → Prop where
  | done : Units quote []
  | plain (c : Char) (rest : List Char) (notQuote : c ≠ quote) (bare : c ≠ '\\')
      (units : Units quote rest) : Units quote (c :: rest)
  | pair (c : Char) (rest : List Char) (units : Units quote rest) : Units quote ('\\' :: c :: rest)

/-- What stands behind this text is escaped: an odd number of backslashes is right in
front of it. -/
def Escaped (front : List Char) : Prop := Odd (front.rtakeWhile (· == '\\')).length

/-- The quote behind a body is the first one that is not escaped. -/
structure FirstQuote (quote : Char) (body : List Char) : Prop where
  inside : ∀ front rest, body = front ++ quote :: rest → Escaped front
  closing : ¬ Escaped body

variable {quote c : Char} {word body front rest past : List Char} {kind : Kind} {width : UnitWidth}

theorem matches_quotedUnit : (quotedUnit quote).Matches word ↔
    (∃ c, word = [c] ∧ c ∉ [quote, '\\', '\n']) ∨ ∃ c, word = ['\\', c] ∧ c ≠ '\n' := by
  simp only [quotedUnit, matches_alt, matches_after, noneOf, matches_one]
  constructor
  · rintro (⟨c, rfl, other⟩ | ⟨_, rfl, c, rfl, other⟩)
    · exact .inl ⟨c, rfl, by simpa using other⟩
    · exact .inr ⟨c, rfl, by simpa using other⟩
  · rintro (⟨c, rfl, other⟩ | ⟨c, rfl, other⟩)
    · exact .inl ⟨c, rfl, by simpa using other⟩
    · exact .inr ⟨[c], rfl, c, rfl, by simpa using other⟩

theorem units_of_matches (matched : (Pattern.star (quotedUnit quote)).Matches word) :
    Units quote word := by
  generalize starred : Pattern.star (quotedUnit quote) = pattern at matched
  induction matched with
  | done => exact .done
  | more inner head tail matchesHead _ _ ih =>
      cases starred
      have units := ih rfl
      rcases matches_quotedUnit.mp matchesHead with ⟨c, rfl, other⟩ | ⟨c, rfl, _⟩
      · simp only [List.mem_cons, List.not_mem_nil, or_false, not_or] at other
        exact .plain c tail other.1 other.2.1 units
      · exact .pair c tail units
  | _ => cases starred

theorem quoted_units (matched : (quoted quote).Matches word) :
    ∃ body, word = quote :: (body ++ [quote]) ∧ Units quote body := by
  obtain ⟨_, _, rfl, opened, closing⟩ := matches_seq.mp matched
  obtain ⟨body, rfl, units⟩ := (matches_after quote).mp opened
  obtain ⟨_, rfl, rfl⟩ := (letter_char quote _).mp closing
  exact ⟨body, rfl, units_of_matches units⟩

theorem rule_of_quotes {pattern : Pattern} (quotes : kind.Quotes width quote)
    (rule : (kind, pattern) ∈ rules) : pattern = match width with
      | .narrow => quoted quote
      | .wide => wide (quoted quote) := by
  cases quotes <;> simpa [rules] using rule

theorem isWord_quoted (quotes : kind.Quotes width quote) (isWord : IsWord kind word) :
    ∃ body, word = width.mark ++ quote :: (body ++ [quote]) ∧ Units quote body := by
  obtain ⟨pattern, rule, matched⟩ := isWord
  obtain rfl := rule_of_quotes quotes rule
  cases width with
  | narrow => exact quoted_units matched
  | wide =>
      obtain ⟨literal, rfl, unmarked⟩ := (matches_after 'L').mp matched
      obtain ⟨body, rfl, units⟩ := quoted_units unmarked
      exact ⟨body, rfl, units⟩

theorem not_escaped_nil : ¬ Escaped [] := by
  simp [Escaped]

theorem escaped_snoc : Escaped (front ++ [c]) ↔ c = '\\' ∧ ¬ Escaped front := by
  rw [Escaped, List.rtakeWhile_concat]
  by_cases backslash : c = '\\'
  · simp [backslash, Escaped, Nat.odd_add_one]
  · simp [backslash]

namespace Units

theorem not_escaped (units : Units quote word) (free : ¬ Escaped past) :
    ¬ Escaped (past ++ word) := by
  -- The units are passed one by one, and `past` holds those that are behind.
  induction units generalizing past with
  | done => rwa [List.append_nil]
  | plain c rest _ bare _ ih =>
      rw [List.append_cons]
      apply ih
      rw [escaped_snoc]
      exact fun escaped => bare escaped.1
  | pair c rest _ ih =>
      rw [List.append_cons, List.append_cons]
      apply ih
      rw [escaped_snoc, escaped_snoc]
      exact fun escaped => escaped.2 ⟨rfl, free⟩

theorem quote_escaped (units : Units quote (front ++ quote :: rest)) (mark : quote ≠ '\\')
    (free : ¬ Escaped past) : Escaped (past ++ front) := by
  generalize whole : front ++ quote :: rest = word at units
  induction units generalizing past front with
  | done => simp at whole
  | plain c tail notQuote bare _ ih =>
      cases front with
      | nil => exact absurd (List.cons.inj whole).1.symm notQuote
      | cons d front =>
          obtain ⟨rfl, later⟩ := List.cons.inj whole
          rw [List.append_cons]
          apply ih _ later
          rw [escaped_snoc]
          exact fun escaped => bare escaped.1
  | pair c tail _ ih =>
      match front with
      | [] => exact absurd (List.cons.inj whole).1 mark
      | [d] =>
          obtain ⟨rfl, _⟩ := List.cons.inj whole
          exact escaped_snoc.mpr ⟨rfl, free⟩
      | d :: e :: front =>
          obtain ⟨rfl, later⟩ := List.cons.inj whole
          rw [List.append_cons, List.append_cons]
          apply ih _ (List.cons.inj later).2
          rw [escaped_snoc, escaped_snoc]
          exact fun escaped => escaped.2 ⟨rfl, free⟩

theorem firstQuote (units : Units quote body) (mark : quote ≠ '\\') : FirstQuote quote body where
  inside := by
    rintro front rest rfl
    exact units.quote_escaped mark not_escaped_nil
  closing := units.not_escaped not_escaped_nil

theorem behind_plain (units : Units quote (front ++ rest)) (plain : '\\' ∉ front) :
    Units quote rest := by
  induction front with
  | nil => exact units
  | cons c front ih =>
      obtain ⟨different, later⟩ := not_or.mp (mt List.mem_cons.mpr plain)
      generalize same : front ++ rest = tail at units ih
      rw [List.cons_append, same] at units
      cases units with
      | plain _ _ _ _ units => exact ih units later
      | pair => exact absurd rfl different

end Units

end Lexicon

namespace Item

open Lexicon (Units)

variable {quote : Char} {body rest : List Char} {item : Item} {items : List Item}
variable {width : UnitWidth}

theorem units_behind (precedes : item.Precedes rest) (units : Units quote (item.text ++ rest)) :
    Units quote rest := by
  have digit : ∀ base : Base, ¬ base.IsDigit '\\' := by
    rintro base ⟨value, isMark⟩
    cases ((base.mark_iff _ _).mp isMark).1
  -- An escape begins with a pair of the lexicon, and the digits it takes behind it are plain.
  cases precedes with
  | plain c rest bare =>
      cases units with
      | plain _ _ _ _ units => exact units
      | pair => exact absurd rfl bare
  | simple letter unit rest listed =>
      cases units with
      | plain _ _ _ bare _ => exact absurd rfl bare
      | pair _ _ units => exact units
  | octal first more rest digits few ends =>
      cases units with
      | plain _ _ _ bare _ => exact absurd rfl bare
      | pair _ _ units =>
          exact units.behind_plain fun member => digit _ (digits _ (List.mem_cons_of_mem _ member))
  | hex digits rest nonempty all ends =>
      cases units with
      | plain _ _ _ bare _ => exact absurd rfl bare
      | pair _ _ units => exact units.behind_plain fun member => digit _ (all _ member)
  | universal digits rest all count =>
      cases units with
      | plain _ _ _ bare _ => exact absurd rfl bare
      | pair _ _ units => exact units.behind_plain fun member => digit _ (all _ member)

theorem Splits.units (splits : Splits body items rest) (units : Units quote body) :
    Units quote rest := by
  induction splits with
  | here => exact units
  | item item later items rest precedes _ ih => exact ih (units_behind precedes units)

/-- A body of whole units never ends behind a backslash. -/
theorem decodeUnits_complete (units : Units quote body) :
    decodeUnits width body ≠ .error .truncated := by
  intro truncated
  rcases decodeUnits_cases width body with ⟨_, _, _, _, decoded⟩ |
    ⟨items, parts, rest, fault, splits, _, bad, refused⟩
  · cases truncated.symm.trans decoded
  · cases truncated.symm.trans refused
    -- What is left would be one backslash, which is not a row of whole units.
    have behind := splits.units units
    cases bad with
    | malformed _ _ malformed =>
        cases malformed
        cases behind with
        | plain _ _ _ bare _ => exact bare rfl
    | inadmissible item rest _ _ inadmissible => cases inadmissible

end Item

section Messages

/-- The causes of a quoted literal that is not what decoding needs. -/
inductive Cause.Misaligned : Cause → Prop where
  | unterminated (text : List Char) : Misaligned (.unterminated text)
  | truncated : Misaligned (.escape .truncated)

def Opens (opening text : String) : Prop := opening.toList <+: text.toList

instance (opening text : String) : Decidable (Opens opening text) :=
  inferInstanceAs (Decidable (_ <+: _))

theorem Opens.before {opening text : String} (opens : Opens opening text) (rest : String) :
    Opens opening (text ++ rest) := by
  rw [Opens, String.toList_append]
  exact opens.trans (List.prefix_append _ _)

/-- How the messages of the other causes begin. -/
def Cause.openings : List String :=
  ["expected ", "a sign ", "unexpected ", "unrecognised ", "digit ", "cannot ", "division ",
    "integer ", "unknown ", "hex ", "universal ", "escape value ", "empty ", "character "]

variable {opening other text : String}

theorem Opens.apart (opens : Opens opening text)
    (apart : ¬ Opens opening other ∧ ¬ Opens other opening) : ¬ Opens other text := by
  intro opened
  rcases List.prefix_or_prefix_of_prefix opens opened with shorter | longer
  · exact apart.1 shorter
  · exact apart.2 longer

theorem Cause.apart_of_opens (listed : opening ∈ openings) (opens : Opens opening text) :
    ¬ Opens "unterminated literal" text ∧
      ¬ Opens "escape sequence is missing its character" text := by
  have unterminated : ∀ opening ∈ openings, ¬ Opens opening "unterminated literal" ∧
      ¬ Opens "unterminated literal" opening := by
    decide +kernel
  have truncated : ∀ opening ∈ openings,
      ¬ Opens opening "escape sequence is missing its character" ∧
        ¬ Opens "escape sequence is missing its character" opening := by
    decide +kernel
  exact ⟨opens.apart (unterminated opening listed), opens.apart (truncated opening listed)⟩

theorem Violation.message_opens (violation : Violation) :
    ∃ opening ∈ Cause.openings, Opens opening violation.message := by
  cases violation with
  | invalidDigit byte radix =>
      have opens : Opens "digit " "digit " := by decide +kernel
      exact ⟨_, by decide, ((opens.before _).before _).before _⟩
  | tooManyBits count total =>
      have opens : Opens "cannot " "cannot take " := by decide +kernel
      exact ⟨_, by decide, (((opens.before _).before _).before _).before _⟩
  | divisionByZero => exact ⟨"division ", by decide, by decide +kernel⟩

theorem EscapeError.message_opens (fault : EscapeError) (whole : fault ≠ .truncated) :
    ∃ opening ∈ Cause.openings, Opens opening fault.message := by
  cases fault with
  | truncated => exact absurd rfl whole
  | unknown letter =>
      have opens : Opens "unknown " "unknown escape sequence '\\" := by decide +kernel
      exact ⟨_, by decide, (opens.before _).before _⟩
  | missingHexDigits => exact ⟨"hex ", by decide, by decide +kernel⟩
  | shortUniversalName expected =>
      have opens : Opens "universal " "universal character name needs " := by decide +kernel
      exact ⟨_, by decide, (opens.before _).before _⟩
  | invalidCodePoint value =>
      have opens : Opens "universal " "universal character name " := by decide +kernel
      exact ⟨_, by decide, (opens.before _).before _⟩
  | outOfRange value bits =>
      have opens : Opens "escape value " "escape value " := by decide +kernel
      exact ⟨_, by decide, (opens.before _).before _⟩
  | emptyCharacter => exact ⟨"empty ", by decide, by decide +kernel⟩
  | multiCharacter count =>
      have opens : Opens "character " "character literal decodes to " := by decide +kernel
      exact ⟨_, by decide, (opens.before _).before _⟩

theorem Cause.message_opens (cause : Cause) (aligned : ¬ cause.Misaligned) :
    ∃ opening ∈ openings, Opens opening cause.message := by
  cases cause with
  | missingConstant => exact ⟨"expected ", by decide, by decide +kernel⟩
  | missingNumber => exact ⟨"expected ", by decide, by decide +kernel⟩
  | misplacedSign => exact ⟨"a sign ", by decide, by decide +kernel⟩
  | missing kind =>
      have opens : Opens "expected " "expected " := by decide +kernel
      exact ⟨_, by decide, opens.before _⟩
  | unexpected kind =>
      have opens : Opens "unexpected " "unexpected token: " := by decide +kernel
      exact ⟨_, by decide, opens.before _⟩
  | unrecognised text =>
      have opens : Opens "unrecognised " "unrecognised input '" := by decide +kernel
      exact ⟨_, by decide, (opens.before _).before _⟩
  | noConstant kind =>
      have opens : Opens "expected " "expected a constant, found " := by decide +kernel
      exact ⟨_, by decide, opens.before _⟩
  | unterminated text => exact absurd (.unterminated text) aligned
  | number fault =>
      cases fault with
      | broken violation => exact violation.message_opens
      | outOfRange fault =>
          have opens : Opens "integer " "integer literal " := by decide +kernel
          exact ⟨_, by decide, (((opens.before _).before _).before _).before _⟩
  | escape fault =>
      apply fault.message_opens
      rintro rfl
      exact aligned .truncated

theorem Cause.Syntactic.aligned {cause : Cause} (syntactic : cause.Syntactic) :
    ¬ cause.Misaligned := by
  rintro (_ | _) <;> cases syntactic

end Messages

section Evaluation

variable {width : UnitWidth} {quote : Char} {body : List Char} {token : Token} {cause : Cause}

theorem Literal.quotedBody_word :
    quotedBody width quote (width.mark ++ quote :: (body ++ [quote])) = some body := by
  cases width <;> simp [quotedBody, UnitWidth.mark]

def Literal.Complete : Literal → Prop
  | .number _ => True
  | .character literal | .string literal =>
      decodeUnits literal.width literal.body ≠ .error .truncated

theorem Literal.quoted_word {kind : Kind} {text : List Char} (quotes : kind.Quotes width quote)
    (isWord : Lexicon.IsWord kind text) : ∃ body, quoted width quote text = .ok ⟨width, body⟩ ∧
      decodeUnits width body ≠ .error .truncated := by
  obtain ⟨body, rfl, units⟩ := Lexicon.isWord_quoted quotes isWord
  exact ⟨body, by rw [quoted, quotedBody_word], Item.decodeUnits_complete units⟩

/-- A token was read into a complete literal, or it is no quoted literal. -/
def Literal.Aligned : Except Cause Literal → Prop
  | .ok literal => literal.Complete
  | .error cause => ¬ cause.Misaligned

theorem Literal.quoted_aligned {kind : Kind} {text : List Char} {form : QuotedLiteral → Literal}
    (quotes : kind.Quotes width quote) (isWord : Lexicon.IsWord kind text)
    (complete : ∀ body, decodeUnits width body ≠ .error .truncated →
      (form ⟨width, body⟩).Complete) :
    Aligned ((quoted width quote text).map form) := by
  obtain ⟨body, read, whole⟩ := quoted_word quotes isWord
  rw [read]
  exact complete body whole

theorem Literal.ofToken_aligned (sign : Sign) (isWord : Lexicon.IsWord token.kind token.text) :
    Aligned (ofToken sign token) := by
  unfold ofToken
  cases kind : token.kind with
  | int | float => trivial
  | char => exact quoted_aligned .char (kind ▸ isWord) fun _ whole => whole
  | wideChar => exact quoted_aligned .wideChar (kind ▸ isWord) fun _ whole => whole
  | string => exact quoted_aligned .string (kind ▸ isWord) fun _ whole => whole
  | wideString => exact quoted_aligned .wideString (kind ▸ isWord) fun _ whole => whole
  | _ => rintro (_ | _)

theorem QuotedLiteral.character_complete {literal : QuotedLiteral}
    (complete : decodeUnits literal.width literal.body ≠ .error .truncated) :
    literal.character ≠ .error .truncated := by
  unfold character
  cases decoded : decodeUnits literal.width literal.body with
  | error fault =>
      rw [decoded] at complete
      exact fun truncated => complete (congrArg _ (Except.error.inj truncated))
  | ok units => rcases units with _ | ⟨unit, _ | ⟨next, more⟩⟩ <;> simp

theorem QuotedLiteral.string_complete {literal : QuotedLiteral}
    (complete : decodeUnits literal.width literal.body ≠ .error .truncated) :
    literal.string ≠ .error .truncated := by
  unfold string
  cases decoded : decodeUnits literal.width literal.body with
  | error fault =>
      rw [decoded] at complete
      exact fun truncated => complete (congrArg _ (Except.error.inj truncated))
  | ok units => simp [Except.map]

theorem Literal.evaluate_aligned {literal : Literal} (tiers : TierTable)
    (complete : literal.Complete) (failed : literal.evaluate tiers = .error cause) :
    ¬ cause.Misaligned := by
  intro misaligned
  cases literal with
  | number numeric =>
      obtain ⟨fault, _, rfl⟩ := fault_of_failed failed
      cases misaligned
  | character body =>
      obtain ⟨fault, refused, rfl⟩ := fault_of_failed failed
      cases misaligned
      exact QuotedLiteral.character_complete complete refused
  | string body =>
      obtain ⟨fault, refused, rfl⟩ := fault_of_failed failed
      cases misaligned
      exact QuotedLiteral.string_complete complete refused

theorem Entry.value_aligned (entry : Entry) (tiers : TierTable)
    (isWord : Lexicon.IsWord entry.literal.token.kind entry.literal.token.text)
    (failed : entry.value tiers = .error cause) : ¬ cause.Misaligned := by
  have aligned := Literal.ofToken_aligned entry.sign isWord
  unfold Entry.value at failed
  cases read : Literal.ofToken entry.sign entry.literal.token with
  | ok literal =>
      rw [read] at aligned failed
      exact Literal.evaluate_aligned tiers aligned failed
  | error fault =>
      rw [read] at aligned failed
      cases failed
      exact aligned

theorem aligned_of_caused {tiers : TierTable} {source : String} {findings : List (Finding Place)}
    (caused : Initializer.Caused tiers (significant (tokenize source)) findings)
    {target : Place → Span} {span : Span}
    (member : (span, cause) ∈ diagnostics (findings.map (Finding.move target))) :
    ¬ cause.Misaligned := by
  rcases caused.isWord member with syntactic | ⟨entry, isWord, failed⟩
  · exact syntactic.aligned
  · exact entry.value_aligned tiers isWord failed

end Evaluation

/-- The body of a quoted token is the text between its opening quote and the first quote
that is not escaped, and decoding it never misses the character of an escape. So no
reading of a source reports a literal that is cut off. -/
theorem quoted_tokens_aligned (tiers : TierTable) (source : String) :
    (∀ lexeme ∈ tokenize source, ∀ width quote, lexeme.token.kind.Quotes width quote →
      ∃ body, lexeme.token.text = width.mark ++ quote :: (body ++ [quote]) ∧
        Lexicon.FirstQuote quote body ∧
        Literal.quotedBody width quote lexeme.token.text = some body ∧
        ∀ units, decodeUnits units body ≠ .error .truncated) ∧
    ∀ findings ∈ [readConstant tiers source, readInitializer tiers source],
      ∀ span cause, (span, cause) ∈ diagnostics findings →
        ¬ Opens "unterminated literal" cause.message ∧
          ¬ Opens "escape sequence is missing its character" cause.message := by
  constructor
  · intro lexeme member width quote quotes
    have isWord := isWord_of_mem member quotes.notError
    obtain ⟨body, text, units⟩ := Lexicon.isWord_quoted quotes isWord
    refine ⟨body, text, units.firstQuote quotes.notBackslash, ?_,
      fun _ => Item.decodeUnits_complete units⟩
    rw [text, Literal.quotedBody_word]
  · intro findings isReading span cause member
    have aligned : ¬ cause.Misaligned := by
      simp only [List.mem_cons, List.not_mem_nil, or_false] at isReading
      rcases isReading with rfl | rfl
      · exact aligned_of_caused ((Initializer.caused_steps tiers).single _) member
      · exact aligned_of_caused ((Initializer.caused_steps tiers).read _) member
    obtain ⟨opening, listed, opens⟩ := cause.message_opens aligned
    exact Cause.apart_of_opens listed opens

/-- A run of backslashes may end in front of the closing quote, and a quote may be
escaped behind the digits of an escape. -/
theorem quoted_tokens_aligned_backslashes :
    let source := "\x7b\"a\\\\\\\\\", L\"\\101\\\"8\", 'ab'\x7d"
    let run : Token := ⟨.string, ['"', 'a', '\\', '\\', '\\', '\\', '"']⟩
    let quote : Token := ⟨.wideString, ['L', '"', '\\', '1', '0', '1', '\\', '"', '8', '"']⟩
    Lexicon.FirstQuote '"' ['a', '\\', '\\', '\\', '\\'] ∧
    Literal.quotedBody .narrow '"' run.text = some ['a', '\\', '\\', '\\', '\\'] ∧
    Lexicon.FirstQuote '"' ['\\', '1', '0', '1', '\\', '"', '8'] ∧
    Literal.quotedBody .wide '"' quote.text = some ['\\', '1', '0', '1', '\\', '"', '8'] ∧
    (∀ units, decodeUnits units ['\\', '1', '0', '1', '\\', '"', '8'] ≠ .error .truncated) ∧
    (⟨22, 26⟩, .escape (.multiCharacter 2)) ∈ diagnostics (readInitializer .standard source) ∧
    ¬ Opens "unterminated literal" (Cause.escape (.multiCharacter 2)).message := by
  intro source run quote
  have isRun : (⟨run, ⟨1, 8⟩⟩ : Lexeme) ∈ tokenize source := by decide +kernel
  have isQuote : (⟨quote, ⟨10, 20⟩⟩ : Lexeme) ∈ tokenize source := by decide +kernel
  have reported : (⟨22, 26⟩, .escape (.multiCharacter 2)) ∈
      diagnostics (readInitializer .standard source) := by decide +kernel
  obtain ⟨tokens, messages⟩ := quoted_tokens_aligned .standard source
  obtain ⟨runBody, _, runFirst, runCut, _⟩ := tokens _ isRun _ _ .string
  obtain ⟨quoteBody, _, quoteFirst, quoteCut, complete⟩ := tokens _ isQuote _ _ .wideString
  cases Option.some.inj runCut
  cases Option.some.inj quoteCut
  have apart := messages _ (List.mem_cons_of_mem _ List.mem_cons_self) _ _ reported
  exact ⟨runFirst, runCut, quoteFirst, quoteCut, complete, reported, apart.1⟩

end TypedLiteral

import TypedLiteral.Proofs.Initializer
import TypedLiteral.Proofs.Span

/-!
The text of an entry alone. Its tokens and the trivia between them are found again
in that text, only their spans are counted from its start, so the entry is read
there as it is read in its place. A list of the grammar is therefore the row of
what its entries give by themselves.
-/
namespace TypedLiteral

def Span.shift (offset : Nat) (span : Span) : Span := ⟨offset + span.start, offset + span.stop⟩

def Lexeme.shift (offset : Nat) (lexeme : Lexeme) : Lexeme :=
  ⟨lexeme.token, lexeme.span.shift offset⟩

namespace Token

theorem place_shift (offset start : Nat) (tokens : List Token) :
    place (offset + start) tokens = (place start tokens).map (Lexeme.shift offset) := by
  induction tokens generalizing start with
  | nil => rfl
  | cons token rest ih =>
      simp only [place, List.map_cons, Nat.add_assoc, ih]
      rfl

theorem place_append (offset : Nat) (first last : List Token) :
    place offset (first ++ last) =
      place offset first ++ place (offset + Utf8.size (texts first)) last := by
  induction first generalizing offset with
  | nil => rfl
  | cons token first ih =>
      simp only [List.cons_append, place, ih, texts_cons, Utf8.size_append, Nat.add_assoc]

theorem place_tokens (offset : Nat) (tokens : List Token) :
    (place offset tokens).map Lexeme.token = tokens := by
  induction tokens generalizing offset with
  | nil => rfl
  | cons token rest ih => rw [place, List.map_cons, ih]

theorem place_cut {offset : Nat} {tokens : List Token} {first last : List Lexeme}
    (cut : place offset tokens = first ++ last) :
    ∃ before after, tokens = before ++ after ∧ first = place offset before ∧
      last = place (offset + Utf8.size (texts before)) after := by
  induction first generalizing offset tokens with
  | nil => exact ⟨[], tokens, rfl, rfl, cut.symm⟩
  | cons lexeme first ih =>
      cases tokens with
      | nil => cases cut
      | cons token tokens =>
          obtain ⟨rfl, later⟩ := List.cons.inj cut
          obtain ⟨before, after, rfl, same, rest⟩ := ih later
          refine ⟨token :: before, after, rfl, by rw [same, place], ?_⟩
          rw [rest, texts_cons, Utf8.size_append, Nat.add_assoc]

theorem place_cons {offset : Nat} {tokens : List Token} {lexeme : Lexeme} {rest : List Lexeme}
    (cut : place offset tokens = lexeme :: rest) :
    ∃ after, tokens = lexeme.token :: after ∧
      lexeme.span = ⟨offset, offset + Utf8.size lexeme.token.text⟩ ∧
      rest = place (offset + Utf8.size lexeme.token.text) after := by
  cases tokens with
  | nil => cases cut
  | cons token tokens =>
      obtain ⟨rfl, later⟩ := List.cons.inj cut
      exact ⟨tokens, rfl, rfl, later.symm⟩

end Token

theorem significant_append (first last : List Lexeme) :
    significant (first ++ last) = significant first ++ significant last :=
  List.filter_append _ _

theorem significant_cut {all before after : List Lexeme} {lexeme : Lexeme}
    (found : significant all = before ++ lexeme :: after) :
    ∃ front back, all = front ++ lexeme :: back ∧ significant front = before ∧
      significant back = after := by
  -- Trivia in front of the lexeme are counted to what is before it.
  obtain ⟨first, last, rfl, earlier, later⟩ := List.filter_eq_append_iff.mp found
  obtain ⟨trivia, back, rfl, passed, _, further⟩ := List.filter_eq_cons_iff.mp later
  refine ⟨first ++ trivia, back, by simp, ?_, further⟩
  rw [significant_append, significant, earlier, significant, List.filter_eq_nil_iff.mpr passed,
    List.append_nil]

theorem trivia_of_significant {all : List Lexeme} (found : significant all = []) :
    ∀ lexeme ∈ all, lexeme.token.kind.isTrivia = true := by
  intro lexeme member
  simpa using List.filter_eq_nil_iff.mp found lexeme member

/-- The tokens of an entry and the trivia between them, among the tokens of a
source. -/
structure Entry.LiesIn (entry : Entry) (source : List Char) (first middle last : List Token) :
    Prop where
  cut : Token.split source = first ++ (middle ++ last)
  words : ∀ token ∈ middle, token.kind ≠ .error
  lexemes : entry.lexemes = significant (Token.place (Utf8.size (Token.texts first)) middle)
  span : entry.span = ⟨Utf8.size (Token.texts first),
    Utf8.size (Token.texts first) + Utf8.size (Token.texts middle)⟩

theorem Kind.not_error_of_trivia {kind : Kind} (isTrivia : kind.isTrivia = true) :
    kind ≠ .error := by
  rintro rfl
  cases isTrivia

section LiesIn

variable {source : String} {before after : List Lexeme}

theorem Entry.plain_liesIn {literal : Lexeme}
    (isLiteral : literal.token.kind ∈ [.int, .float, .char, .wideChar, .string, .wideString])
    (found : significant (tokenize source) = before ++ literal :: after) :
    ∃ first middle last,
      (Entry.plain literal isLiteral).LiesIn source.toList first middle last := by
  obtain ⟨front, back, cut, _, _⟩ := significant_cut found
  obtain ⟨first, rest, tokens, _, placed⟩ := Token.place_cut cut
  obtain ⟨last, rfl, span, _⟩ := Token.place_cons placed.symm
  rw [Nat.zero_add] at span
  have solid := Kind.solid_of_literal (Kind.isLiteral_iff.mpr isLiteral)
  refine ⟨first, [literal.token], last, ?_⟩
  constructor
  · exact tokens
  · simpa using solid.notError
  · simp [Entry.lexemes, Token.place, significant, solid.notTrivia, ← span]
  · simpa [Entry.span, Token.texts] using span

theorem Entry.signed_liesIn {mark : Sign} {sign number : Lexeme}
    (isSign : (sign.token.kind, mark) ∈ [(.plus, .plus), (.minus, .minus)])
    (isNumber : number.token.kind ∈ [.int, .float])
    (found : significant (tokenize source) = before ++ sign :: number :: after) :
    ∃ first middle last,
      (Entry.signed mark sign number isSign isNumber).LiesIn source.toList first middle last := by
  obtain ⟨front, back, cut, _, rest⟩ := significant_cut found
  -- What is between the sign and the number is trivia, and belongs to the text of the entry.
  obtain ⟨inside, further, rfl, trivia, _⟩ := @significant_cut back [] _ _ rest
  obtain ⟨first, placed, tokens, _, same⟩ := Token.place_cut cut
  obtain ⟨tail, rfl, signSpan, between⟩ := Token.place_cons same.symm
  obtain ⟨middle, last, rfl, insidePlaced, numberPlaced⟩ := Token.place_cut between.symm
  obtain ⟨last, rfl, numberSpan, _⟩ := Token.place_cons numberPlaced.symm
  rw [Nat.zero_add] at signSpan numberSpan insidePlaced
  have solidSign := Kind.solid_of_sign (Kind.sign?_iff.mpr isSign)
  have solidNumber :=
    Kind.solid_of_literal (Kind.literal_of_numeric (Kind.isNumeric_iff.mpr isNumber))
  have silent : ∀ token ∈ middle, token.kind ≠ .error := by
    intro token member
    rw [← Token.place_tokens _ middle, ← insidePlaced] at member
    obtain ⟨lexeme, isInside, rfl⟩ := List.mem_map.mp member
    exact Kind.not_error_of_trivia (trivia_of_significant trivia lexeme isInside)
  have placed : Token.place (Utf8.size (Token.texts first))
      (sign.token :: (middle ++ [number.token])) = sign :: (inside ++ [number]) := by
    rw [Token.place, Token.place_append, ← insidePlaced, Token.place, ← numberSpan, ← signSpan]
    rfl
  refine ⟨first, sign.token :: (middle ++ [number.token]), last, ?_⟩
  constructor
  · rw [tokens, List.cons_append, List.append_assoc, List.singleton_append]
  · simpa [or_imp, forall_and, solidSign.notError, solidNumber.notError] using silent
  · rw [placed]
    simpa [Entry.lexemes, significant, solidSign.notTrivia, solidNumber.notTrivia]
      using trivia_of_significant trivia
  · simp only [Entry.span, signSpan, numberSpan, Token.texts_cons, Token.texts_append,
      Utf8.size_append, Nat.add_assoc]
    simp [Token.texts, Utf8.size]

theorem Entry.liesIn {entry : Entry}
    (found : significant (tokenize source) = before ++ (entry.lexemes ++ after)) :
    ∃ first middle last, entry.LiesIn source.toList first middle last := by
  cases entry with
  | plain literal isLiteral => exact plain_liesIn isLiteral found
  | signed mark sign number isSign isNumber => exact signed_liesIn isSign isNumber found

end LiesIn

theorem Entry.LiesIn.text {entry : Entry} {source : List Char} {first middle last : List Token}
    (lies : entry.LiesIn source first middle last) :
    entry.span.text? source = some (Token.texts middle) := by
  have tiled := Token.texts_split source
  rw [lies.cut, Token.texts_append, Token.texts_append] at tiled
  rw [lies.span, ← tiled]
  exact Span.text_between _ _ _

theorem significant_shift (offset : Nat) (lexemes : List Lexeme) :
    significant (lexemes.map (Lexeme.shift offset)) =
      (significant lexemes).map (Lexeme.shift offset) := by
  rw [significant, List.filter_map]
  rfl

theorem Entry.unshift {entry : Entry} {offset : Nat} {words : List Lexeme}
    (same : entry.lexemes = words.map (Lexeme.shift offset)) :
    ∃ alone : Entry, words = alone.lexemes ∧ alone.span.shift offset = entry.span ∧
      ∀ tiers, alone.value tiers = entry.value tiers := by
  cases entry with
  | plain literal isLiteral =>
      obtain ⟨word, rfl, rfl⟩ := List.map_eq_singleton_iff.mp same.symm
      exact ⟨.plain word isLiteral, rfl, rfl, fun _ => rfl⟩
  | signed mark sign number isSign isNumber =>
      obtain ⟨first, _, rfl, rfl, later⟩ := List.map_eq_cons_iff.mp same.symm
      obtain ⟨second, rfl, rfl⟩ := List.map_eq_singleton_iff.mp later
      exact ⟨.signed mark first second isSign isNumber, rfl, rfl, fun _ => rfl⟩

namespace Entry

def excerpt (source : String) (entry : Entry) : String :=
  String.ofList ((entry.span.text? source.toList).getD [])

/-- What the text of an entry gives as a source of its own, moved to the entry's
place. -/
def isolated (tiers : TierTable) (source : String) (entry : Entry) :
    Except (List (Span × Cause)) (Span × Constant) :=
  match constantOf (readConstant tiers (entry.excerpt source)) with
  | .ok found => .ok (found.1.shift entry.span.start, found.2)
  | .error faults => .error (faults.map fun fault => (fault.1.shift entry.span.start, fault.2))

variable {source : String} {before after : List Lexeme} {entry : Entry}

theorem excerpt_text (found : significant (tokenize source) = before ++ (entry.lexemes ++ after)) :
    entry.span.text? source.toList = some (entry.excerpt source).toList := by
  obtain ⟨_, _, _, lies⟩ := liesIn found
  simp [excerpt, lies.text]

theorem excerpt_lexemes
    (found : significant (tokenize source) = before ++ (entry.lexemes ++ after)) :
    ∃ alone : Entry, significant (tokenize (entry.excerpt source)) = alone.lexemes ∧
      alone.span.shift entry.span.start = entry.span ∧
      ∀ tiers, alone.value tiers = entry.value tiers := by
  obtain ⟨first, middle, last, lies⟩ := liesIn found
  have tokens : tokenize (entry.excerpt source) = Token.place 0 middle := by
    rw [tokenize, excerpt, lies.text, Option.getD_some, String.toList_ofList,
      Token.split_excerpt lies.cut lies.words]
  have moved := lies.lexemes
  rw [← Nat.add_zero (Utf8.size _), Token.place_shift, significant_shift, ← tokens] at moved
  rw [show entry.span.start = Utf8.size (Token.texts first) by rw [lies.span]]
  exact unshift moved

theorem isolated_eq (tiers : TierTable)
    (found : significant (tokenize source) = before ++ (entry.lexemes ++ after)) :
    entry.isolated tiers source =
      match entry.value tiers with
      | .ok value => .ok (entry.span, value)
      | .error cause => .error [(entry.span, cause)] := by
  obtain ⟨alone, same, span, values⟩ := excerpt_lexemes found
  have read : readConstant tiers (entry.excerpt source) = alone.findings tiers alone.span := by
    rw [readConstant, findingsIn]
    simp only [same]
    exact Initializer.single_entry tiers alone _
  rw [isolated, read, Initializer.constantOf_entry, values]
  cases entry.value tiers <;> simp [span]

end Entry

theorem Separated.mem {words : List Lexeme} {entries : List Entry}
    (separated : Separated words entries) (entry : Entry) (member : entry ∈ entries) :
    ∃ before after, words = before ++ (entry.lexemes ++ after) := by
  induction separated with
  | one single =>
      obtain rfl := List.mem_singleton.mp member
      exact ⟨[], [], by simp⟩
  | more first comma words entries _ _ ih =>
      rcases List.mem_cons.mp member with rfl | later
      · exact ⟨[], comma :: words, rfl⟩
      · obtain ⟨before, after, rfl⟩ := ih later
        exact ⟨first.lexemes ++ comma :: before, after, by simp⟩

theorem Braced.mem {words : List Lexeme} {entries : List Entry} (braced : Braced words entries)
    (entry : Entry) (member : entry ∈ entries) :
    ∃ before after, words = before ++ (entry.lexemes ++ after) := by
  cases braced with
  | empty => cases member
  | full opening words ending _ _ separated _ =>
      obtain ⟨before, after, rfl⟩ := separated.mem entry member
      exact ⟨opening :: before, after ++ ending, by simp⟩

/-- A list of the grammar is the row of what its entries give by themselves: every
entry has a text, whose constant or single diagnostic is found in the list as well,
in its order and moved to the place of the entry. -/
theorem list_of_excerpts (tiers : TierTable) (source : String) (entries : List Entry)
    (braced : Braced (significant (tokenize source)) entries) :
    (∀ entry ∈ entries, entry.span.text? source.toList = some (entry.excerpt source).toList) ∧
    constants (readInitializer tiers source) = entries.flatMap (fun entry =>
      match entry.isolated tiers source with
      | .ok found => [found]
      | .error _ => []) ∧
    diagnostics (readInitializer tiers source) = entries.flatMap (fun entry =>
      match entry.isolated tiers source with
      | .ok _ => []
      | .error faults => faults) ∧
    ∀ entry ∈ entries, ((∃ found, entry.isolated tiers source = .ok found) ↔
        entry.Evaluates tiers) ∧
      ∀ faults, entry.isolated tiers source = .error faults → ∃ fault, faults = [fault] := by
  have row : readInitializer tiers source =
      entries.flatMap fun entry => entry.findings tiers entry.span :=
    Initializer.read_written tiers (.braced _ _ braced) _
  have alone : ∀ entry ∈ entries, entry.isolated tiers source =
      match entry.value tiers with
      | .ok value => .ok (entry.span, value)
      | .error cause => .error [(entry.span, cause)] := by
    intro entry member
    obtain ⟨before, after, found⟩ := braced.mem entry member
    exact Entry.isolated_eq tiers found
  refine ⟨?_, ?_, ?_, ?_⟩
  · intro entry member
    obtain ⟨before, after, found⟩ := braced.mem entry member
    exact Entry.excerpt_text found
  · rw [row, constants_flatMap]
    refine List.flatMap_congr fun entry member => ?_
    rw [alone entry member, Entry.constants_findings]
    cases entry.value tiers <;> rfl
  · rw [row, diagnostics_flatMap]
    refine List.flatMap_congr fun entry member => ?_
    rw [alone entry member, Entry.diagnostics_findings]
    cases entry.value tiers <;> rfl
  · intro entry member
    rw [alone entry member]
    cases result : entry.value tiers with
    | ok value => simp [Entry.Evaluates, result]
    | error cause =>
        refine ⟨by simp [Entry.Evaluates, result], ?_⟩
        intro faults same
        exact ⟨_, (Except.error.inj same).symm⟩

/-- The sign and its number are one entry although a comment stands between them;
the fault of the other entry is the one that its text has alone. -/
theorem list_of_two_excerpts :
    let number := Entry.signed .minus ⟨⟨.minus, ['-']⟩, ⟨1, 2⟩⟩ ⟨⟨.int, ['1']⟩, ⟨6, 7⟩⟩
      (by decide) (by decide)
    let character := Entry.plain ⟨⟨.char, ['\'', 'a', 'b', '\'']⟩, ⟨8, 12⟩⟩ (by decide)
    Braced (significant (tokenize "\x7b-/**/1,'ab',\x7d")) [number, character] ∧
      number.excerpt "\x7b-/**/1,'ab',\x7d" = "-/**/1" ∧
      diagnostics (readInitializer .standard "\x7b-/**/1,'ab',\x7d") =
        [(⟨8, 12⟩, .escape (.multiCharacter 2))] := by
  intro number character
  have words : significant (tokenize "\x7b-/**/1,'ab',\x7d") =
      ⟨⟨.leftBrace, ['\x7b']⟩, ⟨0, 1⟩⟩ :: (number.lexemes ++ ⟨⟨.comma, [',']⟩, ⟨7, 8⟩⟩ ::
        (character.lexemes ++ ⟨⟨.comma, [',']⟩, ⟨12, 13⟩⟩ ::
          [⟨⟨.rightBrace, ['\x7d']⟩, ⟨13, 14⟩⟩])) := by decide +kernel
  have braced : Braced (significant (tokenize "\x7b-/**/1,'ab',\x7d")) [number, character] := by
    rw [words]
    exact .more number rfl (.more character rfl (.empty _ _ rfl rfl))
  obtain ⟨_, _, faults, _⟩ := list_of_excerpts .standard _ _ braced
  exact ⟨braced, by decide +kernel, faults.trans (by decide +kernel)⟩

end TypedLiteral

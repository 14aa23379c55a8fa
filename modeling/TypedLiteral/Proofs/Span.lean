import TypedLiteral.Finding
import TypedLiteral.Proofs.Token

/-!
Tokens lie in the source in their order, none of them is empty, and none reaches
past the end. So a span that starts where a token starts has the place of that
token.
-/
namespace TypedLiteral

namespace Utf8

theorem size_pos {text : List Char} (nonempty : text ≠ []) : 0 < size text := by
  obtain ⟨c, rest, rfl⟩ := List.exists_cons_of_ne_nil nonempty
  have positive := c.utf8Size_pos
  rw [size]
  omega

theorem append_inj {first other second rest : List Char}
    (same : first ++ second = other ++ rest) (equal : size first = size other) :
    first = other ∧ second = rest := by
  have cut := cut_size first second
  rw [same, equal, cut_size] at cut
  cases cut
  exact ⟨rfl, rfl⟩

end Utf8

namespace Token

theorem split_nonempty {source : List Char} {token : Token} (member : token ∈ split source) :
    token.text ≠ [] := by
  obtain ⟨first, last, cut⟩ := List.append_of_mem member
  exact (split_cons (split_append cut).2).2.1

theorem place_bounds {offset : Nat} {tokens : List Token}
    (nonempty : ∀ token ∈ tokens, token.text ≠ []) {lexeme : Lexeme}
    (member : lexeme ∈ place offset tokens) :
    offset ≤ lexeme.span.start ∧ lexeme.span.start < lexeme.span.stop ∧
      lexeme.span.stop ≤ offset + Utf8.size (texts tokens) := by
  obtain ⟨first, last, rfl, span⟩ := mem_place member
  have positive := Utf8.size_pos (nonempty lexeme.token (by simp))
  rw [span]
  simp only [texts_append, texts_cons, Utf8.size_append]
  omega

theorem place_ordered (offset : Nat) (tokens : List Token)
    (nonempty : ∀ token ∈ tokens, token.text ≠ []) :
    (place offset tokens).Pairwise fun first second => first.span.stop ≤ second.span.start := by
  induction tokens generalizing offset with
  | nil => exact .nil
  | cons token rest ih =>
      have others := (List.forall_mem_cons.mp nonempty).2
      refine List.pairwise_cons.mpr ⟨?_, ih _ others⟩
      intro later member
      exact (place_bounds others member).1

end Token

theorem head_of_mem {source : String} {lexeme : Lexeme} (member : lexeme ∈ tokenize source) :
    ∃ before rest, source.toList = before ++ (lexeme.token.text ++ rest) ∧
      lexeme.span = ⟨Utf8.size before, Utf8.size (before ++ lexeme.token.text)⟩ ∧
      Token.IsHead (lexeme.token.text ++ rest) lexeme.token := by
  obtain ⟨first, last, tokens, span⟩ := Token.mem_place member
  obtain ⟨tiled, later⟩ := Token.split_append tokens
  obtain ⟨_, _, head, _⟩ := Token.split_cons later
  rw [Nat.zero_add, Nat.zero_add] at span
  exact ⟨Token.texts first, Token.texts last, tiled, span, head⟩

/-- The token that starts behind these characters is the head of what is left. -/
theorem head_of_start {source : String} {lexeme : Lexeme} {before rest : List Char}
    (member : lexeme ∈ tokenize source) (cut : source.toList = before ++ rest)
    (starts : lexeme.span.start = Utf8.size before) : Token.IsHead rest lexeme.token ∧
      lexeme.span = ⟨Utf8.size before, Utf8.size (before ++ lexeme.token.text)⟩ := by
  obtain ⟨front, last, tiled, span, head⟩ := head_of_mem member
  rw [span] at starts
  obtain ⟨rfl, rfl⟩ := Utf8.append_inj (cut.symm.trans tiled) starts.symm
  exact ⟨head, span⟩

theorem Span.text_between (before text after : List Char) :
    Span.text? ⟨Utf8.size before, Utf8.size before + Utf8.size text⟩ (before ++ (text ++ after)) =
      some text := by
  simp [Span.text?, Utf8.cut_size]

/-- The span of a token is a slice of the source, and the text of the token. -/
theorem text_of_mem {source : String} {lexeme : Lexeme} (member : lexeme ∈ tokenize source) :
    lexeme.span.text? source.toList = some lexeme.token.text := by
  obtain ⟨before, rest, tiled, span, _⟩ := head_of_mem member
  rw [span, tiled, Utf8.size_append]
  exact Span.text_between _ _ _

theorem isWord_of_mem {source : String} {lexeme : Lexeme} (member : lexeme ∈ tokenize source)
    (notError : lexeme.token.kind ≠ .error) :
    Lexicon.IsWord lexeme.token.kind lexeme.token.text := by
  obtain ⟨_, _, _, _, head⟩ := head_of_mem member
  exact head.isWord notError

theorem significant_bounds {source : String} {lexeme : Lexeme}
    (member : lexeme ∈ significant (tokenize source)) :
    lexeme.span.start < lexeme.span.stop ∧ lexeme.span.stop ≤ Utf8.size source.toList := by
  have inside := Token.place_bounds (fun _ => Token.split_nonempty) (List.mem_filter.mp member).1
  rw [Token.texts_split, Nat.zero_add] at inside
  exact inside.2

theorem significant_ordered (source : String) :
    (significant (tokenize source)).Pairwise fun first second =>
      first.span.stop ≤ second.span.start :=
  (Token.place_ordered 0 _ fun _ => Token.split_nonempty).filter _

section Order

variable {source : String} {first second : Nat} {one other : Lexeme}
variable (atFirst : (significant (tokenize source))[first]? = some one)
variable (atSecond : (significant (tokenize source))[second]? = some other)
include atFirst atSecond

theorem significant_before (before : first < second) : one.span.stop ≤ other.span.start := by
  obtain ⟨firstBound, rfl⟩ := List.getElem?_eq_some_iff.mp atFirst
  obtain ⟨secondBound, rfl⟩ := List.getElem?_eq_some_iff.mp atSecond
  exact List.pairwise_iff_getElem.mp (significant_ordered source) _ _ firstBound secondBound before

theorem significant_monotone (upTo : first ≤ second) :
    one.span.start ≤ other.span.start ∧ one.span.stop ≤ other.span.stop := by
  rcases Nat.eq_or_lt_of_le upTo with rfl | before
  · cases atFirst.symm.trans atSecond
    exact ⟨Nat.le_refl _, Nat.le_refl _⟩
  · have apart := significant_before atFirst atSecond before
    have firstLong := (significant_bounds (List.mem_of_getElem? atFirst)).1
    have secondLong := (significant_bounds (List.mem_of_getElem? atSecond)).1
    omega

theorem significant_start_inj (same : one.span.start = other.span.start) : first = second := by
  have firstLong := (significant_bounds (List.mem_of_getElem? atFirst)).1
  have secondLong := (significant_bounds (List.mem_of_getElem? atSecond)).1
  -- Of two tokens the later one starts where the earlier one, which is not empty, has stopped.
  rcases Nat.lt_trichotomy first second with before | equal | after
  · have apart := significant_before atFirst atSecond before
    omega
  · exact equal
  · have apart := significant_before atSecond atFirst after
    omega

end Order

theorem Place.span_start (lexemes : List Lexeme) (size : Nat) (place : Place) :
    (place.span lexemes size).start = match lexemes[place.first]? with
      | some lexeme => lexeme.span.start
      | none => size := by
  unfold Place.span
  dsimp only
  split
  · split <;> rfl
  · rfl

theorem Place.span_stop (lexemes : List Lexeme) (size : Nat) {place : Place}
    (proper : place.first < place.past) :
    (place.span lexemes size).stop = match lexemes[place.past - 1]? with
      | some lexeme => lexeme.span.stop
      | none => size := by
  cases last : lexemes[place.past - 1]? <;> simp [Place.span, proper, last]

theorem Place.first_of_start {source : String} {index : Nat} {lexeme : Lexeme} {place : Place}
    (found : (significant (tokenize source))[index]? = some lexeme)
    (starts : (place.span (significant (tokenize source)) (Utf8.size source.toList)).start =
      lexeme.span.start) : place.first = index := by
  rw [Place.span_start] at starts
  cases other : (significant (tokenize source))[place.first]? with
  | some word =>
      rw [other] at starts
      exact significant_start_inj other found starts
  | none =>
      -- Behind the last token a span starts at the end of the source, where no token starts.
      rw [other] at starts
      have inside := significant_bounds (List.mem_of_getElem? found)
      simp only at starts
      omega

end TypedLiteral

import Mathlib.Data.List.Chain
import TypedLiteral.Proofs.Excerpt

/-!
Tokens tile the source. Their spans lie side by side from its start to its end, and
their texts make it up again. A token takes all that its kind can take, so blanks that
touch are one token; and a token that is no error is found again in its own text.
-/
namespace TypedLiteral

/-- Spans that are not empty and lie side by side, from one position to another. -/
inductive Tiling : Nat → List Span → Nat → Prop where
  | done (here : Nat) : Tiling here [] here
  | tile (start stop last : Nat) (later : List Span) (long : start < stop)
      (tiling : Tiling stop later last) : Tiling start (⟨start, stop⟩ :: later) last

theorem Lexicon.isWord_whitespace {word : List Char} : IsWord .whitespace word ↔
    word ≠ [] ∧ ∀ c ∈ word, c ∈ [' ', '\t', '\r', '\n'] := by
  rw [← (letter_oneOf [' ', '\t', '\r', '\n']).plus]
  constructor
  · rintro ⟨pattern, rule, matched⟩
    obtain rfl : pattern = whitespace := by simpa [rules] using rule
    exact matched
  · intro matched
    exact ⟨whitespace, by simp [rules], matched⟩

namespace Token

theorem place_tiling (offset : Nat) (tokens : List Token)
    (nonempty : ∀ token ∈ tokens, token.text ≠ []) :
    Tiling offset ((place offset tokens).map Lexeme.span) (offset + Utf8.size (texts tokens)) := by
  induction tokens generalizing offset with
  | nil => exact .done offset
  | cons token rest ih =>
      obtain ⟨here, others⟩ := List.forall_mem_cons.mp nonempty
      have later := ih (offset + Utf8.size token.text) others
      rw [place, List.map_cons, texts_cons, Utf8.size_append, ← Nat.add_assoc]
      exact .tile _ _ _ _ (Nat.lt_add_of_pos_right (Utf8.size_pos here)) later

variable {kind further : Kind} {word more rest : List Char} {text : List Char}

theorem Chosen.greedy (chosen : Chosen Lexicon.rules (word ++ (more ++ rest)) kind word)
    (isWord : Lexicon.IsWord further (word ++ more)) : more = [] := by
  obtain ⟨pattern, rule, matched⟩ := isWord
  have start : word ++ more <+: word ++ (more ++ rest) := by
    rw [← List.append_assoc]
    exact List.prefix_append _ _
  have upTo := chosen.longest _ rule _ start matched
  rw [List.length_append] at upTo
  exact List.length_eq_zero_iff.mp (by omega)

/-- Two tokens that do not both hold blanks. -/
def Apart (first second : Token) : Prop := ¬ (first.kind = .whitespace ∧ second.kind = .whitespace)

theorem apart_of_heads {first second : Token}
    (head : IsHead (first.text ++ (second.text ++ rest)) first)
    (next : IsHead (second.text ++ rest) second) : Apart first second := by
  rintro ⟨blank, alsoBlank⟩
  have firstWord := head.isWord (by rw [blank]; decide)
  have secondWord := next.isWord (by rw [alsoBlank]; decide)
  rw [blank, Lexicon.isWord_whitespace] at firstWord
  rw [alsoBlank, Lexicon.isWord_whitespace] at secondWord
  -- The blanks of both would be one word.
  have joined : Lexicon.IsWord .whitespace (first.text ++ second.text) := by
    apply Lexicon.isWord_whitespace.mpr
    refine ⟨List.append_ne_nil_of_left_ne_nil firstWord.1 _, ?_⟩
    intro c member
    exact (List.mem_append.mp member).elim (firstWord.2 c) (secondWord.2 c)
  rcases head with chosen | ⟨_, isError⟩
  · exact secondWord.1 (chosen.greedy joined)
  · rw [blank] at isError
    cases isError

theorem split_apart {tokens : List Token} (cut : split text = tokens) : tokens.IsChain Apart := by
  induction tokens generalizing text with
  | nil => exact .nil
  | cons token rest ih =>
      obtain ⟨tiled, _, head, later⟩ := split_cons cut
      refine List.isChain_cons.mpr ⟨?_, ih later⟩
      intro next member
      obtain ⟨rest, rfl⟩ := List.head?_eq_some_iff.mp member
      obtain ⟨_, _, nextHead, _⟩ := split_cons later
      rw [tiled] at head
      exact apart_of_heads head nextHead

end Token

/-- The tokens of a source lie side by side from its start to its end, none of them empty,
and each is cut out of it between characters; joined they are the source. No two
neighbours hold blanks, and a token that is no error is the only token of its text. -/
theorem tokens_tile (source : String) :
    Tiling 0 ((tokenize source).map Lexeme.span) (Utf8.size source.toList) ∧
    (∀ lexeme ∈ tokenize source, lexeme.span.text? source.toList = some lexeme.token.text) ∧
    (tokenize source).flatMap (fun lexeme => lexeme.token.text) = source.toList ∧
    (tokenize source).IsChain (fun first second =>
      ¬ (first.token.kind = .whitespace ∧ second.token.kind = .whitespace)) ∧
    ∀ lexeme ∈ tokenize source, lexeme.token.kind ≠ .error →
      tokenize (String.ofList lexeme.token.text) =
        [⟨lexeme.token, ⟨0, Utf8.size lexeme.token.text⟩⟩] := by
  refine ⟨?_, fun _ => text_of_mem, ?_, ?_, ?_⟩
  · have tiling := Token.place_tiling 0 (Token.split source.toList) fun _ => Token.split_nonempty
    rwa [Token.texts_split, Nat.zero_add] at tiling
  · rw [← Token.texts_split source.toList, Token.texts, ← Token.place_tokens 0 (Token.split _),
      List.flatMap_map]
    rfl
  · have apart := Token.split_apart (Eq.refl (Token.split source.toList))
    rw [← Token.place_tokens 0 (Token.split _), List.isChain_map] at apart
    exact apart
  · intro lexeme member notError
    obtain ⟨first, last, cut, _⟩ := Token.mem_place member
    have alone := @Token.split_excerpt _ first [lexeme.token] last cut (by simpa using notError)
    rw [Token.texts_cons, Token.texts, List.flatMap_nil, List.append_nil] at alone
    simp [tokenize, alone, Token.place]

theorem tokens_tile_blanks :
    let source := "089 \n\t'é"
    let blanks : Token := ⟨.whitespace, [' ', '\n', '\t']⟩
    Tiling 0 [⟨0, 3⟩, ⟨3, 6⟩, ⟨6, 9⟩] (Utf8.size source.toList) ∧
      Span.text? ⟨3, 6⟩ source.toList = some blanks.text ∧
      tokenize (String.ofList blanks.text) = [⟨blanks, ⟨0, 3⟩⟩] := by
  -- The blanks between the two errors are one token.
  intro source blanks
  have member : (⟨blanks, ⟨3, 6⟩⟩ : Lexeme) ∈ tokenize source := by decide +kernel
  have spans : (tokenize source).map Lexeme.span = [⟨0, 3⟩, ⟨3, 6⟩, ⟨6, 9⟩] := by decide +kernel
  obtain ⟨tiling, slices, _, _, alone⟩ := tokens_tile source
  have slice := slices _ member
  have again := alone _ member (by decide)
  rw [spans] at tiling
  exact ⟨tiling, slice, again⟩

end TypedLiteral

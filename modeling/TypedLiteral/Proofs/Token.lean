import TypedLiteral.Proofs.Lexicon
import TypedLiteral.Token

/-!
Tokens are longest matches. The search over the rules finds the longest word at the
start of a text, which is of one kind only; the scan takes it off and goes on with
the rest, so the texts of the tokens make up the source again. What a token is
depends on the text from its place on, and a token that is a word stays the same
when the text is cut short behind it.
-/
namespace TypedLiteral.Token

open Lexicon (IsWord)

/-- The word that a list of rules finds at the start of a text. -/
structure Chosen (rules : List (Kind × Pattern)) (text : List Char) (kind : Kind)
    (word : List Char) : Prop where
  nonempty : word ≠ []
  start : word <+: text
  matched : ∃ pattern, (kind, pattern) ∈ rules ∧ pattern.Matches word
  longest : ∀ rule ∈ rules, ∀ other, other <+: text → rule.2.Matches other →
    other.length ≤ word.length

def Unmatched (rules : List (Kind × Pattern)) (text : List Char) : Prop :=
  ∀ rule ∈ rules, rule.2.Unmatched text

variable {rules : List (Kind × Pattern)} {kind : Kind} {pattern : Pattern} {text word : List Char}

theorem Chosen.first (found : pattern.IsLongest text word)
    (others : ∀ rule ∈ rules, ∀ other, other <+: text → rule.2.Matches other →
      other.length ≤ word.length) : Chosen ((kind, pattern) :: rules) text kind word where
  nonempty := found.nonempty
  start := found.start
  matched := ⟨pattern, List.mem_cons_self, found.matched⟩
  longest := List.forall_mem_cons.mpr ⟨found.longest, others⟩

theorem Chosen.later {first : Kind × Pattern} (chosen : Chosen rules text kind word)
    (shorter : ∀ other, other <+: text → first.2.Matches other → other.length ≤ word.length) :
    Chosen (first :: rules) text kind word where
  nonempty := chosen.nonempty
  start := chosen.start
  matched := by
    obtain ⟨pattern, member, matched⟩ := chosen.matched
    exact ⟨pattern, List.mem_cons_of_mem _ member, matched⟩
  longest := List.forall_mem_cons.mpr ⟨shorter, chosen.longest⟩

theorem unmatched_length (unmatched : pattern.Unmatched text) (other : List Char)
    (start : other <+: text) (matched : pattern.Matches other) : other.length ≤ word.length := by
  cases other with
  | nil => exact Nat.zero_le _
  | cons c rest => exact absurd matched (unmatched _ start (List.cons_ne_nil _ _))

theorem best_cases (text : List Char) (rules : List (Kind × Pattern)) :
    (∃ kind word, Chosen rules text kind word ∧ best text rules = some (kind, word.length)) ∨
      (Unmatched rules text ∧ best text rules = none) := by
  induction rules with
  | nil => exact .inr ⟨by simp [Unmatched], rfl⟩
  | cons rule rules ih =>
      obtain ⟨first, pattern⟩ := rule
      rcases pattern.longest_cases text with ⟨word, found, answer⟩ | ⟨unmatched, answer⟩
      · rcases ih with ⟨kind, other, chosen, last⟩ | ⟨none, last⟩
        · -- Both have a word: the later one is taken only where it is longer.
          by_cases shorter : word.length < other.length
          · refine .inl ⟨kind, other, chosen.later ?_, ?_⟩
            · intro rival start matched
              exact Nat.le_trans (found.longest rival start matched) (Nat.le_of_lt shorter)
            · simp [best, answer, last, longer, shorter]
          · refine .inl ⟨first, word, .first found ?_, ?_⟩
            · intro rule member rival start matched
              exact Nat.le_trans (chosen.longest rule member rival start matched)
                (Nat.le_of_not_lt shorter)
            · simp [best, answer, last, longer, shorter]
        · refine .inl ⟨first, word, .first found ?_, ?_⟩
          · intro rule member rival start matched
            exact unmatched_length (none rule member) rival start matched
          · simp [best, answer, last, longer]
      · -- The first rule may stand for the empty word, which is no match.
        rcases ih with ⟨kind, word, chosen, last⟩ | ⟨none, last⟩
        · refine .inl ⟨kind, word, chosen.later (unmatched_length unmatched), ?_⟩
          simp [best, answer, last, longer]
        · refine .inr ⟨List.forall_mem_cons.mpr ⟨unmatched, none⟩, ?_⟩
          simp [best, answer, last, longer]

theorem head_cases (text : List Char) :
    (∃ kind word, Chosen Lexicon.rules text kind word ∧ head text = (kind, word.length)) ∨
      (Unmatched Lexicon.rules text ∧ (head text).1 = .error) := by
  rcases best_cases text Lexicon.rules with ⟨kind, word, chosen, answer⟩ | ⟨unmatched, answer⟩
  · exact .inl ⟨kind, word, chosen, by simp [head, answer]⟩
  · exact .inr ⟨unmatched, by simp [head, answer]⟩

theorem Chosen.not_unmatched (chosen : Chosen rules text kind word) : ¬ Unmatched rules text := by
  intro unmatched
  obtain ⟨pattern, member, matched⟩ := chosen.matched
  exact unmatched _ member word chosen.start chosen.nonempty matched

theorem Chosen.unique {second : Kind} {other : List Char}
    (chosen : Chosen Lexicon.rules text kind word)
    (again : Chosen Lexicon.rules text second other) : kind = second ∧ word = other := by
  obtain ⟨pattern, member, matched⟩ := chosen.matched
  obtain ⟨rival, rivalMember, rivalMatched⟩ := again.matched
  -- Both are at the start of the text, so they are equal where they are equally long.
  have lengths : word.length = other.length := Nat.le_antisymm
    (again.longest _ member word chosen.start matched)
    (chosen.longest _ rivalMember other again.start rivalMatched)
  have same : word = other := (List.prefix_of_prefix_length_le chosen.start again.start
    (Nat.le_of_eq lengths)).eq_of_length lengths
  subst same
  exact ⟨Lexicon.kind_unique chosen.matched again.matched, rfl⟩

theorem head_of_chosen (chosen : Chosen Lexicon.rules text kind word) :
    head text = (kind, word.length) := by
  rcases head_cases text with ⟨other, rival, found, answer⟩ | ⟨unmatched, _⟩
  · obtain ⟨rfl, rfl⟩ := found.unique chosen
    exact answer
  · exact absurd unmatched chosen.not_unmatched

theorem Chosen.shorten {short : List Char} (chosen : Chosen rules text kind word)
    (kept : word <+: short) (shorter : short <+: text) : Chosen rules short kind word where
  nonempty := chosen.nonempty
  start := kept
  matched := chosen.matched
  longest := fun rule member other start matched =>
    chosen.longest rule member other (start.trans shorter) matched

def texts (tokens : List Token) : List Char := tokens.flatMap Token.text

theorem texts_append (first last : List Token) :
    texts (first ++ last) = texts first ++ texts last :=
  List.flatMap_append

theorem texts_cons (token : Token) (rest : List Token) :
    texts (token :: rest) = token.text ++ texts rest := rfl

theorem split_of_ne_nil (nonempty : text ≠ []) :
    split text = ⟨(head text).1, text.take (head text).2⟩ :: split (text.drop (head text).2) := by
  obtain ⟨c, rest, rfl⟩ := List.exists_cons_of_ne_nil nonempty
  rw [split]

theorem texts_split (source : List Char) : texts (split source) = source := by
  induction source using split.induct with
  | case1 => simp [split, texts]
  | case2 c rest found ih =>
      rw [split_of_ne_nil (List.cons_ne_nil c rest), texts_cons, ih]
      exact List.take_append_drop _ _

/-- The token at the start of a text is the chosen word, or an error where no rule
has a word. -/
def IsHead (text : List Char) (token : Token) : Prop :=
  Chosen Lexicon.rules text token.kind token.text ∨
    (Unmatched Lexicon.rules text ∧ token.kind = .error)

theorem IsHead.isWord {token : Token} (head : IsHead text token) (notError : token.kind ≠ .error) :
    IsWord token.kind token.text := by
  rcases head with chosen | ⟨_, isError⟩
  · exact chosen.matched
  · exact absurd isError notError

theorem split_cons {token : Token} {rest : List Token} (cut : split text = token :: rest) :
    text = token.text ++ texts rest ∧ token.text ≠ [] ∧ IsHead text token ∧
      split (texts rest) = rest := by
  have nonempty : text ≠ [] := by
    rintro rfl
    simp [split] at cut
  have tiled := texts_split text
  rw [cut, texts_cons] at tiled
  rw [split_of_ne_nil nonempty] at cut
  obtain ⟨rfl, rfl⟩ := List.cons.inj cut
  refine ⟨tiled.symm, ?_, ?_, by rw [texts_split]⟩
  · have positive := head_pos text
    simp only [ne_eq, List.take_eq_nil_iff, nonempty, or_false]
    omega
  · rcases head_cases text with ⟨kind, word, chosen, answer⟩ | ⟨unmatched, answer⟩
    · left
      rw [answer, ← List.prefix_iff_eq_take.mp chosen.start]
      exact chosen
    · exact .inr ⟨unmatched, answer⟩

theorem split_append {first last : List Token} (cut : split text = first ++ last) :
    text = texts first ++ texts last ∧ split (texts last) = last := by
  induction first generalizing text with
  | nil =>
      rw [List.nil_append] at cut
      rw [← cut, texts_split]
      exact ⟨rfl, rfl⟩
  | cons token first ih =>
      obtain ⟨tiled, _, _, later⟩ := split_cons cut
      obtain ⟨same, done⟩ := ih later
      exact ⟨by rw [tiled, same, texts_cons, List.append_assoc], done⟩

theorem split_chosen {rest : List Token} {token : Token}
    (chosen : Chosen Lexicon.rules (token.text ++ texts rest) token.kind token.text) :
    split (token.text ++ texts rest) = token :: split (texts rest) := by
  have nonempty : token.text ++ texts rest ≠ [] := by simp [chosen.nonempty]
  rw [split_of_ne_nil nonempty, head_of_chosen chosen]
  simp

/-- Tokens that are words are found again in their own text: what came before and
after them in the source does not count. -/
theorem split_excerpt {first middle last : List Token}
    (cut : split text = first ++ (middle ++ last)) (words : ∀ token ∈ middle, token.kind ≠ .error) :
    split (texts middle) = middle := by
  -- The tokens behind the excerpt are kept on the way: each word is chosen in front of them.
  have later := (split_append cut).2
  clear cut
  induction middle with
  | nil => simp [texts, split]
  | cons token middle ih =>
      obtain ⟨notError, others⟩ := List.forall_mem_cons.mp words
      obtain ⟨_, _, found, next⟩ := split_cons later
      rcases found with chosen | ⟨_, error⟩
      · have shorter : token.text ++ texts middle <+: texts (token :: middle ++ last) := by
          rw [List.cons_append, texts_cons, texts_append, ← List.append_assoc]
          exact List.prefix_append _ _
        rw [texts_cons, split_chosen (chosen.shorten (List.prefix_append _ _) shorter),
          ih others next]
      · exact absurd error notError

theorem mem_place {offset : Nat} {tokens : List Token} {lexeme : Lexeme}
    (member : lexeme ∈ place offset tokens) :
    ∃ first last, tokens = first ++ lexeme.token :: last ∧
      lexeme.span = ⟨offset + Utf8.size (texts first),
        offset + Utf8.size (texts first ++ lexeme.token.text)⟩ := by
  induction tokens generalizing offset with
  | nil => cases member
  | cons token rest ih =>
      rw [place] at member
      rcases List.mem_cons.mp member with rfl | later
      · exact ⟨[], rest, rfl, by simp [texts, Utf8.size]⟩
      · obtain ⟨first, last, rfl, span⟩ := ih later
        refine ⟨token :: first, last, rfl, ?_⟩
        rw [span]
        simp [texts_cons, Utf8.size_append, Nat.add_assoc]

end Token

/-- Every token is the longest word of any kind at its place, and of the only kind
that has this word. Where no kind has a word, it is an error. -/
theorem tokenize_longest_word (source : String) (lexeme : Lexeme)
    (member : lexeme ∈ tokenize source) :
    ∃ before rest, source.toList = before ++ (lexeme.token.text ++ rest) ∧
      lexeme.span = ⟨Utf8.size before, Utf8.size (before ++ lexeme.token.text)⟩ ∧
      ((∃ kind word, word ≠ [] ∧ word <+: lexeme.token.text ++ rest ∧ Lexicon.IsWord kind word) →
        (∀ kind word, word <+: lexeme.token.text ++ rest → Lexicon.IsWord kind word →
          word.length ≤ lexeme.token.text.length) ∧
        ∀ kind, Lexicon.IsWord kind lexeme.token.text ↔ kind = lexeme.token.kind) ∧
      ((¬ ∃ kind word, word ≠ [] ∧ word <+: lexeme.token.text ++ rest ∧
        Lexicon.IsWord kind word) → lexeme.token.kind = .error) := by
  obtain ⟨first, last, cut, span⟩ := Token.mem_place member
  obtain ⟨tiled, later⟩ := Token.split_append cut
  obtain ⟨_, _, found, _⟩ := Token.split_cons later
  refine ⟨Token.texts first, Token.texts last, tiled, by simpa using span, ?_, ?_⟩
  · rintro ⟨kind, word, nonempty, start, pattern, rule, matched⟩
    rcases found with chosen | ⟨unmatched, _⟩
    · refine ⟨?_, ?_⟩
      · rintro kind word start ⟨pattern, rule, matched⟩
        exact chosen.longest _ rule word start matched
      · intro kind
        constructor
        · intro isWord
          exact Lexicon.kind_unique isWord chosen.matched
        · rintro rfl
          exact chosen.matched
    · exact absurd matched (unmatched _ rule word start nonempty)
  · intro wordless
    rcases found with chosen | ⟨_, error⟩
    · exact absurd ⟨_, _, chosen.nonempty, chosen.start, chosen.matched⟩ wordless
    · exact error

/-- The scan reads on after the zero in the hope of a hexadecimal digit, and falls
back to the zero alone. -/
theorem tokenize_falls_back :
    (⟨⟨.int, ['0']⟩, ⟨0, 1⟩⟩ : Lexeme) ∈ tokenize "0xG" ∧
      (∀ kind word, word <+: ['0', 'x', 'G'] → Lexicon.IsWord kind word → word.length ≤ 1) ∧
      ∀ kind, Lexicon.IsWord kind ['0'] ↔ kind = .int := by
  have member : (⟨⟨.int, ['0']⟩, ⟨0, 1⟩⟩ : Lexeme) ∈ tokenize "0xG" := by decide +kernel
  obtain ⟨before, rest, tiled, span, word, _⟩ := tokenize_longest_word "0xG" _ member
  have first : before = [] := by
    cases before with
    | nil => rfl
    | cons c before =>
        have size := congrArg Span.start span
        have := c.utf8Size_pos
        simp only [Utf8.size] at size
        omega
  subst first
  obtain rfl : rest = ['x', 'G'] := (List.cons.inj tiled).2.symm
  have zero : Lexicon.IsWord .int ['0'] :=
    ⟨Lexicon.int, by simp [Lexicon.rules], by
      simp [Lexicon.int, Pattern.matches_alt, Lexicon.matches_octalInt]⟩
  obtain ⟨longest, only⟩ := word ⟨.int, ['0'], by simp, by simp, zero⟩
  exact ⟨member, longest, only⟩

end TypedLiteral

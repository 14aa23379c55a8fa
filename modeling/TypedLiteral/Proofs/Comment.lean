import Mathlib.Algebra.Group.Nat.Even
import Mathlib.Data.List.DropRight
import TypedLiteral.Initializer
import TypedLiteral.Proofs.Span

/-!
Where a block comment ends. Stars inside of a comment are taken in pairs, each star
with the character behind it, so the star of a closing mark may be taken together
with a star in front of it. A closing mark counts only where an even number of stars
stands right in front of it: a comment ends at the first such mark, and a comment
without one is an error.
-/
namespace TypedLiteral

namespace Lexicon

open Pattern

variable {c : Char} {text inside other body word : List Char}

/-- A closing mark stands behind this beginning of a body. -/
def Closes (inside body : List Char) : Prop := inside ++ ['*', '/'] <+: body

def starsBefore (text : List Char) : Nat := (text.rtakeWhile (· == '*')).length

/-- No closing mark in the text has an even number of stars in front of it. -/
def Unclosed (text : List Char) : Prop := ∀ inside, Closes inside text → ¬ Even (starsBefore inside)

/-- The first closing mark of a body that is admitted stands behind `inside`. -/
structure IsFirst (admits : List Char → Prop) (inside body : List Char) : Prop where
  closes : Closes inside body
  admitted : admits inside
  least : ∀ other, Closes other body → admits other → inside.length ≤ other.length

instance (inside body : List Char) : Decidable (Closes inside body) :=
  inferInstanceAs (Decidable (_ <+: _))

theorem starsBefore_snoc (text : List Char) (c : Char) :
    starsBefore (text ++ [c]) = if c = '*' then starsBefore text + 1 else 0 := by
  rw [starsBefore, List.rtakeWhile_concat]
  by_cases star : c = '*' <;> simp [star, starsBefore]

theorem star_of_odd (odd : ¬ Even (starsBefore text)) : ∃ front, text = front ++ ['*'] := by
  rcases List.eq_nil_or_concat' text with rfl | ⟨front, c, rfl⟩
  · exact absurd ⟨0, rfl⟩ odd
  · rw [starsBefore_snoc] at odd
    split at odd
    · next star => exact ⟨front, by rw [star]⟩
    · exact absurd ⟨0, rfl⟩ odd

theorem closes_snoc : Closes inside (text ++ [c]) ↔
    Closes inside text ∨ (c = '/' ∧ text = inside ++ ['*']) := by
  have mark : inside ++ ['*', '/'] = inside ++ ['*'] ++ ['/'] := by simp
  rw [Closes, List.prefix_concat_iff, mark, List.append_singleton_inj, ← mark, or_comm, and_comm]
  constructor
  · exact Or.imp_right fun ends => ⟨ends.1.symm, ends.2.symm⟩
  · exact Or.imp_right fun ends => ⟨ends.1.symm, ends.2.symm⟩

theorem unclosed_snoc : Unclosed (text ++ [c]) ↔
    Unclosed text ∧ (c = '/' → Even (starsBefore text)) := by
  constructor
  · intro unclosed
    refine ⟨fun inside closes => unclosed inside (closes_snoc.mpr (.inl closes)), ?_⟩
    rintro rfl
    by_contra odd
    obtain ⟨front, rfl⟩ := star_of_odd odd
    rw [starsBefore_snoc, if_pos rfl, Nat.even_add_one, not_not] at odd
    exact unclosed front (closes_snoc.mpr (.inr ⟨rfl, rfl⟩)) odd
  · rintro ⟨unclosed, ends⟩ inside closes
    rcases closes_snoc.mp closes with before | ⟨slash, rfl⟩
    · exact unclosed inside before
    · have even := ends slash
      rwa [starsBefore_snoc, if_pos rfl, Nat.even_add_one] at even

def Whole (text : List Char) : Prop := (Pattern.star commentUnit).Matches text

/-- Whole units, and a star whose unit goes on. -/
def Waiting (text : List Char) : Prop := ∃ front, text = front ++ ['*'] ∧ Whole front

theorem commentUnit_snoc : commentUnit.Matches (text ++ [c]) ↔
    (text = [] ∧ c ≠ '*') ∨ (text = ['*'] ∧ c ≠ '/') := by
  simp only [commentUnit, matches_alt, matches_after, noneOf, matches_one]
  rcases text with _ | ⟨first, _ | ⟨second, rest⟩⟩ <;> simp

theorem whole_snoc : Whole (text ++ [c]) ↔ (c ≠ '*' ∧ Whole text) ∨ (c ≠ '/' ∧ Waiting text) := by
  rw [Whole, matches_star_snoc]
  simp only [commentUnit_snoc]
  constructor
  · rintro ⟨front, last, rfl, whole, ⟨rfl, plain⟩ | ⟨rfl, further⟩⟩
    · exact .inl ⟨plain, by rwa [List.append_nil]⟩
    · exact .inr ⟨further, front, rfl, whole⟩
  · rintro (⟨plain, whole⟩ | ⟨further, front, rfl, whole⟩)
    · exact ⟨text, [], by simp, whole, .inl ⟨rfl, plain⟩⟩
    · exact ⟨front, ['*'], rfl, whole, .inr ⟨rfl, further⟩⟩

theorem waiting_snoc : Waiting (text ++ [c]) ↔ c = '*' ∧ Whole text := by
  constructor
  · rintro ⟨front, same, whole⟩
    obtain ⟨rfl, rfl⟩ := List.append_singleton_inj.mp same
    exact ⟨rfl, whole⟩
  · rintro ⟨rfl, whole⟩
    exact ⟨text, rfl, whole⟩

/-- Whether the units of an unclosed text are whole depends on the stars at its end. -/
theorem units_iff (text : List Char) :
    (Whole text ↔ Unclosed text ∧ Even (starsBefore text)) ∧
      (Waiting text ↔ Unclosed text ∧ ¬ Even (starsBefore text)) := by
  induction text using List.reverseRecOn with
  | nil =>
      have whole : Whole [] := .done _
      have unclosed : Unclosed [] := by simp [Unclosed, Closes]
      have even : Even (starsBefore []) := ⟨0, rfl⟩
      simp [whole, unclosed, even, Waiting]
  | append_singleton text c ih =>
      rw [whole_snoc, waiting_snoc, unclosed_snoc, starsBefore_snoc, ih.1, ih.2]
      by_cases star : c = '*'
      · simp [star, Nat.even_add_one]
      · by_cases slash : c = '/'
        · simp [slash]
        · by_cases even : Even (starsBefore text) <;> simp [star, slash, even]

theorem matches_blockComment : blockComment.Matches word ↔
    ∃ inside, word = '/' :: '*' :: (inside ++ ['*', '/']) ∧ Whole inside := by
  constructor
  · intro matched
    obtain ⟨_, _, rfl, opened, closed⟩ := matches_seq.mp matched
    obtain ⟨_, inside, rfl, opening, whole⟩ := matches_seq.mp opened
    obtain ⟨_, rfl, star⟩ := (matches_after '/').mp opening
    obtain ⟨_, rfl, rfl⟩ := (letter_char '*' _).mp star
    obtain ⟨_, rfl, slash⟩ := (matches_after '*').mp closed
    obtain ⟨_, rfl, rfl⟩ := (letter_char '/' _).mp slash
    exact ⟨inside, rfl, whole⟩
  · rintro ⟨inside, rfl, whole⟩
    have opening : (Pattern.seq (char '/') (char '*')).Matches ['/', '*'] :=
      (matches_after '/').mpr ⟨['*'], rfl, (letter_char '*' _).mpr ⟨'*', rfl, rfl⟩⟩
    have closing : (Pattern.seq (char '*') (char '/')).Matches ['*', '/'] :=
      (matches_after '*').mpr ⟨['/'], rfl, (letter_char '/' _).mpr ⟨'/', rfl, rfl⟩⟩
    exact matches_seq.mpr ⟨'/' :: '*' :: inside, ['*', '/'], rfl,
      matches_seq.mpr ⟨['/', '*'], inside, rfl, opening, whole⟩, closing⟩

theorem Closes.within (first : Closes inside body) (last : Closes other body)
    (upTo : inside.length ≤ other.length) : Closes inside other ∨ inside = other := by
  have marked : Closes inside (other ++ ['*'] ++ ['/']) := by
    rw [List.append_assoc]
    exact List.prefix_of_prefix_length_le first last (by simpa using upTo)
  rcases closes_snoc.mp marked with within | ⟨_, same⟩
  · rcases closes_snoc.mp within with within | ⟨slash, _⟩
    · exact .inl within
    · cases slash
  · exact .inr (List.append_cancel_right same).symm

theorem Closes.shorter (closes : Closes inside text) : inside.length < text.length := by
  have length := closes.length_le
  rw [List.length_append] at length
  exact Nat.lt_of_succ_lt length

theorem Closes.start (closes : Closes inside body) : inside <+: body :=
  (List.prefix_append inside _).trans closes

theorem IsFirst.unclosed (first : IsFirst (fun text => Even (starsBefore text)) inside body) :
    Unclosed inside := by
  intro other closes even
  have behind := first.least other (closes.trans first.closes.start) even
  exact absurd closes.shorter (Nat.not_lt_of_le behind)

theorem isFirst_of_take {admits : List Char → Prop} (closes : Closes inside body)
    (admitted : admits inside)
    (none : ∀ count < inside.length, Closes (body.take count) body → ¬ admits (body.take count)) :
    IsFirst admits inside body where
  closes := closes
  admitted := admitted
  least := by
    intro other otherCloses otherAdmitted
    by_contra shorter
    have same := List.prefix_iff_eq_take.mp otherCloses.start
    have excluded := none other.length (Nat.lt_of_not_le shorter)
    rw [← same] at excluded
    exact excluded otherCloses otherAdmitted

theorem rule_of_comment {rule : Kind × Pattern} (member : rule ∈ rules)
    (start : word <+: '/' :: '*' :: body) (nonempty : word ≠ []) (matched : rule.2.Matches word) :
    ∃ inside, word = '/' :: '*' :: (inside ++ ['*', '/']) ∧ Whole inside ∧ Closes inside body := by
  obtain ⟨first, rest, rfl⟩ := List.exists_cons_of_ne_nil nonempty
  obtain ⟨rfl, tail⟩ := List.cons_prefix_cons.mp start
  have isComment : Kind.comment = rule.1 := kindOf_rule rule member matched
  have listed : rule.2 = .alt blockComment lineComment := by
    obtain ⟨kind, pattern⟩ := rule
    cases isComment
    simpa [rules] using member
  rw [listed, matches_alt] at matched
  rcases matched with block | line
  · obtain ⟨inside, same, whole⟩ := matches_blockComment.mp block
    rw [same, List.cons_prefix_cons, List.cons_prefix_cons] at start
    exact ⟨inside, same, whole, start.2.2⟩
  · obtain ⟨_, _, same, opening, _⟩ := matches_seq.mp line
    obtain ⟨_, rfl, slash⟩ := (matches_after '/').mp opening
    obtain ⟨_, rfl, rfl⟩ := (letter_char '/' _).mp slash
    rw [same] at start
    simp at start

end Lexicon

namespace Token

open Lexicon

variable {inside body : List Char}

theorem chosen_comment (first : IsFirst (fun text => Even (starsBefore text)) inside body) :
    Chosen rules ('/' :: '*' :: body) .comment ('/' :: '*' :: (inside ++ ['*', '/'])) where
  nonempty := List.cons_ne_nil _ _
  start := List.cons_prefix_cons.mpr ⟨rfl, List.cons_prefix_cons.mpr ⟨rfl, first.closes⟩⟩
  matched := by
    have whole := (units_iff inside).1.mpr ⟨first.unclosed, first.admitted⟩
    have block := matches_blockComment.mpr ⟨inside, rfl, whole⟩
    exact ⟨.alt blockComment lineComment, by simp [rules], Pattern.matches_alt.mpr (.inl block)⟩
  longest := by
    intro rule member other start matched
    by_cases nonempty : other = []
    · simp [nonempty]
    · obtain ⟨further, rfl, whole, closes⟩ := rule_of_comment member start nonempty matched
      suffices upTo : further.length ≤ inside.length by simpa using upTo
      -- A longer comment would have the mark inside of it.
      by_contra longer
      have unclosed := ((units_iff further).1.mp whole).1
      rcases first.closes.within closes (Nat.le_of_not_le longer) with within | same
      · exact unclosed inside within first.admitted
      · exact longer (Nat.le_of_eq (congrArg List.length same.symm))

theorem unmatched_comment (unclosed : Unclosed body) :
    Unmatched rules ('/' :: '*' :: body) := by
  intro rule member word start nonempty matched
  obtain ⟨inside, _, whole, closes⟩ := rule_of_comment member start nonempty matched
  exact unclosed inside closes ((units_iff inside).1.mp whole).2

end Token

def Lexeme.blockComment (before inside : List Char) : Lexeme :=
  let word := '/' :: '*' :: (inside ++ ['*', '/'])
  ⟨⟨.comment, word⟩, ⟨Utf8.size before, Utf8.size (before ++ word)⟩⟩

section Comment

open Lexicon

variable {source : String} {lexeme : Lexeme} {before inside body : List Char}

theorem comment_of_first (member : lexeme ∈ tokenize source)
    (cut : source.toList = before ++ '/' :: '*' :: body)
    (starts : lexeme.span.start = Utf8.size before)
    (first : IsFirst (fun text => Even (starsBefore text)) inside body) :
    lexeme = .blockComment before inside := by
  obtain ⟨head, span⟩ := head_of_start member cut starts
  rcases head with chosen | ⟨unmatched, _⟩
  · obtain ⟨kind, text⟩ := chosen.unique (Token.chosen_comment first)
    obtain ⟨⟨_, _⟩, _⟩ := lexeme
    simp only at kind text span
    rw [Lexeme.blockComment, span, kind, text]
  · exact absurd unmatched (Token.chosen_comment first).not_unmatched

theorem error_of_unclosed (member : lexeme ∈ tokenize source)
    (cut : source.toList = before ++ '/' :: '*' :: body)
    (starts : lexeme.span.start = Utf8.size before) (unclosed : Unclosed body) :
    lexeme.token.kind = .error := by
  rcases (head_of_start member cut starts).1 with chosen | ⟨_, isError⟩
  · exact absurd (Token.unmatched_comment unclosed) chosen.not_unmatched
  · exact isError

end Comment

/-- A token that begins like a block comment ends at the first closing mark with an even
number of stars right in front of it, and is an error where there is no such mark. So
the comment ends at the very first closing mark exactly where that number is even. -/
theorem comment_ends_at_even_mark (source : String) (lexeme : Lexeme) (before body : List Char)
    (member : lexeme ∈ tokenize source) (cut : source.toList = before ++ '/' :: '*' :: body)
    (starts : lexeme.span.start = Utf8.size before) :
    (∀ inside, Lexicon.IsFirst (fun text => Even (Lexicon.starsBefore text)) inside body →
      lexeme = .blockComment before inside) ∧
    ((∀ inside, Lexicon.Closes inside body → ¬ Even (Lexicon.starsBefore inside)) →
      lexeme.token.kind = .error) ∧
    ∀ inside, Lexicon.IsFirst (fun _ => True) inside body →
      (lexeme = .blockComment before inside ↔ Even (Lexicon.starsBefore inside)) := by
  refine ⟨fun inside => comment_of_first member cut starts,
    error_of_unclosed member cut starts, ?_⟩
  intro inside first
  constructor
  · rintro rfl
    obtain ⟨head, _⟩ := head_of_start member cut starts
    rcases head with chosen | ⟨_, isError⟩
    · obtain ⟨pattern, rule, matched⟩ := chosen.matched
      obtain ⟨other, same, whole, _⟩ :=
        Lexicon.rule_of_comment rule chosen.start chosen.nonempty matched
      obtain rfl : inside = other := by simpa [Lexeme.blockComment] using same
      exact ((Lexicon.units_iff inside).1.mp whole).2
    · cases isError
  · intro even
    apply comment_of_first member cut starts
    exact ⟨first.closes, even, fun other closes _ => first.least other closes trivial⟩

/-- Two stars in front of the closing mark are a pair, and the comment ends there. -/
theorem comment_ends_behind_pair :
    let source := "/** a ***/2"
    let inside := ['*', ' ', 'a', ' ', '*', '*']
    Lexeme.blockComment [] inside ∈ tokenize source ∧
      Lexicon.IsFirst (fun _ => True) inside (inside ++ ['*', '/', '2']) ∧
      Even (Lexicon.starsBefore inside) := by
  intro source inside
  have member : Lexeme.blockComment [] inside ∈ tokenize source := by decide +kernel
  have first : Lexicon.IsFirst (fun _ => True) inside (inside ++ ['*', '/', '2']) := by
    apply Lexicon.isFirst_of_take
    · decide
    · trivial
    · decide
  obtain ⟨_, _, ends⟩ := comment_ends_at_even_mark source (.blockComment [] inside) []
    (inside ++ ['*', '/', '2']) member (by decide +kernel) rfl
  exact ⟨member, first, (ends inside first).mp rfl⟩

/-- One star in front of the first closing mark takes the star of the mark along. The
comment goes on to the mark behind it, and the constant between them is lost. -/
theorem comment_swallows_constant :
    let source := "/***/1/* */"
    let body := ['*', '*', '/', '1', '/', '*', ' ', '*', '/']
    source.toList = '/' :: '*' :: body ∧ Lexicon.IsFirst (fun _ => True) ['*'] body ∧
      tokenize source = [.blockComment [] ['*', '*', '/', '1', '/', '*', ' ']] ∧
      Lexeme.blockComment [] ['*'] ∉ tokenize source ∧
      constants (readConstant .standard source) = [] := by
  intro source body
  refine ⟨by decide +kernel, ?_, by decide +kernel, by decide +kernel, by decide +kernel⟩
  apply Lexicon.isFirst_of_take
  · decide
  · trivial
  · decide

end TypedLiteral

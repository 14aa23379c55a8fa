import Mathlib.Data.List.Infix
import TypedLiteral.Pattern

/-!
What a pattern stands for, one equivalence per form, and what running a pattern
over a text finds. The derivative by a character stands for the words that may
follow it, so the run keeps exactly the longest non-empty word that the pattern
stands for at the start of the text.
-/
namespace TypedLiteral.Pattern

variable {pattern first second left right body : Pattern} {accepts : Char → Bool}
variable {c : Char} {word text : List Char}

theorem matches_never : ¬ Matches .never word := by
  intro matched
  cases matched

theorem matches_empty : Matches .empty word ↔ word = [] := by
  constructor
  · rintro ⟨⟩
    rfl
  · rintro rfl
    exact .empty

theorem matches_one : Matches (.one accepts) word ↔ ∃ c, word = [c] ∧ accepts c = true := by
  constructor
  · rintro ⟨⟩
    exact ⟨_, rfl, ‹_›⟩
  · rintro ⟨c, rfl, accepted⟩
    exact .one accepts c accepted

theorem matches_seq : Matches (.seq first second) word ↔
    ∃ head tail, word = head ++ tail ∧ Matches first head ∧ Matches second tail := by
  constructor
  · rintro ⟨⟩
    exact ⟨_, _, rfl, ‹_›, ‹_›⟩
  · rintro ⟨head, tail, rfl, matchesHead, matchesTail⟩
    exact .seq first second head tail matchesHead matchesTail

theorem matches_alt : Matches (.alt left right) word ↔ Matches left word ∨ Matches right word := by
  constructor
  · rintro (_ | _)
    · exact .inl ‹_›
    · exact .inr ‹_›
  · rintro (matched | matched)
    · exact .left left right word matched
    · exact .right left right word matched

theorem matches_star_nil : Matches (.star body) [] := .done body

/-- A round that reads nothing can be left out, so the first character is read by
the first round that counts. -/
theorem matches_star_cons : Matches (.star body) (c :: word) ↔
    ∃ head tail, word = head ++ tail ∧ Matches body (c :: head) ∧ Matches (.star body) tail := by
  constructor
  · intro matched
    -- The induction is on the rounds, so the pattern and the word become variables first.
    generalize starred : Pattern.star body = pattern at matched
    generalize whole : c :: word = text at matched
    induction matched with
    | done => cases whole
    | more inner head tail matchesHead matchesTail _ ih =>
        cases starred
        cases head with
        | nil =>
            -- A round without a character: the rounds behind it read the word.
            exact ih rfl whole
        | cons d head =>
            cases whole
            exact ⟨head, tail, rfl, matchesHead, matchesTail⟩
    | _ => cases starred
  · rintro ⟨head, tail, rfl, matchesHead, matchesTail⟩
    exact .more body (c :: head) tail matchesHead matchesTail

theorem matches_star_append {last : List Char} (matched : Matches (.star body) word)
    (further : Matches (.star body) last) : Matches (.star body) (word ++ last) := by
  generalize starred : Pattern.star body = pattern at matched
  induction matched with
  | done =>
      cases starred
      exact further
  | more inner head tail matchesHead _ _ ih =>
      cases starred
      rw [List.append_assoc]
      exact .more body head _ matchesHead (ih rfl)
  | _ => cases starred

theorem matches_star_snoc : Matches (.star body) (word ++ [c]) ↔
    ∃ front last, word = front ++ last ∧ Matches (.star body) front ∧
      Matches body (last ++ [c]) := by
  -- The last character is read by the last round that reads anything.
  constructor
  · intro matched
    generalize starred : Pattern.star body = pattern at matched
    generalize whole : word ++ [c] = text at matched
    induction matched generalizing word with
    | done => simp at whole
    | more inner head tail matchesHead _ _ ih =>
        cases starred
        rcases List.eq_nil_or_concat' tail with rfl | ⟨tail, d, rfl⟩
        · rw [List.append_nil] at whole
          subst whole
          exact ⟨[], word, rfl, .done body, matchesHead⟩
        · rw [← List.append_assoc] at whole
          obtain ⟨rfl, rfl⟩ := List.append_singleton_inj.mp whole
          obtain ⟨front, last, rfl, matchesFront, matchesLast⟩ := ih rfl rfl
          exact ⟨head ++ front, last, by simp, .more body head front matchesHead matchesFront,
            matchesLast⟩
    | _ => cases starred
  · rintro ⟨front, last, rfl, matchesFront, matchesLast⟩
    have once := Matches.more body (last ++ [c]) [] matchesLast (.done body)
    rw [List.append_nil] at once
    rw [List.append_assoc]
    exact matches_star_append matchesFront once

theorem nullable_iff : pattern.nullable = true ↔ Matches pattern [] := by
  induction pattern with
  | never => simp [nullable, matches_never]
  | empty => simp [nullable, matches_empty]
  | one => simp [nullable, matches_one]
  | seq first second ihFirst ihSecond => simp [nullable, matches_seq, ihFirst, ihSecond]
  | alt left right ihLeft ihRight => simp [nullable, matches_alt, ihLeft, ihRight]
  | star => simp [nullable, matches_star_nil]

theorem matches_andThen : Matches (first.andThen second) word ↔
    Matches (.seq first second) word := by
  unfold andThen
  split <;> simp [matches_seq, matches_never, matches_empty]

theorem matches_orElse : Matches (left.orElse right) word ↔
    Matches left word ∨ Matches right word := by
  unfold orElse
  split <;> simp [matches_alt, matches_never]

theorem matches_seq_cons : Matches (.seq first second) (c :: word) ↔
    (∃ head tail, word = head ++ tail ∧ Matches first (c :: head) ∧ Matches second tail) ∨
      (Matches first [] ∧ Matches second (c :: word)) := by
  rw [matches_seq]
  constructor
  · rintro ⟨head, tail, whole, matchesHead, matchesTail⟩
    cases head with
    | nil => exact .inr ⟨matchesHead, whole ▸ matchesTail⟩
    | cons d head =>
        cases whole
        exact .inl ⟨head, tail, rfl, matchesHead, matchesTail⟩
  · rintro (⟨head, tail, rfl, matchesHead, matchesTail⟩ | ⟨reads, matchesTail⟩)
    · exact ⟨c :: head, tail, rfl, matchesHead, matchesTail⟩
    · exact ⟨[], c :: word, rfl, reads, matchesTail⟩

theorem matches_derivative : Matches (pattern.derivative c) word ↔ Matches pattern (c :: word) := by
  induction pattern generalizing word with
  | never => simp [derivative, matches_never]
  | empty => simp [derivative, matches_never, matches_empty]
  | one accepts =>
      by_cases accepted : accepts c = true
      · simp [derivative, accepted, matches_empty, matches_one]
      · simp [derivative, accepted, matches_never, matches_one]
  | seq first second ihFirst ihSecond =>
      have later : Matches ((first.derivative c).andThen second) word ↔
          ∃ head tail, word = head ++ tail ∧ Matches first (c :: head) ∧ Matches second tail := by
        simp only [matches_andThen, matches_seq, ihFirst]
      rw [matches_seq_cons, ← later, ← nullable_iff]
      by_cases reads : first.nullable = true
      · simp [derivative, reads, matches_orElse, ihSecond]
      · simp [derivative, reads]
  | alt left right ihLeft ihRight => simp [derivative, matches_orElse, matches_alt, ihLeft, ihRight]
  | star body ih =>
      rw [derivative, matches_andThen, matches_seq, matches_star_cons]
      simp only [ih]

/-- A non-empty word at the start of a text that a pattern stands for, and no
longer one. -/
structure IsLongest (pattern : Pattern) (text word : List Char) : Prop where
  nonempty : word ≠ []
  start : word <+: text
  matched : Matches pattern word
  longest : ∀ other, other <+: text → Matches pattern other → other.length ≤ word.length

def Unmatched (pattern : Pattern) (text : List Char) : Prop :=
  ∀ word, word <+: text → word ≠ [] → ¬ Matches pattern word

theorem unmatched_nil : Unmatched pattern [] := by
  intro word start nonempty _
  exact nonempty (List.prefix_nil.mp start)

theorem unmatched_cons (unmatched : Unmatched (pattern.derivative c) text)
    (incomplete : (pattern.derivative c).nullable = false) : Unmatched pattern (c :: text) := by
  intro word start nonempty matched
  cases word with
  | nil => exact nonempty rfl
  | cons d rest =>
      obtain ⟨rfl, later⟩ := List.cons_prefix_cons.mp start
      have follows := matches_derivative.mpr matched
      cases rest with
      | nil => simp [nullable_iff.mpr follows] at incomplete
      | cons e rest => exact unmatched _ later (List.cons_ne_nil _ _) follows

theorem isLongest_single (unmatched : Unmatched (pattern.derivative c) text)
    (complete : (pattern.derivative c).nullable = true) : IsLongest pattern (c :: text) [c] where
  nonempty := List.cons_ne_nil _ _
  start := by simp
  matched := matches_derivative.mp (nullable_iff.mp complete)
  longest := by
    intro other start matched
    match other with
    | [] => simp
    | [_] => simp
    | d :: e :: rest =>
        obtain ⟨rfl, later⟩ := List.cons_prefix_cons.mp start
        exact absurd (matches_derivative.mpr matched) (unmatched _ later (List.cons_ne_nil _ _))

theorem IsLongest.cons (found : IsLongest (pattern.derivative c) text word) :
    IsLongest pattern (c :: text) (c :: word) where
  nonempty := List.cons_ne_nil _ _
  start := by simpa using found.start
  matched := matches_derivative.mp found.matched
  longest := by
    intro other start matched
    cases other with
    | nil => simp
    | cons d rest =>
        obtain ⟨rfl, later⟩ := List.cons_prefix_cons.mp start
        simpa using found.longest rest later (matches_derivative.mpr matched)

/-- A run answers with the longest word of the pattern, counted from where the run
began, or with the best answer so far where there is none. -/
theorem longestFrom_cases (text : List Char) (pattern : Pattern) (read : Nat) (best : Option Nat) :
    (∃ word, IsLongest pattern text word ∧
        pattern.longestFrom read best text = some (read + word.length)) ∨
      (Unmatched pattern text ∧ pattern.longestFrom read best text = best) := by
  induction text generalizing pattern read best with
  | nil => exact .inr ⟨unmatched_nil, rfl⟩
  | cons c rest ih =>
      rw [longestFrom]
      split
      · next stopped =>
          refine .inr ⟨?_, rfl⟩
          apply unmatched_cons
          · intro word _ _ matched
            exact matches_never (stopped ▸ matched)
          · rw [stopped]; rfl
      · rcases ih (pattern.derivative c) (read + 1)
          (if (pattern.derivative c).nullable then some (read + 1) else best) with
          ⟨word, found, answer⟩ | ⟨unmatched, answer⟩
        · refine .inl ⟨c :: word, found.cons, ?_⟩
          rw [answer, List.length_cons]
          congr 1
          omega
        · -- No later word: the answer of this step stays, if there is one.
          cases complete : (pattern.derivative c).nullable with
          | true =>
              refine .inl ⟨[c], isLongest_single unmatched complete, ?_⟩
              simpa [complete] using answer
          | false =>
              refine .inr ⟨unmatched_cons unmatched complete, ?_⟩
              simpa [complete] using answer

theorem longest_cases (pattern : Pattern) (text : List Char) :
    (∃ word, IsLongest pattern text word ∧ pattern.longest text = some word.length) ∨
      (Unmatched pattern text ∧ pattern.longest text = none) := by
  simpa [longest] using longestFrom_cases text pattern 0 none

end TypedLiteral.Pattern

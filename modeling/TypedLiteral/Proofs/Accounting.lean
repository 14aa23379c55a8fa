import TypedLiteral.Proofs.Listing
import TypedLiteral.Proofs.Span

/-!
Every literal is accounted for. It is part of one constant, or else of none, and then
a diagnostic covers it or it is named where it is skipped. What is found in one part
of the tokens leaves the other parts alone, so the accounts of a run are those of its
steps, one behind the other.
-/
namespace TypedLiteral

def Kind.Counts (kind : Kind) : Prop := kind.isLiteral = true ∨ kind = .error

def Place.Covers (place : Place) (index : Nat) : Prop := place.first ≤ index ∧ index < place.past

instance (place : Place) (index : Nat) : Decidable (place.Covers index) :=
  inferInstanceAs (Decidable (_ ∧ _))

theorem Kind.not_counts_of_sign {kind : Kind} {mark : Sign} (isSign : kind.sign? = some mark) :
    ¬ kind.Counts := by
  rintro (isLiteral | rfl)
  · rw [Entry.sign_of_literal isLiteral] at isSign
    cases isSign
  · cases isSign

theorem Kind.not_counts_of_punctuation {kind : Kind}
    (punctuates : kind.isDelimiter = true ∨ kind = .leftBrace) : ¬ kind.Counts := by
  rintro (isLiteral | rfl)
  · have solid := Kind.solid_of_literal isLiteral
    rcases punctuates with delimits | opens
    · rw [solid.notDelimiter] at delimits
      cases delimits
    · exact solid.notOpening opens
  · rcases punctuates with delimits | opens
    · cases delimits
    · cases opens

namespace Initializer

variable {tiers : TierTable} {index : Nat} {kind : Kind} {words more : List Lexeme}
variable {findings own later : List (Finding Place)}

def Outside (findings : List (Finding Place)) (index : Nat) : Prop :=
  ∀ found ∈ constants findings, ¬ found.1.Covers index

/-- What becomes of the token of this index and kind. -/
inductive Accounted (findings : List (Finding Place)) (index : Nat) (kind : Kind) : Prop where
  | kept (once : (constants findings).countP (fun found => found.1.Covers index) = 1)
  | reported (outside : Outside findings index) (place : Place) (cause : Cause)
      (member : (place, cause) ∈ diagnostics findings) (covers : place.Covers index)
  | skipped (outside : Outside findings index)
      (member : .skipped ⟨index, index + 1⟩ kind ∈ findings)

theorem Outside.append (first : Outside own index) (last : Outside later index) :
    Outside (own ++ later) index := by
  intro found member
  rw [constants_append] at member
  rcases List.mem_append.mp member with before | behind
  · exact first found before
  · exact last found behind

theorem Outside.count (outside : Outside findings index) :
    (constants findings).countP (fun found => found.1.Covers index) = 0 := by
  apply List.countP_eq_zero.mpr
  intro found member
  simpa using outside found member

theorem outside_of_none (none : constants findings = []) (index : Nat) :
    Outside findings index := by
  simp [Outside, none]

theorem Accounted.before (accounted : Accounted own index kind) (outside : Outside later index) :
    Accounted (own ++ later) index kind := by
  cases accounted with
  | kept once =>
      apply Accounted.kept
      rw [constants_append, List.countP_append, once, outside.count]
  | reported first place cause member covers =>
      apply Accounted.reported (first.append outside) place cause _ covers
      rw [diagnostics_append]
      exact List.mem_append_left _ member
  | skipped first member => exact .skipped (first.append outside) (List.mem_append_left _ member)

theorem Accounted.behind (outside : Outside own index) (accounted : Accounted later index kind) :
    Accounted (own ++ later) index kind := by
  cases accounted with
  | kept once =>
      apply Accounted.kept
      rw [constants_append, List.countP_append, once, outside.count]
  | reported last place cause member covers =>
      apply Accounted.reported (outside.append last) place cause _ covers
      rw [diagnostics_append]
      exact List.mem_append_right _ member
  | skipped last member => exact .skipped (outside.append last) (List.mem_append_right _ member)

/-- An entry stands among the words, the first of which has this index, and has the
value of the constant that is found there. -/
def Stands (tiers : TierTable) (index : Nat) (words : List Lexeme) (found : Place × Constant) :
    Prop :=
  ∃ (before : List Lexeme) (entry : Entry) (after : List Lexeme),
    words = before ++ (entry.lexemes ++ after) ∧
    found.1 = ⟨index + before.length, index + before.length + entry.lexemes.length⟩ ∧
    entry.value tiers = .ok found.2

theorem Stands.bounds {found : Place × Constant} (stands : Stands tiers index words found) :
    index ≤ found.1.first ∧ found.1.past ≤ index + words.length := by
  obtain ⟨before, entry, after, rfl, same, _⟩ := stands
  rw [same]
  simp only [List.length_append]
  omega

theorem Stands.before {found : Place × Constant} (stands : Stands tiers index words found)
    (more : List Lexeme) : Stands tiers index (words ++ more) found := by
  obtain ⟨before, entry, after, rfl, placed⟩ := stands
  exact ⟨before, entry, after ++ more, by simp, placed⟩

theorem Stands.behind {found : Place × Constant} (words : List Lexeme)
    (stands : Stands tiers (index + words.length) more found) :
    Stands tiers index (words ++ more) found := by
  obtain ⟨before, entry, after, rfl, same, evaluates⟩ := stands
  refine ⟨words ++ before, entry, after, by simp, ?_, evaluates⟩
  rw [same, List.length_append, Nat.add_assoc index]

/-- The constants among the findings stand among the words, and each word that has to
be accounted for is. -/
structure Accounts (tiers : TierTable) (index : Nat) (words : List Lexeme)
    (findings : List (Finding Place)) : Prop where
  stands : ∀ found ∈ constants findings, Stands tiers index words found
  accounted : ∀ offset word, words[offset]? = some word → word.token.kind.Counts →
    Accounted findings (index + offset) word.token.kind

theorem Accounts.append (first : Accounts tiers index words own)
    (last : Accounts tiers (index + words.length) more later) :
    Accounts tiers index (words ++ more) (own ++ later) where
  stands := by
    intro found member
    rw [constants_append] at member
    rcases List.mem_append.mp member with before | behind
    · exact (first.stands found before).before more
    · exact (last.stands found behind).behind words
  accounted := by
    intro offset word found counts
    rcases Nat.lt_or_ge offset words.length with inFirst | inLast
    · rw [List.getElem?_append_left inFirst] at found
      apply (first.accounted offset word found counts).before
      intro constant member covers
      have lower := (last.stands constant member).bounds.1
      have upper := covers.1
      omega
    · rw [List.getElem?_append_right inLast] at found
      have same : index + words.length + (offset - words.length) = index + offset := by omega
      have accounted := last.accounted _ word found counts
      rw [same] at accounted
      apply Accounted.behind _ accounted
      intro constant member covers
      have upper := (first.stands constant member).bounds.2
      have lower := covers.2
      omega

theorem Accounts.silent (none : constants findings = [])
    (idle : ∀ word ∈ words, ¬ word.token.kind.Counts) : Accounts tiers index words findings where
  stands := by simp [none]
  accounted := fun _ word found counts => absurd counts (idle word (List.mem_of_getElem? found))

theorem Accounts.word {word : Lexeme} (none : constants findings = [])
    (accounted : Accounted findings index word.token.kind) :
    Accounts tiers index [word] findings where
  stands := by simp [none]
  accounted := by
    intro offset other found _
    cases offset with
    | zero =>
        cases found
        exact accounted
    | succ offset => cases found

theorem Accounts.diagnosed (word : Lexeme) (cause : Cause) :
    Accounts tiers index [word] [.diagnostic ⟨index, index + 1⟩ cause] := by
  apply Accounts.word rfl
  exact .reported (outside_of_none rfl index) ⟨index, index + 1⟩ cause List.mem_cons_self
    ⟨Nat.le_refl index, Nat.lt_succ_self index⟩

theorem accounts_entry (tiers : TierTable) (index : Nat) (entry : Entry) :
    Accounts tiers index entry.lexemes
      (entry.findings tiers ⟨index, index + entry.lexemes.length⟩) := by
  have covered : ∀ offset word, entry.lexemes[offset]? = some word →
      Place.Covers ⟨index, index + entry.lexemes.length⟩ (index + offset) := by
    intro offset word found
    have short := (List.getElem?_eq_some_iff.mp found).1
    exact ⟨Nat.le_add_right index offset, Nat.add_lt_add_left short index⟩
  have kept := entry.constants_findings tiers (Place.mk index (index + entry.lexemes.length))
  have failed := entry.diagnostics_findings tiers (Place.mk index (index + entry.lexemes.length))
  cases evaluates : entry.value tiers with
  | ok value =>
      rw [evaluates] at kept
      constructor
      · rw [kept]
        intro found member
        obtain rfl := List.mem_singleton.mp member
        exact ⟨[], entry, [], by simp, rfl, evaluates⟩
      · intro offset word found _
        apply Accounted.kept
        rw [kept, List.countP_singleton, if_pos (by simpa using covered offset word found)]
  | error cause =>
      rw [evaluates] at kept failed
      constructor
      · simp [kept]
      · intro offset word found _
        apply Accounted.reported (outside_of_none kept _) _ cause _ (covered offset word found)
        rw [failed]
        exact List.mem_singleton_self _

theorem accounts_takes {element : Element} {taken rest : List Lexeme}
    (takes : element.Takes tiers index taken rest) :
    Accounts tiers index taken element.findings := by
  cases takes with
  | entry entry rest =>
      rw [Entry.element_findings]
      exact accounts_entry tiers index entry
  | stray word rest noLiteral unsigned => exact .diagnosed word _
  | misplaced mark sign word rest isSign noNumber =>
      -- The sign by itself is nothing to be accounted for.
      have first : Accounts tiers index [sign] [] := by
        apply Accounts.silent rfl
        simpa using Kind.not_counts_of_sign isSign
      exact first.append (.diagnosed word _)
  | alone mark sign isSign =>
      apply Accounts.silent rfl
      simpa using Kind.not_counts_of_sign isSign

theorem accounts_skipped (tiers : TierTable) (index : Nat) (words : List Lexeme) :
    Accounts tiers index words (skipped index (words.map Lexeme.token)) := by
  induction words generalizing index with
  | nil => exact .silent rfl (by simp)
  | cons word words ih =>
      have here : Accounts tiers index [word] [.skipped ⟨index, index + 1⟩ word.token.kind] :=
        .word rfl (.skipped (outside_of_none rfl index) List.mem_cons_self)
      exact here.append (ih (index + 1))

theorem constants_missingComma (accepted : Bool) (index : Nat) (tokens : List Token) :
    constants (missingComma accepted index tokens) = [] := by
  unfold missingComma
  split
  · rfl
  · split <;> rfl

/-- The words of a run are accounted for, each by the part that takes it. -/
theorem accounts_steps (tiers : TierTable) : Steps tiers (Accounts tiers) where
  append := fun _ _ _ _ _ first last => first.append last
  nothing := fun _ => .silent rfl (by simp)
  punctuation := by
    intro index word punctuates
    apply Accounts.silent rfl
    simpa using Kind.not_counts_of_punctuation punctuates
  absent := fun _ _ _ => .silent rfl (by simp)
  unexpected := fun _ word => .diagnosed word _
  element := fun _ _ _ _ takes => accounts_takes takes
  step := by
    intro index element taken run rest takes _
    have missed : Accounts tiers (index + taken.length) [] (missingComma element.accepted
        (index + taken.length) ((run ++ rest).map Lexeme.token)) :=
      .silent (constants_missingComma _ _ _) (by simp)
    have skips := accounts_skipped tiers (index + taken.length) run
    exact (accounts_takes takes).append (missed.append skips)

end Initializer

end TypedLiteral

import TypedLiteral.Proofs.Listing
import TypedLiteral.Proofs.Span

/-!
What is wrong with a source is either how its tokens are put together, or a literal
in it that has no value. So the causes that literals have are those of entries, each
of which is written in the source.
-/
namespace TypedLiteral

/-- The causes of tokens that are not put together into a constant. -/
inductive Cause.Syntactic : Cause → Prop where
  | missingConstant : Syntactic .missingConstant
  | missingNumber : Syntactic .missingNumber
  | misplacedSign : Syntactic .misplacedSign
  | missing (kind : Kind) : Syntactic (.missing kind)
  | unexpected (kind : Kind) : Syntactic (.unexpected kind)
  | unrecognised (text : List Char) : Syntactic (.unrecognised text)
  | noConstant (kind : Kind) : Syntactic (.noConstant kind)

theorem Literal.strayCause_syntactic (token : Token) : (strayCause token).Syntactic := by
  unfold strayCause
  split
  · exact .unrecognised token.text
  · exact .noConstant token.kind

theorem Literal.fault_of_failed {Fault Value : Type} {result : Except Fault Value}
    {form : Value → Constant} {wrap : Fault → Cause} {cause : Cause}
    (failed : (result.map form).mapError wrap = .error cause) :
    ∃ fault, result = .error fault ∧ wrap fault = cause := by
  cases result with
  | ok value => cases failed
  | error fault => exact ⟨fault, rfl, Except.error.inj failed⟩

namespace Initializer

variable {tiers : TierTable} {index : Nat} {words more : List Lexeme}
variable {findings own later : List (Finding Place)}

/-- Each cause is syntactic, or an entry among the words has no value because of it. -/
def Caused (tiers : TierTable) (words : List Lexeme) (findings : List (Finding Place)) : Prop :=
  ∀ place cause, (place, cause) ∈ diagnostics findings → cause.Syntactic ∨
    ∃ entry : Entry, entry.literal ∈ words ∧ entry.value tiers = .error cause

theorem Caused.append (first : Caused tiers words own) (last : Caused tiers more later) :
    Caused tiers (words ++ more) (own ++ later) := by
  intro place cause member
  rw [diagnostics_append] at member
  rcases List.mem_append.mp member with before | behind
  · apply (first place cause before).imp_right
    rintro ⟨entry, isWord, failed⟩
    exact ⟨entry, List.mem_append_left _ isWord, failed⟩
  · apply (last place cause behind).imp_right
    rintro ⟨entry, isWord, failed⟩
    exact ⟨entry, List.mem_append_right _ isWord, failed⟩

theorem Caused.none (silent : diagnostics findings = []) : Caused tiers words findings := by
  intro place cause member
  rw [silent] at member
  cases member

theorem Caused.syntactic {place : Place} {cause : Cause} (syntactic : cause.Syntactic) :
    Caused tiers words [.diagnostic place cause] := by
  intro other found member
  cases List.mem_singleton.mp member
  exact .inl syntactic

theorem caused_takes {element : Element} {taken rest : List Lexeme}
    (takes : element.Takes tiers index taken rest) : Caused tiers taken element.findings := by
  cases takes with
  | entry entry rest =>
      intro place cause member
      rw [Entry.element_findings, Entry.diagnostics_findings] at member
      cases result : entry.value tiers with
      | ok value =>
          rw [result] at member
          cases member
      | error fault =>
          rw [result] at member
          cases List.mem_singleton.mp member
          exact .inr ⟨entry, entry.literal_mem, result⟩
  | stray word rest noLiteral unsigned => exact .syntactic (Literal.strayCause_syntactic _)
  | misplaced mark sign word rest isSign noNumber => exact .syntactic .misplacedSign
  | alone mark sign isSign => exact .syntactic .missingNumber

theorem diagnostics_skipped (index : Nat) (tokens : List Token) :
    diagnostics (skipped index tokens) = [] := by
  induction tokens generalizing index with
  | nil => rfl
  | cons token tokens ih => exact ih (index + 1)

theorem caused_missingComma (accepted : Bool) (index : Nat) (tokens : List Token) :
    Caused tiers words (missingComma accepted index tokens) := by
  unfold missingComma
  split
  · exact .none rfl
  · split
    · exact .syntactic (.missing .comma)
    · exact .none rfl

theorem caused_steps (tiers : TierTable) :
    Steps tiers fun _ words findings => Caused tiers words findings where
  append := fun _ _ _ _ _ first last => first.append last
  nothing := fun _ => .none rfl
  punctuation := fun _ _ _ => .none rfl
  absent := by
    rintro index cause (rfl | rfl)
    · exact .syntactic (.missing .rightBrace)
    · exact .syntactic .missingConstant
  unexpected := fun _ word => .syntactic (.unexpected word.token.kind)
  element := fun _ _ _ _ takes => caused_takes takes
  step := by
    intro index element taken run rest takes _
    have missed : Caused tiers [] (missingComma element.accepted (index + taken.length)
        ((run ++ rest).map Lexeme.token)) := caused_missingComma _ _ _
    have skips : Caused tiers run (skipped (index + taken.length) (run.map Lexeme.token)) :=
      .none (diagnostics_skipped _ _)
    exact (caused_takes takes).append (missed.append skips)

theorem Caused.isWord {source : String}
    (caused : Caused tiers (significant (tokenize source)) findings)
    {target : Place → Span} {span : Span} {cause : Cause}
    (member : (span, cause) ∈ diagnostics (findings.map (Finding.move target))) :
    cause.Syntactic ∨ ∃ entry : Entry,
      Lexicon.IsWord entry.literal.token.kind entry.literal.token.text ∧
        entry.value tiers = .error cause := by
  rw [diagnostics_move] at member
  obtain ⟨found, isFound, same⟩ := List.mem_map.mp member
  cases same
  apply (caused found.1 found.2 isFound).imp_right
  rintro ⟨entry, inSource, failed⟩
  have solid := Kind.solid_of_literal entry.literal_isLiteral
  exact ⟨entry, isWord_of_mem (List.mem_filter.mp inSource).1 solid.notError, failed⟩

end Initializer

end TypedLiteral

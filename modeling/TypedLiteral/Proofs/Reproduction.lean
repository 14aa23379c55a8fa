import TypedLiteral.Proofs.Accounting
import TypedLiteral.Proofs.Excerpt

/-!
Constants read again from their spans. A constant stands for an entry of the source,
wherever the list around it is broken, and the text of an entry alone has that entry
and nothing else.
-/
namespace TypedLiteral

variable {tiers : TierTable} {source : String} {span : Span} {value : Constant}

theorem Entry.reproduced {before after : List Lexeme} {entry : Entry}
    (found : significant (tokenize source) = before ++ (entry.lexemes ++ after))
    (evaluates : entry.value tiers = .ok value) :
    ∃ text, entry.span.text? source.toList = some text ∧
      constantOf (readConstant tiers (String.ofList text)) = .ok (⟨0, Utf8.size text⟩, value) := by
  obtain ⟨first, middle, last, lies⟩ := liesIn found
  have alone := isolated_eq tiers found
  rw [evaluates] at alone
  unfold isolated at alone
  split at alone
  · next again accepted =>
      obtain ⟨moved, same⟩ := Prod.mk.inj (Except.ok.inj alone)
      obtain ⟨starts, stops⟩ := Span.mk.inj (moved.trans lies.span)
      rw [lies.span] at starts stops
      have whole : again = (⟨0, Utf8.size (Token.texts middle)⟩, value) :=
        Prod.ext (congrArg₂ Span.mk (Nat.add_left_cancel starts) (Nat.add_left_cancel stops)) same
      rw [whole, excerpt, lies.text, Option.getD_some] at accepted
      exact ⟨_, lies.text, accepted⟩
  · cases alone

theorem entry_of_constant (found : (span, value) ∈ constants (readInitializer tiers source)) :
    ∃ (before : List Lexeme) (entry : Entry) (after : List Lexeme),
      significant (tokenize source) = before ++ (entry.lexemes ++ after) ∧ entry.span = span ∧
        entry.value tiers = .ok value := by
  rw [readInitializer, findingsIn, constants_move] at found
  obtain ⟨origin, isOrigin, same⟩ := List.mem_map.mp found
  obtain ⟨rfl, rfl⟩ := Prod.mk.inj same
  obtain ⟨before, entry, after, words, placed, evaluates⟩ :=
    ((Initializer.accounts_steps tiers).read _).stands origin isOrigin
  refine ⟨before, entry, after, words, ?_, evaluates⟩
  rw [placed, words, Nat.zero_add, Initializer.span_entry]

/-- Every constant that is found, also in a source with faults, has a text in its span,
and that text alone gives the same constant over all of it. -/
theorem constants_reproduced (tiers : TierTable) (source : String) (span : Span) (value : Constant)
    (found : (span, value) ∈ constants (readInitializer tiers source) ∨
      constantOf (readConstant tiers source) = .ok (span, value)) :
    ∃ text, span.text? source.toList = some text ∧
      constantOf (readConstant tiers (String.ofList text)) = .ok (⟨0, Utf8.size text⟩, value) := by
  rcases found with inList | alone
  · obtain ⟨before, entry, after, words, rfl, evaluates⟩ := entry_of_constant inList
    exact Entry.reproduced words evaluates
  · obtain ⟨entry, words, rfl, evaluates⟩ := (Initializer.constantOf_iff tiers source _ _).mp alone
    have found : significant (tokenize source) = [] ++ (entry.lexemes ++ []) := by simpa using words
    exact Entry.reproduced found evaluates

theorem constants_reproduced_broken_list :
    let source := "\x7b1 2, - /*é*/ 3, x 4"
    diagnostics (readInitializer .standard source) ≠ [] ∧
      ∃ text, Span.text? ⟨6, 16⟩ source.toList = some text ∧
        constantOf (readConstant .standard (String.ofList text)) =
          .ok (⟨0, Utf8.size text⟩, .integer (.ofInt ⟨8, true⟩ (-3))) := by
  intro source
  have found : (⟨6, 16⟩, .integer (.ofInt ⟨8, true⟩ (-3))) ∈
      constants (readInitializer .standard source) := by decide +kernel
  exact ⟨by decide +kernel, constants_reproduced .standard source _ _ (.inl found)⟩

end TypedLiteral

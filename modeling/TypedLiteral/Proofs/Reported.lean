import TypedLiteral.Proofs.Initializer

/-!
Where a reader of lists reports: at the elements it reads, at a token with no comma
in front of it, and at the tokens behind the list, but not at skipped tokens and
never before the place where it began.
-/
namespace TypedLiteral

namespace Initializer

variable (tiers : TierTable) {index : Nat} {place : Place} {element : Element}
variable {token : Token} {tokens : List Token}

theorem reported_element : Reported element.findings place ↔ place = element.place := by
  rw [Element.findings, reported_append, or_iff_right (not_reported_events _)]
  cases element.result with
  | ok value => exact reported_constant value
  | error cause => exact reported_diagnostic cause

theorem not_reported_skipped : ¬ Reported (skipped index tokens) place := by
  induction tokens generalizing index with
  | nil => exact reported_nil
  | cons token rest ih =>
      rw [skipped, ← List.singleton_append, reported_append]
      rintro (here | later)
      · exact reported_skipped _ here
      · exact ih later

theorem reported_missingComma {accepted : Bool}
    (reported : Reported (missingComma accepted index tokens) place) :
    place = ⟨index, index + 1⟩ ∧ ∃ token ∈ tokens.head?, isInside token = true := by
  cases tokens with
  | nil => exact absurd reported reported_nil
  | cons token rest =>
      rw [missingComma] at reported
      split at reported
      · next missed =>
          rw [Bool.and_eq_true] at missed
          exact ⟨(reported_diagnostic _).mp reported, token, rfl, missed.2⟩
      · exact absurd reported reported_nil

theorem unexpected_lower (reported : Reported (unexpected index tokens) place) :
    index ≤ place.first := by
  induction tokens generalizing index with
  | nil => exact absurd reported reported_nil
  | cons token rest ih =>
      rw [unexpected, ← List.singleton_append, reported_append, reported_diagnostic] at reported
      rcases reported with rfl | later
      · exact Nat.le_refl index
      · exact Nat.le_of_succ_le (ih later)

theorem ofLiteral_place (sign : Sign) :
    (Element.ofLiteral tiers place sign token).place = place := by
  unfold Element.ofLiteral
  split <;> rfl

theorem read_lower (index : Nat) (token : Token) (rest : List Token) :
    index ≤ (Element.read tiers index (token :: rest)).1.place.first ∧
      (Element.read tiers index (token :: rest)).1.place.first ≤
        (Element.read tiers index (token :: rest)).1.place.past := by
  rw [Element.read]
  split
  · simp [ofLiteral_place]
  · split
    · simp [Element.failed]
    · split <;> simp [ofLiteral_place, Element.failed]

theorem elements_nil_lower (reported : Reported (elements tiers index []) place) :
    index ≤ place.first := by
  rw [elements_nil, reported_diagnostic] at reported
  subst reported
  exact Nat.le_refl index

theorem resume_lower {bound : Nat}
    (below : ∀ (tokens : List Token) (index : Nat), tokens.length ≤ bound →
      Reported (elements tiers index tokens) place → index ≤ place.first)
    (short : tokens.length ≤ bound) (reported : Reported (resume tiers index tokens) place) :
    index ≤ place.first := by
  cases tokens with
  | nil => exact below [] index short reported
  | cons delimiter further =>
      rw [resume] at reported
      split at reported
      · exact Nat.le_of_succ_le (below further _ (Nat.le_of_succ_le short) reported)
      · exact below _ _ short reported

/-- Nothing is reported before the place where reading begins. -/
theorem elements_lower (bound : Nat) (tokens : List Token) (index : Nat)
    (short : tokens.length ≤ bound) (reported : Reported (elements tiers index tokens) place) :
    index ≤ place.first := by
  -- The bound is on the tokens that are left: an element takes one of them at least.
  induction bound generalizing tokens index with
  | zero =>
      obtain rfl := List.length_eq_zero_iff.mp (Nat.le_zero.mp short)
      exact elements_nil_lower tiers reported
  | succ bound ih =>
      cases tokens with
      | nil => exact elements_nil_lower tiers reported
      | cons token rest =>
          by_cases closes : token.kind = .rightBrace
          · rw [elements_close tiers index rest closes] at reported
            exact Nat.le_of_succ_le (unexpected_lower reported)
          · rw [elements_cons tiers index rest closes] at reported
            simp only [reported_append, not_reported_skipped, or_false] at reported
            obtain ⟨first, past⟩ := read_lower tiers index token rest
            rcases reported with (own | missed) | later
            · rw [reported_element.mp own]
              exact first
            · rw [(reported_missingComma missed).1]
              exact Nat.le_trans first past
            · have shorter := (List.dropWhile_suffix isInside
                (l := (Element.read tiers index (token :: rest)).2)).length_le
              have kept := Element.read_length tiers index token rest
              have goesOn := resume_lower tiers ih
                (Nat.le_trans shorter (Nat.le_trans kept (Nat.le_of_succ_le_succ short))) later
              exact Nat.le_trans (Nat.le_trans first past) (Nat.le_of_add_right_le goesOn)

end Initializer

end TypedLiteral

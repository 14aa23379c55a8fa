import TypedLiteral.Finding

/-!
Constants and diagnostics among findings, and where they are reported. Both are
kept in their order when findings are joined or moved to other places.
-/
namespace TypedLiteral

variable {Where Elsewhere : Type} {first last findings : List (Finding Where)} {place : Where}

theorem constants_append (first last : List (Finding Where)) :
    constants (first ++ last) = constants first ++ constants last :=
  List.filterMap_append

theorem diagnostics_append (first last : List (Finding Where)) :
    diagnostics (first ++ last) = diagnostics first ++ diagnostics last :=
  List.filterMap_append

theorem constants_flatMap {Origin : Type} (origins : List Origin)
    (find : Origin → List (Finding Where)) :
    constants (origins.flatMap find) = origins.flatMap fun origin => constants (find origin) :=
  List.filterMap_flatMap

theorem diagnostics_flatMap {Origin : Type} (origins : List Origin)
    (find : Origin → List (Finding Where)) :
    diagnostics (origins.flatMap find) = origins.flatMap fun origin => diagnostics (find origin) :=
  List.filterMap_flatMap

theorem constants_move (target : Where → Elsewhere) (findings : List (Finding Where)) :
    constants (findings.map (Finding.move target)) =
      (constants findings).map fun found => (target found.1, found.2) := by
  induction findings with
  | nil => rfl
  | cons finding rest ih =>
      simp only [constants, List.map_cons, List.filterMap_cons] at ih ⊢
      cases finding <;> simp [Finding.move, Finding.constant?, ih]

theorem diagnostics_move (target : Where → Elsewhere) (findings : List (Finding Where)) :
    diagnostics (findings.map (Finding.move target)) =
      (diagnostics findings).map fun found => (target found.1, found.2) := by
  induction findings with
  | nil => rfl
  | cons finding rest ih =>
      simp only [diagnostics, List.map_cons, List.filterMap_cons] at ih ⊢
      cases finding <;> simp [Finding.move, Finding.diagnostic?, ih]

/-- A constant or a diagnostic has this place. -/
def Reported (findings : List (Finding Where)) (place : Where) : Prop :=
  (∃ value, (place, value) ∈ constants findings) ∨ ∃ cause, (place, cause) ∈ diagnostics findings

theorem reported_append :
    Reported (first ++ last) place ↔ Reported first place ∨ Reported last place := by
  simp only [Reported, constants_append, diagnostics_append, List.mem_append, exists_or]
  constructor
  · rintro ((before | after) | (before | after))
    · exact .inl (.inl before)
    · exact .inr (.inl after)
    · exact .inl (.inr before)
    · exact .inr (.inr after)
  · rintro ((value | cause) | (value | cause))
    · exact .inl (.inl value)
    · exact .inr (.inl cause)
    · exact .inl (.inr value)
    · exact .inr (.inr cause)

theorem reported_move {target : Where → Elsewhere} {span : Elsewhere} :
    Reported (findings.map (Finding.move target)) span ↔
      ∃ place, Reported findings place ∧ target place = span := by
  simp only [Reported, constants_move, diagnostics_move, List.mem_map, Prod.mk.injEq]
  constructor
  · rintro (⟨value, found, member, rfl, _⟩ | ⟨cause, found, member, rfl, _⟩)
    · exact ⟨found.1, .inl ⟨found.2, member⟩, rfl⟩
    · exact ⟨found.1, .inr ⟨found.2, member⟩, rfl⟩
  · rintro ⟨place, ⟨value, member⟩ | ⟨cause, member⟩, rfl⟩
    · exact .inl ⟨value, _, member, rfl, rfl⟩
    · exact .inr ⟨cause, _, member, rfl, rfl⟩

section Single

variable {elsewhere : Where}

@[simp] theorem reported_nil : ¬ Reported ([] : List (Finding Where)) place := by
  rintro (⟨value, member⟩ | ⟨cause, member⟩)
  · cases member
  · cases member

@[simp] theorem reported_constant (value : Constant) :
    Reported [.constant elsewhere value] place ↔ place = elsewhere := by
  simp [Reported, constants, diagnostics, Finding.constant?, Finding.diagnostic?]

@[simp] theorem reported_diagnostic (cause : Cause) :
    Reported [.diagnostic elsewhere cause] place ↔ place = elsewhere := by
  simp [Reported, constants, diagnostics, Finding.constant?, Finding.diagnostic?]

@[simp] theorem reported_skipped (kind : Kind) : ¬ Reported [.skipped elsewhere kind] place := by
  simp [Reported, constants, diagnostics, Finding.constant?, Finding.diagnostic?]

end Single

theorem not_reported_events (events : List Event) :
    ¬ Reported (events.map (@Finding.event Where)) place := by
  simp [Reported, constants, diagnostics, Finding.constant?, Finding.diagnostic?]

end TypedLiteral

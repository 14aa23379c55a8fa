import Mathlib.Data.List.Forall2
import TypedLiteral.Proofs.Listing
import TypedLiteral.Proofs.Reported
import TypedLiteral.Proofs.Span

/-!
Layout does not matter. A reader sees the tokens without their spans, and what it
finds it places by their indices; only then a place turns into a span. So two sources
with the same tokens are read alike, whatever trivia stand between the tokens, and
what is reported in one is reported in the other at the same tokens, or at both ends.
-/
namespace TypedLiteral

/-- A place of some of the tokens, or at the end behind all of them. -/
inductive Place.Proper (count : Nat) : Place → Prop where
  | tokens (first past : Nat) (nonempty : first < past) (bounded : past ≤ count) :
      Proper count ⟨first, past⟩
  | ending : Proper count ⟨count, count⟩

theorem Place.proper_token {index count : Nat} (inside : index < count) :
    Proper count ⟨index, index + 1⟩ :=
  .tokens index (index + 1) (Nat.lt_succ_self index) inside

namespace Initializer

variable {tiers : TierTable} {index count : Nat} {place : Place}

theorem unexpected_proper {tokens : List Token} (ends : index + tokens.length = count)
    (reported : Reported (unexpected index tokens) place) : place.Proper count := by
  induction tokens generalizing index with
  | nil => exact absurd reported reported_nil
  | cons token rest ih =>
      rw [List.length_cons] at ends
      rw [unexpected, ← List.singleton_append, reported_append, reported_diagnostic] at reported
      rcases reported with rfl | later
      · exact Place.proper_token (by omega)
      · exact ih (by omega) later

theorem missingComma_proper {accepted : Bool} {tokens : List Token}
    (ends : index + tokens.length = count)
    (reported : Reported (missingComma accepted index tokens) place) : place.Proper count := by
  obtain ⟨rfl, token, isFirst, _⟩ := reported_missingComma reported
  have present := List.length_pos_of_mem (List.mem_of_mem_head? isFirst)
  exact Place.proper_token (by omega)

theorem element_proper {element : Element} {taken rest : List Lexeme}
    (takes : element.Takes tiers index taken rest)
    (ends : index + (taken ++ rest).length = count) : element.place.Proper count := by
  rw [List.length_append] at ends
  cases takes with
  | entry entry rest =>
      rw [Entry.element_place]
      exact .tokens _ _ (Nat.lt_add_of_pos_right entry.lexemes_pos) (by omega)
  | stray word rest noLiteral unsigned =>
      rw [List.length_singleton] at ends
      exact Place.proper_token (by omega)
  | misplaced mark sign word rest isSign noNumber =>
      rw [List.length_cons, List.length_singleton] at ends
      exact .tokens (index + 1) (index + 2) (Nat.lt_succ_self _) (by omega)
  | alone mark sign isSign =>
      subst ends
      exact .ending

theorem listing_proper {words : List Lexeme} {findings : List (Finding Place)}
    (listing : Listing tiers index words findings) (ends : index + words.length = count)
    (reported : Reported findings place) : place.Proper count := by
  -- A part of a run does not know where the input ends, so the induction is on the whole list.
  induction listing with
  | unclosed index =>
      obtain rfl := (reported_diagnostic _).mp reported
      subst ends
      exact .ending
  | closed index closing rest isClosing =>
      rw [List.length_cons] at ends
      exact unexpected_proper (by rw [List.length_map]; omega) reported
  | element index element taken run passed further later goesOn takes inside passes listing ih =>
      simp only [reported_append, not_reported_skipped, false_or, reported_element] at reported
      rcases reported with rfl | missed | behind
      · exact element_proper takes ends
      · apply missingComma_proper _ missed
        rw [List.length_map, Nat.add_assoc, ← List.length_append, ends]
      · apply ih _ behind
        simp only [List.length_append] at ends
        omega

theorem single_proper {words : List Lexeme}
    (reported : Reported (single tiers (words.map Lexeme.token)) place) :
    place.Proper words.length := by
  cases words with
  | nil =>
      obtain rfl := (reported_diagnostic _).mp reported
      exact .ending
  | cons word words =>
      obtain ⟨element, taken, rest, same, read, takes⟩ := Element.read_takes tiers 0 word words
      rw [single, read] at reported
      simp only [takes.past, reported_append, reported_element] at reported
      rw [same]
      rcases reported with rfl | behind
      · exact element_proper takes (Nat.zero_add _)
      · exact unexpected_proper (by simp) behind

/-- Whatever a reader reports is at some of the tokens, or at their end. -/
theorem read_proper {words : List Lexeme}
    (reported : Reported (read tiers (words.map Lexeme.token)) place) :
    place.Proper words.length := by
  cases words with
  | nil => exact single_proper reported
  | cons word words =>
      rw [List.map_cons, read] at reported
      split at reported
      · exact listing_proper (elements_listing tiers 1 words) (Nat.add_comm _ _) reported
      · exact single_proper reported

end Initializer

def Span.Covers (source : String) (first last : Nat) (span : Span) : Prop :=
  ∃ begins ends, (significant (tokenize source))[first]? = some begins ∧
    (significant (tokenize source))[last]? = some ends ∧
    span = ⟨begins.span.start, ends.span.stop⟩

def Span.ending (source : String) : Span := ⟨Utf8.size source.toList, Utf8.size source.toList⟩

/-- Spans of two sources that cover the tokens with the same indices, or are both at the
end of their source. -/
inductive Span.Alike (source other : String) (here there : Span) : Prop where
  | tokens (first last : Nat) (ordered : first ≤ last) (covers : here.Covers source first last)
      (coversOther : there.Covers other first last)
  | ending (atEnd : here = Span.ending source) (atOtherEnd : there = Span.ending other)

def SameFound (source other : String) {What : Type} (here there : Span × What) : Prop :=
  here.2 = there.2 ∧ here.1.Alike source other there.1

/-- Two sources have the same constant, or the same diagnostics. -/
inductive SameOutcome (source other : String) :
    Except (List (Span × Cause)) (Span × Constant) →
      Except (List (Span × Cause)) (Span × Constant) → Prop where
  | constant (here there : Span × Constant) (same : SameFound source other here there) :
      SameOutcome source other (.ok here) (.ok there)
  | faults (here there : List (Span × Cause))
      (same : List.Forall₂ (SameFound source other) here there) :
      SameOutcome source other (.error here) (.error there)

section Sources

variable {source other : String} {place : Place}

theorem Place.covers_span {first past : Nat} (nonempty : first < past)
    (bounded : past ≤ (significant (tokenize source)).length) :
    (Place.span (significant (tokenize source)) (Utf8.size source.toList) ⟨first, past⟩).Covers
      source first (past - 1) := by
  have begins := List.getElem?_eq_getElem (Nat.lt_of_lt_of_le nonempty bounded)
  have ends := List.getElem?_eq_getElem (Nat.lt_of_lt_of_le (Nat.sub_one_lt_of_lt nonempty) bounded)
  refine ⟨_, _, begins, ends, ?_⟩
  simp [Place.span, begins, ends, nonempty]

theorem Place.span_ending :
    Place.span (significant (tokenize source)) (Utf8.size source.toList)
        ⟨(significant (tokenize source)).length, (significant (tokenize source)).length⟩ =
      Span.ending source := by
  simp [Place.span, Span.ending]

theorem Place.Proper.alike (proper : place.Proper (significant (tokenize source)).length)
    (same : (significant (tokenize source)).length = (significant (tokenize other)).length) :
    Span.Alike source other
      (place.span (significant (tokenize source)) (Utf8.size source.toList))
      (place.span (significant (tokenize other)) (Utf8.size other.toList)) := by
  cases proper with
  | tokens first past nonempty bounded =>
      exact .tokens first (past - 1) (Nat.le_sub_one_of_lt nonempty)
        (Place.covers_span nonempty bounded) (Place.covers_span nonempty (same ▸ bounded))
  | ending =>
      refine .ending Place.span_ending ?_
      rw [same]
      exact Place.span_ending

theorem placed_alike {What : Type} {found : List (Place × What)}
    (proper : ∀ one ∈ found, one.1.Proper (significant (tokenize source)).length)
    (same : (significant (tokenize source)).length = (significant (tokenize other)).length) :
    List.Forall₂ (SameFound source other)
      (found.map fun one =>
        (one.1.span (significant (tokenize source)) (Utf8.size source.toList), one.2))
      (found.map fun one =>
        (one.1.span (significant (tokenize other)) (Utf8.size other.toList), one.2)) := by
  rw [List.forall₂_map_left_iff, List.forall₂_map_right_iff, List.forall₂_same]
  exact fun one member => ⟨rfl, (proper one member).alike same⟩

theorem constantOf_alike {here there : List (Finding Span)}
    (values : List.Forall₂ (SameFound source other) (constants here) (constants there))
    (faults : List.Forall₂ (SameFound source other) (diagnostics here) (diagnostics there)) :
    SameOutcome source other (constantOf here) (constantOf there) := by
  unfold constantOf
  generalize diagnostics here = faultsHere, diagnostics there = faultsThere at faults ⊢
  generalize constants here = valuesHere, constants there = valuesThere at values ⊢
  cases faults with
  | nil =>
      cases values with
      | nil => exact .faults _ _ .nil
      | cons same rest => exact .constant _ _ same
  | cons same rest => exact .faults _ _ (.cons same rest)

theorem findings_alike {reader : List Token → List (Finding Place)}
    (same : (significant (tokenize source)).map Lexeme.token =
      (significant (tokenize other)).map Lexeme.token)
    (proper : ∀ place, Reported (reader ((significant (tokenize source)).map Lexeme.token)) place →
      place.Proper (significant (tokenize source)).length) :
    List.Forall₂ (SameFound source other) (constants (findingsIn source reader))
        (constants (findingsIn other reader)) ∧
      List.Forall₂ (SameFound source other) (diagnostics (findingsIn source reader))
        (diagnostics (findingsIn other reader)) := by
  have lengths := congrArg List.length same
  rw [List.length_map, List.length_map] at lengths
  simp only [findingsIn, constants_move, diagnostics_move, ← same]
  constructor
  · exact placed_alike (fun one member => proper one.1 (.inl ⟨one.2, member⟩)) lengths
  · exact placed_alike (fun one member => proper one.1 (.inr ⟨one.2, member⟩)) lengths

end Sources

/-- Sources with the same tokens have the same constants and the same diagnostics, at the
same tokens or at the end, and are read as the same constant or rejected for the same
causes. -/
theorem layout_irrelevant (tiers : TierTable) (source other : String)
    (same : (significant (tokenize source)).map Lexeme.token =
      (significant (tokenize other)).map Lexeme.token) :
    List.Forall₂ (SameFound source other) (constants (readInitializer tiers source))
        (constants (readInitializer tiers other)) ∧
      List.Forall₂ (SameFound source other) (diagnostics (readInitializer tiers source))
        (diagnostics (readInitializer tiers other)) ∧
      SameOutcome source other (constantOf (readConstant tiers source))
        (constantOf (readConstant tiers other)) := by
  have list := findings_alike same fun _ => @Initializer.read_proper tiers _ _
  have single := findings_alike same fun _ => @Initializer.single_proper tiers _ _
  exact ⟨list.1, list.2, constantOf_alike single.1 single.2⟩

/-- A list with a missing comma and no closing brace, once without and once with trivia
between its tokens. -/
theorem layout_irrelevant_broken_list :
    let source := "\x7b-1 2,x"
    let other := " \x7b - /* one */ 1\n2 , // two\n x "
    (significant (tokenize source)).map Lexeme.token =
        (significant (tokenize other)).map Lexeme.token ∧
      diagnostics (readInitializer .standard source) ≠ [] ∧
      List.Forall₂ (SameFound source other) (diagnostics (readInitializer .standard source))
        (diagnostics (readInitializer .standard other)) := by
  intro source other
  have same : (significant (tokenize source)).map Lexeme.token =
      (significant (tokenize other)).map Lexeme.token := by decide +kernel
  exact ⟨same, by decide +kernel, (layout_irrelevant .standard source other same).2.1⟩

end TypedLiteral

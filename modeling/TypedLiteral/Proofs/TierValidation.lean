import Mathlib.Data.List.Chain
import TypedLiteral.Proofs.IntegerConstant
import TypedLiteral.Proofs.TierTable

/-!
Rows of widths are accepted or refused with their first fault, and what is accepted
can be searched: the ranges of a row lie inside each other, so one type tells which
values the row holds, the last one, and the first type with a value is the least.
-/
namespace TypedLiteral

/-- The fault that a row is refused for. Widths out of bounds come before neighbours
that do not ascend, wherever they stand, and of each kind the leftmost one counts. -/
inductive TierFault.First (signed : Bool) : List Nat → TierFault → Prop where
  | empty : First signed [] (.empty signed)
  | outOfBounds (before : List Nat) (width : Nat) (after : List Nat)
      (inside : ∀ earlier ∈ before, 1 ≤ earlier ∧ earlier ≤ IntType.maxWidth)
      (outside : ¬ (1 ≤ width ∧ width ≤ IntType.maxWidth)) :
      First signed (before ++ width :: after) (.outOfBounds width)
  | notAscending (before : List Nat) (previous next : Nat) (after : List Nat)
      (inside : ∀ width ∈ before ++ previous :: next :: after,
        1 ≤ width ∧ width ≤ IntType.maxWidth)
      (ascends : (before ++ [previous]).IsChain (· < ·)) (stops : next ≤ previous) :
      First signed (before ++ previous :: next :: after) (.notAscending signed previous next)

namespace TierTable

theorem inBounds_iff (width : Nat) :
    inBounds width = true ↔ 1 ≤ width ∧ width ≤ IntType.maxWidth := by
  simp [inBounds]

theorem outside_none (widths : List Nat) : widths.find? (!inBounds ·) = none ↔
    ∀ width ∈ widths, 1 ≤ width ∧ width ≤ IntType.maxWidth := by
  simp [inBounds_iff]

theorem outside_some (widths : List Nat) (width : Nat) :
    widths.find? (!inBounds ·) = some width ↔ ∃ before after,
      widths = before ++ width :: after ∧
      (∀ earlier ∈ before, 1 ≤ earlier ∧ earlier ≤ IntType.maxWidth) ∧
      ¬ (1 ≤ width ∧ width ≤ IntType.maxWidth) := by
  rw [List.find?_eq_some_iff_append, ← inBounds_iff]
  constructor
  · rintro ⟨outside, before, after, same, inside⟩
    exact ⟨before, after, same, by simpa [inBounds_iff] using inside, by simpa using outside⟩
  · rintro ⟨before, after, same, inside, outside⟩
    exact ⟨by simpa using outside, before, after, same, by simpa [inBounds_iff] using inside⟩

theorem descent_ascending (widths : List Nat) (ascends : widths.IsChain (· < ·)) :
    descent widths = none := by
  induction widths with
  | nil => rfl
  | cons first rest ih =>
      cases rest with
      | nil => rfl
      | cons second rest =>
          obtain ⟨less, later⟩ := List.isChain_cons_cons.mp ascends
          rw [descent, if_pos less]
          exact ih later

theorem descent_first (before : List Nat) (previous next : Nat) (after : List Nat)
    (ascends : (before ++ [previous]).IsChain (· < ·)) (stops : next ≤ previous) :
    descent (before ++ previous :: next :: after) = some (previous, next) := by
  induction before with
  | nil => rw [List.nil_append, descent, if_neg (Nat.not_lt.mpr stops)]
  | cons first before ih =>
      have later := ih ascends.tail
      cases before with
      | nil =>
          have less := (List.isChain_cons_cons.mp ascends).1
          rw [List.nil_append] at later
          rw [List.cons_append, List.nil_append, descent, if_pos less, later]
      | cons second before =>
          have less := (List.isChain_cons_cons.mp ascends).1
          rw [List.cons_append] at later
          rw [List.cons_append, List.cons_append, descent, if_pos less, later]

theorem descent_some (widths : List Nat) (previous next : Nat)
    (found : descent widths = some (previous, next)) :
    ∃ before after, widths = before ++ previous :: next :: after ∧
      (before ++ [previous]).IsChain (· < ·) ∧ next ≤ previous := by
  induction widths with
  | nil => cases found
  | cons first rest ih =>
      cases rest with
      | nil => cases found
      | cons second rest =>
          rw [descent] at found
          split at found
          · next less =>
              obtain ⟨before, after, same, ascends, stops⟩ := ih found
              refine ⟨first :: before, after, by rw [same, List.cons_append], ?_, stops⟩
              -- The row and its ascending part begin with the same width.
              have head : (before ++ [previous]).head? = some second := by
                have leading := congrArg List.head? same
                cases before <;> simpa using leading.symm
              refine List.isChain_cons.mpr ⟨?_, ascends⟩
              intro width leads
              cases head.symm.trans leads
              exact less
          · next stops =>
              cases found
              exact ⟨[], rest, rfl, .singleton _, Nat.not_lt.mp stops⟩

theorem fault_valid (signed : Bool) (widths : List Nat) (valid : ValidRow widths) :
    fault signed widths = none := by
  have inside := (outside_none widths).mpr valid.bounded
  have ascends := descent_ascending widths valid.ascending.isChain
  rw [fault, if_neg valid.nonempty, inside]
  simp only [ascends, Option.map_none]

theorem fault_none_iff (signed : Bool) (widths : List Nat) :
    fault signed widths = none ↔ ValidRow widths :=
  ⟨fault_none signed widths, fault_valid signed widths⟩

theorem fault_first {signed : Bool} {widths : List Nat} {found : TierFault}
    (first : found.First signed widths) : fault signed widths = some found := by
  cases first with
  | empty => rfl
  | outOfBounds before width after inside outside =>
      have bad := (outside_some _ width).mpr ⟨before, after, rfl, inside, outside⟩
      rw [fault, if_neg (by simp), bad]
  | notAscending before previous next after inside ascends stops =>
      have good := (outside_none _).mpr inside
      have descends := descent_first before previous next after ascends stops
      rw [fault, if_neg (by simp), good]
      simp only [descends, Option.map_some]

theorem first_of_fault {signed : Bool} {widths : List Nat} {found : TierFault}
    (refused : fault signed widths = some found) : found.First signed widths := by
  unfold fault at refused
  split at refused
  · next empty =>
      subst empty
      cases refused
      exact .empty
  · split at refused
    · next width bad =>
        cases refused
        obtain ⟨before, after, rfl, inside, outside⟩ := (outside_some _ width).mp bad
        exact .outOfBounds before width after inside outside
    · next good =>
        obtain ⟨⟨previous, next⟩, descends, rfl⟩ := Option.map_eq_some_iff.mp refused
        obtain ⟨before, after, rfl, ascends, stops⟩ := descent_some _ previous next descends
        exact .notAscending before previous next after ((outside_none _).mp good) ascends stops

theorem fault_some_iff (signed : Bool) (widths : List Nat) (found : TierFault) :
    fault signed widths = some found ↔ found.First signed widths :=
  ⟨first_of_fault, fault_first⟩

section Rows

variable (unsigned signed : List Nat)

theorem ofWidths_ok_iff (table : TierTable) : ofWidths unsigned signed = .ok table ↔
    (ValidRow unsigned ∧ ValidRow signed) ∧ table.unsigned = unsigned ∧ table.signed = signed := by
  unfold ofWidths
  split
  · next found refused =>
      have bad : ¬ ValidRow unsigned := by
        rw [← fault_none_iff false, refused]
        nofun
      simp [bad]
  · next unsignedSound =>
      split
      · next found refused =>
          have bad : ¬ ValidRow signed := by
            rw [← fault_none_iff true, refused]
            nofun
          simp [bad]
      · next signedSound =>
          have valid := And.intro (fault_none _ _ unsignedSound) (fault_none _ _ signedSound)
          obtain ⟨_, _, _, _⟩ := table
          simp [valid, eq_comm]

theorem ofWidths_error_iff (found : TierFault) : ofWidths unsigned signed = .error found ↔
    found.First false unsigned ∨ ValidRow unsigned ∧ found.First true signed := by
  rw [← fault_some_iff, ← fault_some_iff, ← fault_none_iff false]
  unfold ofWidths
  split
  · next first refused => simp [refused]
  · next sound =>
      split
      · next first refused => simp [sound, refused]
      · next signedSound => simp [sound, signedSound]

/-- Two rows make a table exactly when both are valid, and otherwise the first fault is
reported. In a table with these rows every range lies inside the later ones of its row, a
search finds the one type of least width that contains the value, and it finds none exactly
when the last type does not contain it. -/
theorem ofWidths_validates :
    ((∃ table, ofWidths unsigned signed = .ok table) ↔
      ValidRow unsigned ∧ ValidRow signed) ∧
    (∀ found, ofWidths unsigned signed = .error found ↔
      found.First false unsigned ∨ ValidRow unsigned ∧ found.First true signed) ∧
    ∀ table, ofWidths unsigned signed = .ok table → ∀ (sign : Bool) (value : Int),
      table.types sign = (if sign then signed else unsigned).map (IntType.mk · sign) ∧
      ((table.types sign).Pairwise fun narrow wide =>
        narrow.contains value = true → wide.contains value = true) ∧
      (∀ type, table.narrowest sign value = some type ↔
        type ∈ table.types sign ∧ type.contains value = true ∧
          ∀ other ∈ table.types sign, other.contains value = true → type.width ≤ other.width) ∧
      (table.narrowest sign value = none ↔
        ∃ last, (table.types sign).getLast? = some last ∧ last.contains value = false) := by
  refine ⟨?_, ofWidths_error_iff unsigned signed, ?_⟩
  · constructor
    · rintro ⟨table, accepted⟩
      exact ((ofWidths_ok_iff unsigned signed table).mp accepted).1
    · rintro ⟨first, second⟩
      exact ⟨⟨unsigned, signed, first, second⟩,
        (ofWidths_ok_iff unsigned signed _).mpr ⟨⟨first, second⟩, rfl, rfl⟩⟩
  · intro table accepted sign value
    obtain ⟨_, rfl, rfl⟩ := (ofWidths_ok_iff unsigned signed table).mp accepted
    exact ⟨rfl, table.types_nested sign value, table.narrowest_some_iff sign value,
      table.narrowest_none_last sign value⟩

end Rows

/-- Widths of one bit and of 64 bits make rows, and a bad width behind neighbours that do
not ascend is reported in front of them and of an empty signed row. -/
theorem ofWidths_widest : (∃ table, ofWidths [1, 64] [1, 64] = .ok table ∧
      table.narrowest true (-2) = some ⟨64, true⟩ ∧
      table.narrowest false 18446744073709551616 = none) ∧
    ofWidths [8, 8, 65] [] = .error (.outOfBounds 65) := by
  have row : ValidRow [1, 64] := fault_none false _ (by decide)
  obtain ⟨accepts, _, search⟩ := ofWidths_validates [1, 64] [1, 64]
  obtain ⟨table, accepted⟩ := accepts.mpr ⟨row, row⟩
  obtain ⟨signedTypes, _, found, _⟩ := search table accepted true (-2)
  obtain ⟨unsignedTypes, _, _, absent⟩ := search table accepted false 18446744073709551616
  refine ⟨⟨table, accepted, (found ⟨64, true⟩).mpr ?_, absent.mpr ?_⟩, ?_⟩
  · rw [signedTypes]
    decide
  · rw [unsignedTypes]
    exact ⟨⟨64, false⟩, rfl, by decide⟩
  · obtain ⟨_, refuses, _⟩ := ofWidths_validates [8, 8, 65] []
    exact (refuses _).mpr (.inl (.outOfBounds [8, 8] 65 [] (by decide) (by decide)))

end TierTable

end TypedLiteral

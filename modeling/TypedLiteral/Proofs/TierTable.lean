import TypedLiteral.Proofs.IntegerConstant
import TypedLiteral.TierTable

/-!
Searching a tier table. A row ascends strictly, so the first type that contains
a value is also the one of least width, and the last type contains what any does.
-/
namespace TypedLiteral

namespace TierTable

theorem types_valid (table : TierTable) (signed : Bool) (type : IntType)
    (member : type ∈ table.types signed) :
    type.signed = signed ∧ 1 ≤ type.width ∧ type.width ≤ IntType.maxWidth := by
  obtain ⟨width, inRow, same⟩ := List.mem_map.mp member
  subst same
  refine ⟨rfl, ?_⟩
  cases signed with
  | false => exact table.unsignedValid.bounded width (by simpa using inRow)
  | true => exact table.signedValid.bounded width (by simpa using inRow)

theorem types_ascending (table : TierTable) (signed : Bool) :
    (table.types signed).Pairwise fun narrow wide => narrow.width < wide.width := by
  refine List.pairwise_map.mpr ?_
  cases signed with
  | false => simpa using table.unsignedValid.ascending
  | true => simpa using table.signedValid.ascending

theorem narrowest_none (table : TierTable) (signed : Bool) (value : Int) :
    table.narrowest signed value = none ↔
      ∀ type ∈ table.types signed, type.contains value = false := by
  simp [narrowest]

theorem narrowest_some (table : TierTable) (signed : Bool) (value : Int) (type : IntType)
    (found : table.narrowest signed value = some type) :
    type ∈ table.types signed ∧ type.contains value = true ∧
      ∀ other ∈ table.types signed, other.contains value = true → type.width ≤ other.width := by
  obtain ⟨holds, before, after, split, outside⟩ := List.find?_eq_some_iff_append.mp found
  refine ⟨by simp [split], holds, ?_⟩
  intro other member inside
  have ascending := table.types_ascending signed
  rw [split, List.pairwise_append] at ascending
  rw [split] at member
  rcases List.mem_append.mp member with earlier | later
  · have skipped := outside other earlier
    simp [inside] at skipped
  · rcases List.mem_cons.mp later with same | further
    · exact Nat.le_of_eq (congrArg IntType.width same.symm)
    · exact Nat.le_of_lt ((List.pairwise_cons.mp ascending.2.1).1 other further)

theorem types_nested (table : TierTable) (signed : Bool) (value : Int) :
    (table.types signed).Pairwise fun narrow wide =>
      narrow.contains value = true → wide.contains value = true := by
  refine (table.types_ascending signed).imp_of_mem ?_
  intro narrow wide first later less
  have sign : narrow.signed = wide.signed :=
    (table.types_valid signed narrow first).1.trans (table.types_valid signed wide later).1.symm
  exact IntType.contains_wider sign (Nat.le_of_lt less) value

/-- Of one row there is only one type of least width with a value, and it is found. -/
theorem narrowest_some_iff (table : TierTable) (signed : Bool) (value : Int) (type : IntType) :
    table.narrowest signed value = some type ↔
      type ∈ table.types signed ∧ type.contains value = true ∧
        ∀ other ∈ table.types signed, other.contains value = true → type.width ≤ other.width := by
  refine ⟨table.narrowest_some signed value type, ?_⟩
  rintro ⟨member, inside, least⟩
  cases found : table.narrowest signed value with
  | none =>
      have outside := (table.narrowest_none signed value).mp found type member
      rw [inside] at outside
      cases outside
  | some other =>
      obtain ⟨otherMember, otherInside, otherLeast⟩ := table.narrowest_some signed value other found
      have width : other.width = type.width :=
        Nat.le_antisymm (otherLeast type member inside) (least other otherMember otherInside)
      have sign : other.signed = type.signed :=
        (table.types_valid signed other otherMember).1.trans
          (table.types_valid signed type member).1.symm
      obtain ⟨_, _⟩ := other
      obtain ⟨_, _⟩ := type
      subst width sign
      rfl

theorem narrowest_none_last (table : TierTable) (signed : Bool) (value : Int) :
    table.narrowest signed value = none ↔
      ∃ last, (table.types signed).getLast? = some last ∧ last.contains value = false := by
  rw [narrowest_none]
  have present : table.types signed ≠ [] := by
    cases signed with
    | false => simpa [types] using table.unsignedValid.nonempty
    | true => simpa [types] using table.signedValid.nonempty
  have nested := table.types_nested signed value
  obtain ⟨before, last, row⟩ : ∃ before last, table.types signed = before ++ [last] :=
    ⟨_, _, (List.dropLast_concat_getLast present).symm⟩
  rw [row] at nested ⊢
  simp only [List.getLast?_append, List.getLast?_singleton, Option.some_or, Option.some.injEq,
    exists_eq_left']
  constructor
  · intro outside
    exact outside last (by simp)
  · intro outside type member
    rcases List.mem_append.mp member with earlier | final
    · have reaches := (List.pairwise_append.mp nested).2.2 type earlier last (by simp)
      rw [outside] at reaches
      simpa using reaches
    · rw [List.mem_singleton.mp final, outside]

end TierTable

end TypedLiteral

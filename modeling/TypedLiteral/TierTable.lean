import TypedLiteral.IntType

/-!
Tables of the integer types a literal may be given, narrowest first, with one
row of widths for literals without a sign and one for literals with a sign. A
table only exists for rows that are not empty, stay within 1 to 64 bits and
ascend strictly; the first fault of two rows is the one reported.
-/
namespace TypedLiteral

structure ValidRow (widths : List Nat) : Prop where
  nonempty : widths ≠ []
  bounded : ∀ width ∈ widths, 1 ≤ width ∧ width ≤ IntType.maxWidth
  ascending : widths.Pairwise (· < ·)

structure TierTable where
  unsigned : List Nat
  signed : List Nat
  unsignedValid : ValidRow unsigned
  signedValid : ValidRow signed

inductive TierFault where
  | empty (signed : Bool)
  | outOfBounds (width : Nat)
  | notAscending (signed : Bool) (previous next : Nat)
  deriving DecidableEq

namespace TierFault

def rowName (signed : Bool) : String := if signed then "signed" else "unsigned"

def message : TierFault → String
  | .empty signed => rowName signed ++ " tier list is empty"
  | .outOfBounds width => s!"tier width {width} is outside 1..={IntType.maxWidth}"
  | .notAscending signed previous next =>
      rowName signed ++ s!" tier widths must be strictly ascending: {previous} then {next}"

end TierFault

namespace TierTable

def inBounds (width : Nat) : Bool := 1 ≤ width && width ≤ IntType.maxWidth

/-- The leftmost neighbours that do not ascend. -/
def descent : List Nat → Option (Nat × Nat)
  | previous :: next :: rest =>
      if previous < next then descent (next :: rest) else some (previous, next)
  | _ => none

def fault (signed : Bool) (widths : List Nat) : Option TierFault :=
  if widths = [] then some (.empty signed)
  else match widths.find? (!inBounds ·) with
    | some width => some (.outOfBounds width)
    | none => (descent widths).map fun pair => .notAscending signed pair.1 pair.2

theorem descent_none (widths : List Nat) (ascends : descent widths = none) :
    widths.Pairwise (· < ·) := by
  induction widths with
  | nil => exact .nil
  | cons first rest ih =>
      cases rest with
      | nil => simp
      | cons second rest =>
          rw [descent] at ascends
          split at ascends
          · next less =>
              have later := ih ascends
              refine List.pairwise_cons.mpr ⟨?_, later⟩
              intro width member
              rcases List.mem_cons.mp member with same | further
              · exact same ▸ less
              · exact Nat.lt_trans less ((List.pairwise_cons.mp later).1 width further)
          · cases ascends

theorem fault_none (signed : Bool) (widths : List Nat)
    (sound : fault signed widths = none) : ValidRow widths := by
  unfold fault at sound
  split at sound
  · cases sound
  · next nonempty =>
      split at sound
      · cases sound
      · next inside =>
          refine ⟨nonempty, ?_, descent_none widths (Option.map_eq_none_iff.mp sound)⟩
          intro width member
          have bounds := List.find?_eq_none.mp inside width member
          simp [inBounds] at bounds
          exact ⟨Nat.pos_of_ne_zero bounds.1, bounds.2⟩

def ofWidths (unsigned signed : List Nat) : Except TierFault TierTable :=
  match unsignedSound : fault false unsigned with
  | some found => .error found
  | none => match signedSound : fault true signed with
    | some found => .error found
    | none => .ok ⟨unsigned, signed, fault_none _ _ unsignedSound, fault_none _ _ signedSound⟩

/-- Widths 8, 16, 32 and 64 for both signednesses. -/
def standard : TierTable where
  unsigned := [8, 16, 32, 64]
  signed := [8, 16, 32, 64]
  unsignedValid := fault_none false _ (by decide)
  signedValid := fault_none true _ (by decide)

/-- Widths 8, 32 and 64 for both signednesses. -/
def threeTier : TierTable where
  unsigned := [8, 32, 64]
  signed := [8, 32, 64]
  unsignedValid := fault_none false _ (by decide)
  signedValid := fault_none true _ (by decide)

def types (table : TierTable) (signed : Bool) : List IntType :=
  (if signed then table.signed else table.unsigned).map fun width => ⟨width, signed⟩

/-- The first type of a signedness that contains a value. -/
def narrowest (table : TierTable) (signed : Bool) (value : Int) : Option IntType :=
  (table.types signed).find? (·.contains value)

end TierTable

end TypedLiteral

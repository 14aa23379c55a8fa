import TypedLiteral.Text.Utf8
import TypedLiteral.Lexicon

/-!
Cutting a source into tokens. Every token is the longest match of any rule at
its place. Where no rule matches, an error token covers an unfinished literal or
comment, or else one character. The tokens carry their texts and tile the
source, so their spans are the running sums of their sizes.
-/
namespace TypedLiteral

structure Token where
  kind : Kind
  text : List Char
  deriving DecidableEq

structure Lexeme where
  token : Token
  span : Span
  deriving DecidableEq

namespace Token

/-- The longer of two candidates; the earlier one where both are equally long. -/
def longer : Option (Kind × Nat) → Option (Kind × Nat) → Option (Kind × Nat)
  | none, later => later
  | some earlier, none => some earlier
  | some earlier, some later => if earlier.2 < later.2 then some later else some earlier

def best (text : List Char) : List (Kind × Pattern) → Option (Kind × Nat)
  | [] => none
  | (kind, pattern) :: rules =>
      longer ((pattern.longest text).map fun count => (kind, count)) (best text rules)

/-- Length of the unfinished literal or comment at the start of a text. -/
def unfinishedLength (text : List Char) : List Pattern → Nat
  | [] => 0
  | pattern :: patterns => max ((pattern.longest text).getD 0) (unfinishedLength text patterns)

def head (text : List Char) : Kind × Nat :=
  match best text Lexicon.rules with
  | some found => found
  | none => (.error, max 1 (unfinishedLength text Lexicon.unfinished))

theorem longer_pos (earlier later : Option (Kind × Nat)) (found : Kind × Nat)
    (earlierPos : ∀ other, earlier = some other → 0 < other.2)
    (laterPos : ∀ other, later = some other → 0 < other.2)
    (chosen : longer earlier later = some found) : 0 < found.2 := by
  cases earlier with
  | none => exact laterPos found chosen
  | some first =>
      cases later with
      | none => exact earlierPos found chosen
      | some second =>
          simp only [longer] at chosen
          split at chosen
          · exact laterPos found chosen
          · exact earlierPos found chosen

theorem best_pos (text : List Char) (rules : List (Kind × Pattern)) (found : Kind × Nat)
    (chosen : best text rules = some found) : 0 < found.2 := by
  induction rules generalizing found with
  | nil => cases chosen
  | cons rule rules ih =>
      refine longer_pos _ _ found ?_ ih chosen
      intro other matched
      obtain ⟨count, longest, rfl⟩ := Option.map_eq_some_iff.mp matched
      exact Pattern.longest_pos _ _ _ longest

theorem head_pos (text : List Char) : 0 < (head text).2 := by
  unfold head
  split
  · next found chosen => exact best_pos text _ found chosen
  · exact Nat.le_max_left 1 _

def split (source : List Char) : List Token :=
  match source with
  | [] => []
  | c :: rest =>
      let found := head (c :: rest)
      ⟨found.1, (c :: rest).take found.2⟩ :: split ((c :: rest).drop found.2)
  termination_by source.length
  decreasing_by
    have := head_pos (c :: rest)
    simp only [List.length_drop, List.length_cons]
    omega

/-- Tokens with their spans, the first one starting at `offset`. -/
def place (offset : Nat) : List Token → List Lexeme
  | [] => []
  | token :: rest =>
      let stop := offset + Utf8.size token.text
      ⟨token, ⟨offset, stop⟩⟩ :: place stop rest

end Token

def tokenize (source : String) : List Lexeme :=
  Token.place 0 (Token.split source.toList)

def significant (lexemes : List Lexeme) : List Lexeme :=
  lexemes.filter fun lexeme => !lexeme.token.kind.isTrivia

end TypedLiteral

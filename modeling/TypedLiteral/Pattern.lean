/-!
Regular patterns over characters. `Matches` says which texts a pattern stands
for; `nullable` and `derivative` decide the same one character at a time, and
`longest` runs them over a text and keeps the last place where the pattern was
complete. A pattern that can match nothing any more is `never`, so the run stops
as soon as no longer match is possible.
-/
namespace TypedLiteral

inductive Pattern where
  | never
  | empty
  | one (accepts : Char → Bool)
  | seq (first second : Pattern)
  | alt (left right : Pattern)
  | star (body : Pattern)

namespace Pattern

inductive Matches : Pattern → List Char → Prop where
  | empty : Matches .empty []
  | one (accepts : Char → Bool) (c : Char) (accepted : accepts c = true) :
      Matches (.one accepts) [c]
  | seq (first second : Pattern) (head tail : List Char)
      (matchesHead : Matches first head) (matchesTail : Matches second tail) :
      Matches (.seq first second) (head ++ tail)
  | left (left right : Pattern) (text : List Char) (matched : Matches left text) :
      Matches (.alt left right) text
  | right (left right : Pattern) (text : List Char) (matched : Matches right text) :
      Matches (.alt left right) text
  | done (body : Pattern) : Matches (.star body) []
  | more (body : Pattern) (head tail : List Char)
      (matchesHead : Matches body head) (matchesTail : Matches (.star body) tail) :
      Matches (.star body) (head ++ tail)

def nullable : Pattern → Bool
  | .never => false
  | .empty => true
  | .one _ => false
  | .seq first second => first.nullable && second.nullable
  | .alt left right => left.nullable || right.nullable
  | .star _ => true

/-- Sequence of two patterns, in the shortest form. -/
def andThen : Pattern → Pattern → Pattern
  | .never, _ => .never
  | _, .never => .never
  | .empty, second => second
  | first, second => .seq first second

def orElse : Pattern → Pattern → Pattern
  | .never, right => right
  | left, .never => left
  | left, right => .alt left right

/-- The pattern of what may follow the character `c`. -/
def derivative (c : Char) : Pattern → Pattern
  | .never => .never
  | .empty => .never
  | .one accepts => if accepts c then .empty else .never
  | .seq first second =>
      let later := (first.derivative c).andThen second
      if first.nullable then later.orElse (second.derivative c) else later
  | .alt left right => (left.derivative c).orElse (right.derivative c)
  | .star body => (body.derivative c).andThen (.star body)

/-- The longest match so far, after `read` characters. -/
def longestFrom (pattern : Pattern) (read : Nat) (best : Option Nat) :
    List Char → Option Nat
  | [] => best
  | c :: rest =>
      match pattern.derivative c with
      | .never => best
      | next =>
          longestFrom next (read + 1) (if next.nullable then some (read + 1) else best) rest

def longest (pattern : Pattern) (text : List Char) : Option Nat :=
  pattern.longestFrom 0 none text

theorem longestFrom_lt (text : List Char) (pattern : Pattern) (read : Nat)
    (best : Option Nat) (count : Nat)
    (found : pattern.longestFrom read best text = some count) :
    best = some count ∨ read < count := by
  induction text generalizing pattern read best with
  | nil => exact .inl found
  | cons c rest ih =>
      rw [longestFrom] at found
      split at found
      · exact .inl found
      · rcases ih _ _ _ found with same | later
        · split at same
          · cases same; exact .inr (Nat.lt_succ_self read)
          · exact .inl same
        · exact .inr (Nat.lt_of_succ_lt later)

theorem longest_pos (pattern : Pattern) (text : List Char) (count : Nat)
    (found : pattern.longest text = some count) : 0 < count := by
  rcases longestFrom_lt text pattern 0 none count found with absurd | positive
  · cases absurd
  · exact positive

end Pattern

end TypedLiteral

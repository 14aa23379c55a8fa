import TypedLiteral.FloatLiteral
import TypedLiteral.IntegerLiteral

/-!
Numeric literals: a text with a point is a decimal fraction, any other text an
integer whose base is read off its first characters.
-/
namespace TypedLiteral

inductive NumberLiteral where
  | integer (literal : IntegerLiteral)
  | float (literal : FloatLiteral)
  deriving DecidableEq

inductive NumberConstant where
  | integer (constant : IntegerConstant)
  | float (constant : FloatConstant)
  deriving DecidableEq

namespace NumberLiteral

/-- The text before and after the first point, if there is one. -/
def splitPoint : List Char → Option (List Char × List Char)
  | [] => none
  | c :: rest =>
      if c = '.' then some ([], rest)
      else (splitPoint rest).map fun parts => (c :: parts.1, parts.2)

def ofText (sign : Sign) (text : List Char) : NumberLiteral :=
  match splitPoint text with
  | some (whole, fraction) => .float ⟨sign, whole, fraction⟩
  | none => .integer ⟨sign, (Base.split text).1, (Base.split text).2⟩

def evaluate (literal : NumberLiteral) (tiers : TierTable) :
    Except NumberFault NumberConstant :=
  match literal with
  | .integer whole => (whole.evaluate tiers).map .integer
  | .float decimal => (decimal.evaluate.mapError .broken).map .float

def events (literal : NumberLiteral) (tiers : TierTable) : List Event :=
  match literal with
  | .integer whole => whole.events tiers
  | .float decimal => decimal.events

end NumberLiteral

end TypedLiteral

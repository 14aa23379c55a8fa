import TypedLiteral.Weight

/-!
Integer types: a width in bits and a signedness. Patterns are 64 bits wide, so a
type wider than that keeps every pattern whole.
-/
namespace TypedLiteral

structure IntType where
  width : Nat
  signed : Bool
  deriving DecidableEq

namespace IntType

def maxWidth : Nat := 64

/-- Number of patterns the type tells apart. -/
def modulus (type : IntType) : Nat := weight 2 (min type.width maxWidth)

/-- The pattern of all ones. -/
def mask (type : IntType) : Nat := type.modulus - 1

def least (type : IntType) : Int :=
  if type.signed then -(weight 2 (type.width - 1) : Int) else 0

def greatest (type : IntType) : Int :=
  if type.signed then (weight 2 (type.width - 1) : Int) - 1
  else (weight 2 type.width : Int) - 1

def contains (type : IntType) (value : Int) : Bool :=
  type.least ≤ value && value ≤ type.greatest

def name (type : IntType) : String :=
  (if type.signed then "i" else "u") ++ toString type.width

theorem modulus_pos (type : IntType) : 0 < type.modulus :=
  bit_pos _

end IntType

end TypedLiteral

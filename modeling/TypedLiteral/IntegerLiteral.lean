import TypedLiteral.Event
import TypedLiteral.Numeral
import TypedLiteral.TierTable

/-!
Integer literals and the constants they stand for. A constant is a type with a
pattern, and its value is the one number of the type's range that agrees with
the pattern. A literal without a sign looks for an unsigned type, and one with a
sign, even before zero, for a signed type.
-/
namespace TypedLiteral

structure IntegerConstant where
  type : IntType
  bits : Nat
  fits : bits < type.modulus
  deriving DecidableEq

namespace IntegerConstant

/-- The constant whose pattern agrees with a value in the bits of the type. -/
def ofInt (type : IntType) (value : Int) : IntegerConstant where
  type := type
  bits := (value % type.modulus).toNat
  fits := by
    have positive : (0 : Int) < type.modulus := by exact_mod_cast type.modulus_pos
    have := Int.emod_lt_of_pos value positive
    have := Int.emod_nonneg value (Int.ne_of_gt positive)
    omega

def value (constant : IntegerConstant) : Int :=
  if constant.type.signed then Int.bmod constant.bits (weight 2 constant.type.width)
  else constant.bits

def render (constant : IntegerConstant) : String :=
  "(" ++ constant.type.name ++ " " ++ toString constant.value ++ ")"

end IntegerConstant

structure RangeError where
  literal : List Char
  signed : Bool
  deriving DecidableEq

def RangeError.message (fault : RangeError) : String :=
  let literal := String.ofList fault.literal
  let row := TierFault.rowName fault.signed
  s!"integer literal {literal} does not fit any {row} type"

inductive NumberFault where
  | broken (violation : Violation)
  | outOfRange (fault : RangeError)
  deriving DecidableEq

def NumberFault.message : NumberFault → String
  | .broken violation => violation.message
  | .outOfRange fault => fault.message

structure IntegerLiteral where
  sign : Sign
  base : Base
  digits : List Char
  deriving DecidableEq

namespace IntegerLiteral

def text (literal : IntegerLiteral) : List Char :=
  literal.sign.text ++ literal.base.mark literal.digits ++ literal.digits

def rangeError (literal : IntegerLiteral) : RangeError :=
  ⟨literal.text, literal.sign.isExplicit⟩

/-- The constant of a magnitude, if it takes 64 bits at most and some type of the
literal's signedness contains it. -/
def narrow? (sign : Sign) (magnitude : Nat) (tiers : TierTable) : Option IntegerConstant :=
  if magnitude < weight 2 64 then
    (tiers.narrowest sign.isExplicit (sign.apply magnitude)).map
      (IntegerConstant.ofInt · (sign.apply magnitude))
  else none

def evaluate (literal : IntegerLiteral) (tiers : TierTable) :
    Except NumberFault IntegerConstant :=
  match literal.base.magnitude literal.digits with
  | .error violation => .error (.broken violation)
  | .ok magnitude =>
      match narrow? literal.sign magnitude tiers with
      | some constant => .ok constant
      | none => .error (.outOfRange literal.rangeError)

def events (literal : IntegerLiteral) (tiers : TierTable) : List Event :=
  match literal.evaluate tiers with
  | .error (.outOfRange fault) => [⟨.debug, fault.message⟩]
  | _ => []

end IntegerLiteral

end TypedLiteral

import TypedLiteral.Text.Quoted

/-!
Broken preconditions. A caller that keeps to the digits of a base, to the bits a
number has, and to divisors other than zero never sees one.
-/
namespace TypedLiteral

inductive Violation where
  | invalidDigit (byte : UInt8) (radix : Nat)
  | tooManyBits (count total : Nat)
  | divisionByZero
  deriving DecidableEq

def Violation.message : Violation → String
  | .invalidDigit byte radix =>
      let shown := String.ofList (Quoted.text '\'' [Char.ofNat byte.toNat])
      s!"digit {shown} is not valid in base {radix}"
  | .tooManyBits count total => s!"cannot take {count} bits from a {total}-bit value"
  | .divisionByZero => "division of a big integer by zero"

end TypedLiteral

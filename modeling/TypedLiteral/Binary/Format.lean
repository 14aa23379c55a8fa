import TypedLiteral.Binary.Rounding

/-!
Binary interchange formats and the numbers that are rounded to them. A scaled
number is a mantissa times a power of two. Below the least normal exponent a
format holds one bit less for every power of two, down to none at half of the
least subnormal.
-/
namespace TypedLiteral.Binary

structure Format where
  precision : Nat
  exponentBits : Nat
  deriving DecidableEq

def binary32 : Format := ⟨24, 8⟩

def binary64 : Format := ⟨53, 11⟩

namespace Format

/-- Largest exponent of a finite number, and the bias of the exponent field. -/
def maxExponent (format : Format) : Nat := weight 2 (format.exponentBits - 1) - 1

def minExponent (format : Format) : Int := 1 - format.maxExponent

def fractionBits (format : Format) : Nat := format.precision - 1

def leastExponent (format : Format) : Int := format.minExponent - format.fractionBits

def specialExponent (format : Format) : Nat := weight 2 format.exponentBits - 1

def pattern (format : Format) (negative : Bool) (exponent fraction : Nat) : Nat :=
  let sign := if negative then weight 2 (format.exponentBits + format.fractionBits) else 0
  sign + exponent * weight 2 format.fractionBits + fraction

def isNegative (format : Format) (pattern : Nat) : Bool :=
  pattern / weight 2 (format.exponentBits + format.fractionBits) % 2 = 1

def exponentOf (format : Format) (pattern : Nat) : Nat :=
  pattern / weight 2 format.fractionBits % weight 2 format.exponentBits

def fractionOf (format : Format) (pattern : Nat) : Nat :=
  pattern % weight 2 format.fractionBits

/-- Bits the format holds of a number whose leading bit has the given exponent,
if it is not below half of the least subnormal. -/
def precisionAt (format : Format) (leading : Int) : Option Nat :=
  if format.minExponent ≤ leading then some format.precision
  else
    let available := format.precision - (format.minExponent - leading)
    if 0 ≤ available then some available.toNat else none

/-- The pattern in `target` of the number that a pattern of this format stands
for. The target's normal numbers must reach down to this format's least one. -/
def widen (format target : Format) (pattern : Nat) : Nat :=
  let negative := format.isNegative pattern
  let exponent := format.exponentOf pattern
  let fraction := format.fractionOf pattern
  let aligned := fraction * weight 2 (target.fractionBits - format.fractionBits)
  if exponent = format.specialExponent then
    target.pattern negative target.specialExponent aligned
  else if 0 < exponent then
    target.pattern negative (exponent + (target.maxExponent - format.maxExponent)) aligned
  else if fraction = 0 then target.pattern negative 0 0
  else
    let leading := format.leastExponent + bitLength fraction - 1
    let significand := fraction * weight 2 (target.precision - bitLength fraction)
    target.pattern negative (leading + target.maxExponent).toNat
      (significand % weight 2 target.fractionBits)

end Format

/-- A mantissa times a power of two. The exponent is kept in a word of 64 bits with its
sign and has no bounds here; what it takes to stay within them is `Scaled.Fits`. -/
structure Scaled where
  mantissa : Nat
  exponent : Int
  deriving DecidableEq

namespace Scaled

def zero : Scaled := ⟨0, 0⟩

def quotientBits : Nat := 64

/-- A quotient to 64 bits or more. A remainder makes the last bit odd; that bit
lies far below every place where the quotient is rounded, so it only tells that
the quotient is not exact. -/
def quotient (numerator denominator : Nat) : Except Violation Scaled :=
  let shift : Int := quotientBits - bitLength numerator + bitLength denominator
  let divided := if 0 ≤ shift then divide (numerator * weight 2 shift.toNat) denominator
    else divide numerator (denominator * weight 2 (-shift).toNat)
  divided.map fun parts =>
    ⟨if parts.2 = 0 then parts.1 else parts.1 / 2 * 2 + 1, -shift⟩

def leadingExponent (number : Scaled) : Int :=
  number.exponent + bitLength number.mantissa - 1

def round (number : Scaled) (format : Format) (incoming : Direction) : Scaled × Direction :=
  if number.mantissa = 0 then (number, incoming)
  else match format.precisionAt number.leadingExponent with
    | none => (zero, .down)
    | some precision =>
        let rounded := roundToBits number.mantissa precision incoming
        (⟨rounded.1, number.exponent⟩, rounded.2)

/-- The pattern of a number that was rounded to the format. A rounded quotient is
as long as the quotient, so a subnormal always has the bits its fraction needs. -/
def encode (number : Scaled) (format : Format) (negative : Bool) : Except Violation Nat :=
  let length := bitLength number.mantissa
  let leading := number.leadingExponent
  if number.mantissa = 0 then .ok (format.pattern negative 0 0)
  else if format.maxExponent < leading then
    .ok (format.pattern negative format.specialExponent 0)
  else if format.minExponent ≤ leading then
    let kept := min length format.precision
    (leadingBits number.mantissa kept).map fun bits =>
      format.pattern negative (leading + format.maxExponent).toNat
        (bits * weight 2 (format.precision - kept) % weight 2 format.fractionBits)
  else
    let kept := (leading - format.leastExponent + 1).toNat
    (leadingBits number.mantissa (min kept length)).map fun bits =>
      format.pattern negative 0 bits

end Scaled

end TypedLiteral.Binary

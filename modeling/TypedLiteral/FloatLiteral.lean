import TypedLiteral.Binary.Format
import TypedLiteral.Event
import TypedLiteral.Numeral

/-!
Decimal literals with a point. The digits over a power of ten are divided, then
rounded to binary64, and that result is rounded once more to binary32. The
second rounding is told the direction of the first, so it agrees with rounding
the literal to binary32 at once. The literal has single precision exactly when
the binary32 pattern widens back to the binary64 pattern.
-/
namespace TypedLiteral

open Binary

inductive FloatConstant where
  | single (pattern : BitVec 32)
  | double (pattern : BitVec 64)
  deriving DecidableEq

namespace FloatConstant

def bits : FloatConstant → Nat
  | .single pattern => pattern.toNat
  | .double pattern => pattern.toNat

def doubleBits : FloatConstant → Nat
  | .single pattern => binary32.widen binary64 pattern.toNat
  | .double pattern => pattern.toNat

def hexadecimal (count n : Nat) : String :=
  String.ofList ((Quoted.hexadecimal n).leftpad count '0')

def render : FloatConstant → String
  | .single pattern => "(f32 0x" ++ hexadecimal 8 pattern.toNat ++ ")"
  | .double pattern => "(f64 0x" ++ hexadecimal 16 pattern.toNat ++ ")"

end FloatConstant

/-- A number rounded to binary64, and that result rounded to binary32. -/
structure Candidates where
  double : Scaled
  direction : Direction
  single : Scaled
  singleDirection : Direction
  deriving DecidableEq

def Candidates.of (number : Scaled) : Candidates :=
  let double := number.round binary64 .exact
  let single := double.1.round binary32 double.2
  ⟨double.1, double.2, single.1, single.2⟩

structure FloatLiteral where
  sign : Sign
  integer : List Char
  fraction : List Char
  deriving DecidableEq

namespace FloatLiteral

def text (literal : FloatLiteral) : List Char :=
  literal.sign.text ++ literal.integer ++ '.' :: literal.fraction

/-- The magnitude of the literal, to the bits a rounding needs. -/
def scaled (literal : FloatLiteral) : Except Violation Scaled := do
  let numerator ← Base.decimal.magnitude (literal.integer ++ literal.fraction)
  if numerator = 0 then .ok .zero
  else Scaled.quotient numerator (weight 10 literal.fraction.length)

def choose (candidates : Candidates) (negative : Bool) : Except Violation FloatConstant := do
  let double ← candidates.double.encode binary64 negative
  let single ← candidates.single.encode binary32 negative
  if binary32.widen binary64 single = double then
    .ok (.single (BitVec.ofNat 32 single))
  else .ok (.double (BitVec.ofNat 64 double))

def evaluate (literal : FloatLiteral) : Except Violation FloatConstant := do
  choose (Candidates.of (← literal.scaled)) literal.sign.isNegative

/-- What is reported of rounding a number: nothing for zero and below half of
the least subnormal. -/
def roundingEvents (number : Scaled) (format : Format) (direction : Direction) : List Event :=
  if number.mantissa = 0 then []
  else match format.precisionAt number.leadingExponent with
    | none => []
    | some precision =>
        let exponent := number.leadingExponent
        let outcome := direction.name
        [⟨.trace, s!"rounded to {precision} bits at 2^{exponent}: {outcome}"⟩]

def events (literal : FloatLiteral) : List Event :=
  match literal.scaled, literal.evaluate with
  | .ok number, .ok constant =>
      let candidates := Candidates.of number
      let written := String.ofList literal.text
      let rendered := constant.render
      roundingEvents number binary64 candidates.direction ++
        roundingEvents candidates.double binary32 candidates.singleDirection ++
        [⟨.debug, s!"float literal {written} evaluated to {rendered}"⟩]
  | _, _ => []

end FloatLiteral

end TypedLiteral

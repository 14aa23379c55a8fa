import TypedLiteral.Text.Utf8
import TypedLiteral.Violation

/-!
Signs, bases, and the value of a row of digits. Digits are read byte by byte, so
the first byte that is no digit of the base is the one reported.
-/
namespace TypedLiteral

inductive Sign where
  | none
  | plus
  | minus
  deriving DecidableEq

namespace Sign

def isExplicit : Sign → Bool
  | .none => false
  | .plus | .minus => true

def isNegative : Sign → Bool
  | .minus => true
  | .none | .plus => false

def text : Sign → List Char
  | .none => []
  | .plus => ['+']
  | .minus => ['-']

def apply : Sign → Nat → Int
  | .minus, magnitude => -(magnitude : Int)
  | _, magnitude => magnitude

theorem isExplicit_eq (sign : Sign) : sign.isExplicit = decide (sign ≠ .none) := by
  cases sign <;> rfl

theorem isNegative_eq (sign : Sign) : sign.isNegative = decide (sign = .minus) := by
  cases sign <;> rfl

theorem apply_eq (sign : Sign) (magnitude : Nat) :
    sign.apply magnitude = if sign = .minus then -(magnitude : Int) else magnitude := by
  cases sign <;> rfl

end Sign

/-- Value of an ASCII digit or of a letter that counts on from nine. -/
def digitValue? (code : Nat) : Option Nat :=
  if 48 ≤ code ∧ code ≤ 57 then some (code - 48)
  else if 65 ≤ code ∧ code ≤ 70 then some (code - 55)
  else if 97 ≤ code ∧ code ≤ 102 then some (code - 87)
  else none

inductive Base where
  | binary
  | octal
  | decimal
  | hex
  deriving DecidableEq

namespace Base

def radix : Base → Nat
  | .binary => 2
  | .octal => 8
  | .decimal => 10
  | .hex => 16

def digit? (base : Base) (byte : UInt8) : Option Nat :=
  (digitValue? byte.toNat).filter fun value => value < base.radix

def digits (base : Base) : List UInt8 → Except Violation (List Nat)
  | [] => .ok []
  | byte :: rest =>
      match base.digit? byte with
      | none => .error (.invalidDigit byte base.radix)
      | some value => (base.digits rest).map (value :: ·)

def positional (base : Base) (values : List Nat) : Nat :=
  values.foldl (fun total value => total * base.radix + value) 0

def magnitude (base : Base) (text : List Char) : Except Violation Nat :=
  (base.digits (Utf8.bytes text)).map base.positional

/-- Base and digits of an unsigned integer. A leading zero before other digits
means octal and stays with the digits, where it adds nothing to the value. -/
def split : List Char → Base × List Char
  | '0' :: 'x' :: rest => (.hex, rest)
  | '0' :: 'X' :: rest => (.hex, rest)
  | '0' :: 'b' :: rest => (.binary, rest)
  | '0' :: 'B' :: rest => (.binary, rest)
  | '0' :: next :: rest => (.octal, '0' :: next :: rest)
  | text => (.decimal, text)

/-- The mark in front of digits of this base. -/
def mark (base : Base) (digits : List Char) : List Char :=
  match base with
  | .hex => ['0', 'x']
  | .binary => ['0', 'b']
  | .octal => if digits.head? = some '0' then [] else ['0']
  | .decimal => []

end Base

end TypedLiteral

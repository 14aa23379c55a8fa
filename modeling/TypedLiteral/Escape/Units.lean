import TypedLiteral.Escape.Item

/-!
The units of a body. Narrow units have 8 bits and wide units 32. A plain
character or universal name gives its UTF-8 bytes or its code point; every other
item gives one unit, which has to fit. Items are read and measured one by one,
so the first bad item from the left is the one reported.
-/
namespace TypedLiteral

inductive UnitWidth where
  | narrow
  | wide
  deriving DecidableEq

namespace UnitWidth

def bits : UnitWidth → Nat
  | .narrow => 8
  | .wide => 32

def unitType (width : UnitWidth) : IntType := ⟨width.bits, false⟩

def units (width : UnitWidth) (c : Char) : List Nat :=
  match width with
  | .narrow => (String.utf8EncodeChar c).map UInt8.toNat
  | .wide => [c.toNat]

end UnitWidth

namespace Item

/-- Value of digits to a base, up to the digit that takes it past 32 bits. -/
def cappedValue (radix total : Nat) : List Char → Nat
  | [] => total
  | c :: rest =>
      let next := total * radix + (digitValue? c.toNat).getD 0
      if next < weight 2 32 then cappedValue radix next rest else next

def fitUnit (width : UnitWidth) (value : Nat) : Except EscapeError (List Nat) :=
  if value < weight 2 width.bits then .ok [value] else .error (.outOfRange value width.bits)

def units (width : UnitWidth) : Item → Except EscapeError (List Nat)
  | .plain c => .ok (width.units c)
  | .simple _ unit => .ok [unit]
  | .octal digits => fitUnit width (cappedValue 8 0 digits)
  | .hex digits => fitUnit width (cappedValue 16 0 digits)
  | .universal digits =>
      let value := cappedValue 16 0 digits
      if value.isValidChar then .ok (width.units (Char.ofNat value))
      else .error (.invalidCodePoint value)

end Item

def decodeUnits (width : UnitWidth) (body : List Char) : Except EscapeError (List Nat) :=
  match body with
  | [] => .ok []
  | first :: rest =>
      match _ : Item.read first rest with
      | .error fault => .error fault
      | .ok (item, after) =>
          match item.units width with
          | .error fault => .error fault
          | .ok units => (decodeUnits width after).map (units ++ ·)
  termination_by body.length
  decreasing_by exact Nat.lt_succ_of_le (Item.read_length first rest after item ‹_›)

end TypedLiteral

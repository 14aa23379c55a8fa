import TypedLiteral.Escape.Units
import TypedLiteral.IntegerLiteral

/-!
Character and string literals. A character literal is the one unit its body
decodes to, and a string is its units with a zero at the end.
-/
namespace TypedLiteral

structure QuotedLiteral where
  width : UnitWidth
  body : List Char
  deriving DecidableEq

structure StringConstant where
  width : UnitWidth
  units : List Nat
  deriving DecidableEq

namespace StringConstant

def render (constant : StringConstant) : String :=
  let name := match constant.width with
    | .narrow => "str"
    | .wide => "wstr"
  "(" ++ name ++ " " ++ " ".intercalate (constant.units.map toString) ++ ")"

end StringConstant

namespace QuotedLiteral

def character (literal : QuotedLiteral) : Except EscapeError IntegerConstant :=
  match decodeUnits literal.width literal.body with
  | .error fault => .error fault
  | .ok [] => .error .emptyCharacter
  | .ok [unit] => .ok (IntegerConstant.ofInt literal.width.unitType unit)
  | .ok units => .error (.multiCharacter units.length)

def characterEvents (literal : QuotedLiteral) : List Event :=
  match literal.character with
  | .error (.multiCharacter count) =>
      let body := String.ofList (Quoted.text '"' literal.body)
      [⟨.debug, s!"character literal {body} decoded to {count} units"⟩]
  | _ => []

def string (literal : QuotedLiteral) : Except EscapeError StringConstant :=
  (decodeUnits literal.width literal.body).map fun units => ⟨literal.width, units ++ [0]⟩

end QuotedLiteral

end TypedLiteral

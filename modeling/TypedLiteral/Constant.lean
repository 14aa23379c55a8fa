import TypedLiteral.Number
import TypedLiteral.QuotedLiteral

/-!
Typed constants and their written form: a tag and numbers in parentheses.
-/
namespace TypedLiteral

inductive Constant where
  | integer (constant : IntegerConstant)
  | float (constant : FloatConstant)
  | character (constant : IntegerConstant)
  | string (constant : StringConstant)
  deriving DecidableEq

namespace Constant

def ofNumber : NumberConstant → Constant
  | .integer constant => .integer constant
  | .float constant => .float constant

def render : Constant → String
  | .integer constant => constant.render
  | .float constant => constant.render
  | .character constant => s!"(char {constant.type.name} {constant.bits})"
  | .string constant => constant.render

end Constant

end TypedLiteral

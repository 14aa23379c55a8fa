import TypedLiteral.Constant
import TypedLiteral.Token

/-!
Literal tokens and what they stand for. A token that holds no literal has a
cause instead, and so has a literal without a value.
-/
namespace TypedLiteral

inductive Cause where
  | missingConstant
  | missingNumber
  | misplacedSign
  | missing (kind : Kind)
  | unexpected (kind : Kind)
  | unrecognised (text : List Char)
  | noConstant (kind : Kind)
  | unterminated (text : List Char)
  | number (fault : NumberFault)
  | escape (fault : EscapeError)
  deriving DecidableEq

def Cause.message : Cause → String
  | .missingConstant => "expected a constant"
  | .missingNumber => "expected a numeric literal after sign"
  | .misplacedSign => "a sign must precede a numeric literal"
  | .missing kind => "expected " ++ kind.name
  | .unexpected kind => "unexpected token: " ++ kind.name
  | .unrecognised text => "unrecognised input '" ++ String.ofList text ++ "'"
  | .noConstant kind => "expected a constant, found " ++ kind.name
  | .unterminated text => "unterminated literal " ++ String.ofList text
  | .number fault => fault.message
  | .escape fault => fault.message

inductive Literal where
  | number (literal : NumberLiteral)
  | character (literal : QuotedLiteral)
  | string (literal : QuotedLiteral)
  deriving DecidableEq

/-- The sign that a token of this kind puts in front of a number. -/
def Kind.sign? : Kind → Option Sign
  | .plus => some .plus
  | .minus => some .minus
  | _ => none

theorem Kind.sign?_iff {kind : Kind} {mark : Sign} : kind.sign? = some mark ↔
    (kind, mark) ∈ [(.plus, .plus), (.minus, .minus)] := by
  cases kind <;> cases mark <;> decide

namespace Literal

/-- The text between two quotes, after the mark of a wide literal. -/
def quotedBody (width : UnitWidth) (quote : Char) (text : List Char) : Option (List Char) :=
  let unmarked := match width, text with
    | .wide, 'L' :: rest => rest
    | _, text => text
  match unmarked with
  | [] => none
  | first :: rest =>
      if first = quote ∧ rest.getLast? = some quote then some rest.dropLast else none

def quoted (width : UnitWidth) (quote : Char) (text : List Char) : Except Cause QuotedLiteral :=
  match quotedBody width quote text with
  | some body => .ok ⟨width, body⟩
  | none => .error (.unterminated text)

def ofToken (sign : Sign) (token : Token) : Except Cause Literal :=
  match token.kind with
  | .int | .float => .ok (.number (NumberLiteral.ofText sign token.text))
  | .char => (quoted .narrow '\'' token.text).map .character
  | .wideChar => (quoted .wide '\'' token.text).map .character
  | .string => (quoted .narrow '"' token.text).map .string
  | .wideString => (quoted .wide '"' token.text).map .string
  | .error => .error (.unrecognised token.text)
  | kind => .error (.noConstant kind)

def evaluate (literal : Literal) (tiers : TierTable) : Except Cause Constant :=
  match literal with
  | .number numeric => ((numeric.evaluate tiers).map Constant.ofNumber).mapError .number
  | .character body => (body.character.map .character).mapError .escape
  | .string body => (body.string.map .string).mapError .escape

def events (literal : Literal) (tiers : TierTable) : List Event :=
  match literal with
  | .number numeric => numeric.events tiers
  | .character body => body.characterEvents
  | .string _ => []

end Literal

end TypedLiteral

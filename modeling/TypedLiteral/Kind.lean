/-!
The kinds of tokens of a constant expression. Trivia separate tokens, numeric
kinds may follow a sign, and literal kinds have a value of their own.
-/
namespace TypedLiteral

inductive Kind where
  | whitespace
  | comment
  | int
  | float
  | char
  | wideChar
  | string
  | wideString
  | plus
  | minus
  | comma
  | leftBrace
  | rightBrace
  | error
  deriving DecidableEq

namespace Kind

def all : List Kind :=
  [.whitespace, .comment, .int, .float, .char, .wideChar, .string, .wideString,
    .plus, .minus, .comma, .leftBrace, .rightBrace, .error]

def name : Kind → String
  | .whitespace => "T_WHITESPACE"
  | .comment => "T_COMMENT"
  | .int => "T_INT"
  | .float => "T_FLOAT"
  | .char => "T_CHAR"
  | .wideChar => "T_WIDE_CHAR"
  | .string => "T_STRING"
  | .wideString => "T_WIDE_STRING"
  | .plus => "T_PLUS"
  | .minus => "T_MINUS"
  | .comma => "T_COMMA"
  | .leftBrace => "T_LBRACE"
  | .rightBrace => "T_RBRACE"
  | .error => "N_ERROR"

def isTrivia : Kind → Bool
  | .whitespace | .comment => true
  | _ => false

def isNumeric : Kind → Bool
  | .int | .float => true
  | _ => false

def isLiteral : Kind → Bool
  | .int | .float | .char | .wideChar | .string | .wideString => true
  | _ => false

/-- Delimiters end an element of a list. -/
def isDelimiter : Kind → Bool
  | .comma | .rightBrace => true
  | _ => false

theorem isNumeric_iff {kind : Kind} : kind.isNumeric = true ↔ kind ∈ [.int, .float] := by
  cases kind <;> decide

theorem isLiteral_iff {kind : Kind} : kind.isLiteral = true ↔
    kind ∈ [.int, .float, .char, .wideChar, .string, .wideString] := by
  cases kind <;> decide

end Kind

end TypedLiteral

import TypedLiteral.Kind
import TypedLiteral.Pattern

/-!
The patterns of the tokens. A quoted literal is an opening quote, units, and the
same quote; a unit is a plain character, or a backslash with any character but a
line feed. A block comment has units of its own: a character other than a star,
or a star with any character but a slash.

What is left when the closing mark never comes is an unfinished literal or
comment: its opening mark and the whole units after it.
-/
namespace TypedLiteral.Lexicon

open Pattern

def char (c : Char) : Pattern := .one (· == c)

def range (low high : Char) : Pattern := .one fun c => low ≤ c && c ≤ high

def oneOf (chars : List Char) : Pattern := .one chars.contains

def noneOf (chars : List Char) : Pattern := .one fun c => !chars.contains c

def plus (body : Pattern) : Pattern := .seq body (.star body)

def digit : Pattern := range '0' '9'

def octalDigit : Pattern := range '0' '7'

def hexDigit : Pattern := .alt digit (.alt (range 'a' 'f') (range 'A' 'F'))

def whitespace : Pattern := plus (oneOf [' ', '\t', '\r', '\n'])

def commentUnit : Pattern :=
  .alt (noneOf ['*']) (.seq (char '*') (noneOf ['/']))

def openComment : Pattern :=
  .seq (.seq (char '/') (char '*')) (.star commentUnit)

def blockComment : Pattern := .seq openComment (.seq (char '*') (char '/'))

def lineComment : Pattern :=
  .seq (.seq (char '/') (char '/')) (.star (noneOf ['\n']))

def hexInt : Pattern := .seq (char '0') (.seq (oneOf ['x', 'X']) (plus hexDigit))

def binaryInt : Pattern := .seq (char '0') (.seq (oneOf ['b', 'B']) (plus (oneOf ['0', '1'])))

def octalInt : Pattern := .seq (char '0') (.star octalDigit)

def decimalInt : Pattern := .seq (range '1' '9') (.star digit)

def int : Pattern := .alt hexInt (.alt binaryInt (.alt octalInt decimalInt))

def float : Pattern :=
  .alt (.seq (plus digit) (.seq (char '.') (.star digit))) (.seq (char '.') (plus digit))

/-- An octal literal that holds an 8 or a 9. -/
def malformedOctal : Pattern :=
  .seq (char '0') (.seq (.star octalDigit) (.seq (oneOf ['8', '9']) (.star digit)))

def quotedUnit (quote : Char) : Pattern :=
  .alt (noneOf [quote, '\\', '\n']) (.seq (char '\\') (noneOf ['\n']))

def openQuoted (quote : Char) : Pattern :=
  .seq (char quote) (.star (quotedUnit quote))

def quoted (quote : Char) : Pattern := .seq (openQuoted quote) (char quote)

def wide (literal : Pattern) : Pattern := .seq (char 'L') literal

def rules : List (Kind × Pattern) :=
  [(.whitespace, whitespace),
    (.comment, .alt blockComment lineComment),
    (.int, int),
    (.float, float),
    (.error, malformedOctal),
    (.char, quoted '\''),
    (.wideChar, wide (quoted '\'')),
    (.string, quoted '"'),
    (.wideString, wide (quoted '"')),
    (.plus, char '+'),
    (.minus, char '-'),
    (.comma, char ','),
    (.leftBrace, char '\x7b'),
    (.rightBrace, char '\x7d')]

def unfinished : List Pattern :=
  [openComment, openQuoted '\'', wide (openQuoted '\''), openQuoted '"', wide (openQuoted '"')]

end TypedLiteral.Lexicon

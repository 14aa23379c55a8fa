import TypedLiteral.Text.Unprintable

/-!
Texts shown between quotes. The quote and the backslash get a backslash, the
usual controls their letter, and what cannot be seen on a line its number.
-/
namespace TypedLiteral.Quoted

def hexadecimal (n : Nat) : List Char := Nat.toDigits 16 n

def isPrintable (c : Char) : Bool :=
  if c.toNat < 0x80 then ' ' ≤ c && c ≤ '~' else !Unprintable.contains c.toNat

def character (quote c : Char) : List Char :=
  if c = Char.ofNat 0 then ['\\', '0']
  else if c = '\t' then ['\\', 't']
  else if c = '\n' then ['\\', 'n']
  else if c = '\r' then ['\\', 'r']
  else if c = quote ∨ c = '\\' then ['\\', c]
  else if isPrintable c then [c]
  else ['\\', 'u', '\x7b'] ++ hexadecimal c.toNat ++ ['\x7d']

def text (quote : Char) (body : List Char) : List Char :=
  quote :: body.flatMap (character quote) ++ [quote]

end TypedLiteral.Quoted

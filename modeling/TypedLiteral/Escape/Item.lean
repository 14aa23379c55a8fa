import TypedLiteral.IntType
import TypedLiteral.Numeral

/-!
The items of a character or string body: a plain character, a simple escape, one
to three octal digits, any number of hexadecimal digits, or a universal name of
four or eight of them. An octal or hexadecimal escape takes every digit that is
there. `Item.text` writes an item back.
-/
namespace TypedLiteral

inductive EscapeError where
  | unknown (letter : Char)
  | truncated
  | missingHexDigits
  | shortUniversalName (expected : Nat)
  | invalidCodePoint (value : Nat)
  | outOfRange (value bits : Nat)
  | emptyCharacter
  | multiCharacter (count : Nat)
  deriving DecidableEq

namespace EscapeError

def hexadecimal (value : Nat) : String := "0x" ++ String.ofList (Quoted.hexadecimal value)

def message : EscapeError → String
  | .unknown letter => "unknown escape sequence '\\" ++ String.singleton letter ++ "'"
  | .truncated => "escape sequence is missing its character"
  | .missingHexDigits => "hex escape has no digits"
  | .shortUniversalName expected => s!"universal character name needs {expected} hex digits"
  | .invalidCodePoint value =>
      "universal character name " ++ hexadecimal value ++ " is not a valid code point"
  | .outOfRange value bits =>
      "escape value " ++ hexadecimal value ++ s!" does not fit a {bits}-bit unit"
  | .emptyCharacter => "empty character literal"
  | .multiCharacter count => s!"character literal decodes to {count} units"

end EscapeError

inductive Item where
  | plain (c : Char)
  | simple (letter : Char) (unit : Nat)
  | octal (digits : List Char)
  | hex (digits : List Char)
  | universal (digits : List Char)
  deriving DecidableEq

namespace Item

/-- The unit a letter stands for after a backslash. -/
def simpleUnit? : Char → Option Nat
  | 'n' => some 10
  | 't' => some 9
  | 'r' => some 13
  | 'a' => some 7
  | 'b' => some 8
  | 'f' => some 12
  | 'v' => some 11
  | '\\' => some 92
  | '\'' => some 39
  | '"' => some 34
  | '?' => some 63
  | _ => none

def isOctal (c : Char) : Bool := '0' ≤ c && c ≤ '7'

def isHex (c : Char) : Bool := (digitValue? c.toNat).isSome

def text : Item → List Char
  | .plain c => [c]
  | .simple letter _ => ['\\', letter]
  | .octal digits => '\\' :: digits
  | .hex digits => '\\' :: 'x' :: digits
  | .universal digits => '\\' :: (if digits.length = 4 then 'u' else 'U') :: digits

def readUniversal (expected : Nat) (rest : List Char) :
    Except EscapeError (Item × List Char) :=
  let digits := (rest.take expected).takeWhile isHex
  if digits.length = expected then .ok (.universal digits, rest.drop expected)
  else .error (.shortUniversalName expected)

/-- Read the item whose backslash was just passed. -/
def readEscape : List Char → Except EscapeError (Item × List Char)
  | [] => .error .truncated
  | letter :: rest =>
      match simpleUnit? letter with
      | some unit => .ok (.simple letter unit, rest)
      | none =>
          if isOctal letter then
            let more := (rest.take 2).takeWhile isOctal
            .ok (.octal (letter :: more), rest.drop more.length)
          else if letter = 'x' then
            let digits := rest.takeWhile isHex
            if digits = [] then .error .missingHexDigits
            else .ok (.hex digits, rest.drop digits.length)
          else if letter = 'u' then readUniversal 4 rest
          else if letter = 'U' then readUniversal 8 rest
          else .error (.unknown letter)

/-- Read the item that begins with the character `first`. -/
def read (first : Char) (rest : List Char) : Except EscapeError (Item × List Char) :=
  if first = '\\' then readEscape rest else .ok (.plain first, rest)

theorem readUniversal_length (expected : Nat) (rest after : List Char) (item : Item)
    (done : readUniversal expected rest = .ok (item, after)) :
    after.length ≤ rest.length := by
  simp only [readUniversal] at done
  split at done
  · cases done; simp
  · cases done

theorem readEscape_length (rest after : List Char) (item : Item)
    (done : readEscape rest = .ok (item, after)) : after.length ≤ rest.length := by
  cases rest with
  | nil => cases done
  | cons letter rest =>
      simp only [readEscape] at done
      split at done
      · cases done; simp
      · split at done
        · cases done; simp; omega
        · split at done
          · split at done
            · cases done
            · cases done; simp; omega
          · split at done
            · exact Nat.le_succ_of_le (readUniversal_length 4 rest after item done)
            · split at done
              · exact Nat.le_succ_of_le (readUniversal_length 8 rest after item done)
              · cases done

theorem read_length (first : Char) (rest after : List Char) (item : Item)
    (done : read first rest = .ok (item, after)) : after.length ≤ rest.length := by
  unfold read at done
  split at done
  · exact readEscape_length rest after item done
  · cases done; exact Nat.le_refl _

end Item

end TypedLiteral

import TypedLiteral.Binary.Rounding

/-!
A calculator for natural numbers: an accumulator, registers that only grow, and
the direction of the last rounding. A step that breaks a precondition leaves the
calculator as it was.
-/
namespace TypedLiteral.Binary

inductive Step where
  | set (n : Nat)
  | powerOfTen (exponent : Nat)
  | multiply (factor : Nat)
  | add (addend : Nat)
  | setBit (index : Nat)
  | shiftLeft (count : Nat)
  | save
  | load (register : Nat)
  | round (precision : Nat) (incoming : Direction)
  | roundAgain (precision : Nat)
  | divide (register : Nat)
  | compare (register : Nat)
  | bit (index : Nat)
  | leadingBits (count : Nat)
  | describe
  deriving DecidableEq

/-- What can be told of a number without its digits; `word?` is the number itself if 64
bits hold it. -/
structure Description where
  isZero : Bool
  digitCount : Nat
  length : Nat
  word? : Option Nat
  deriving DecidableEq

def describe (n : Nat) : Description where
  isZero := n == 0
  digitCount := (digits n).length
  length := bitLength n
  word? := if n < weight 2 64 then some n else none

inductive Answer where
  | number (n : Nat)
  | register (index : Nat)
  | rounded (n : Nat) (direction : Direction)
  | divided (quotient remainder : Nat)
  | order (order : Ordering)
  | bit (set : Bool)
  | leading (n : Nat)
  | description (description : Description)
  deriving DecidableEq

structure Calculator where
  accumulator : Nat
  registers : List Nat
  last : Direction
  deriving DecidableEq

namespace Calculator

def start : Calculator := ⟨0, [], .exact⟩

/-- A register that was never saved holds zero. -/
def register (state : Calculator) (index : Nat) : Nat :=
  (state.registers[index]?).getD 0

def hold (state : Calculator) (n : Nat) : Calculator × Answer :=
  ({ state with accumulator := n }, .number n)

def round (state : Calculator) (precision : Nat) (incoming : Direction) :
    Calculator × Answer :=
  let rounded := roundToBits state.accumulator precision incoming
  ({ state with accumulator := rounded.1, last := rounded.2 }, .rounded rounded.1 rounded.2)

def step (state : Calculator) : Step → Except Violation (Calculator × Answer)
  | .set n => .ok (state.hold n)
  | .powerOfTen exponent => .ok (state.hold (weight 10 exponent))
  | .multiply factor => .ok (state.hold (state.accumulator * factor))
  | .add addend => .ok (state.hold (state.accumulator + addend))
  | .setBit index => .ok (state.hold (Binary.setBit state.accumulator index))
  | .shiftLeft count => .ok (state.hold (state.accumulator * weight 2 count))
  | .save =>
      .ok ({ state with registers := state.registers ++ [state.accumulator] },
        .register state.registers.length)
  | .load index => .ok (state.hold (state.register index))
  | .round precision incoming => .ok (state.round precision incoming)
  | .roundAgain precision => .ok (state.round precision state.last)
  | .divide index =>
      (Binary.divide state.accumulator (state.register index)).map fun parts =>
        ({ state with accumulator := parts.1, registers := state.registers ++ [parts.2] },
          .divided parts.1 parts.2)
  | .compare index =>
      .ok (state, .order (Ord.compare state.accumulator (state.register index)))
  | .bit index => .ok (state, .bit (state.accumulator.testBit index))
  | .leadingBits count =>
      (Binary.leadingBits state.accumulator count).map fun leading => (state, .leading leading)
  | .describe => .ok (state, .description (Binary.describe state.accumulator))

/-- The answers to a row of steps; a refused step changes nothing. -/
def run (state : Calculator) : List Step → List (Except Violation Answer)
  | [] => []
  | next :: rest =>
      match state.step next with
      | .error violation => .error violation :: state.run rest
      | .ok (after, answer) => .ok answer :: after.run rest

def after (state : Calculator) : List Step → Calculator
  | [] => state
  | next :: rest =>
      match state.step next with
      | .error _ => state.after rest
      | .ok (following, _) => following.after rest

end Calculator

end TypedLiteral.Binary

import TypedLiteral.CommandLine

/-!
The program: writes what the command line decides and ends with its exit code.
-/

def main (args : List String) : IO UInt32 := do
  let outcome := TypedLiteral.CommandLine.run args
  IO.print outcome.output
  IO.eprint outcome.errors
  return outcome.exitCode.toUInt32

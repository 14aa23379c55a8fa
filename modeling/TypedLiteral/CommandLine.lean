import TypedLiteral.Initializer

/-!
The command line types each argument as one constant. Constants go to the
standard output and diagnostics to the standard error, a line each, in the order
of the arguments.
-/
namespace TypedLiteral.CommandLine

structure Outcome where
  exitCode : Nat
  output : String
  errors : String
  deriving DecidableEq

def line (text : String) : String := text ++ "\n"

def usage : Outcome := ⟨2, "", line "usage: litfold <literal>..."⟩

def diagnosticLine (argument : String) (fault : Span × Cause) : String :=
  let message := fault.2.message
  line s!"{argument}: {message} at {fault.1.start}..{fault.1.stop}"

/-- What one argument gives by itself. -/
def outcome (argument : String) : Outcome :=
  match constantOf (readConstant .standard argument) with
  | .ok found => ⟨0, line found.2.render, ""⟩
  | .error faults => ⟨1, "", String.join (faults.map (diagnosticLine argument))⟩

/-- One outcome after another; the larger exit code stands. -/
def Outcome.append (first second : Outcome) : Outcome :=
  ⟨max first.exitCode second.exitCode, first.output ++ second.output,
    first.errors ++ second.errors⟩

def outcomes : List String → Outcome
  | [] => ⟨0, "", ""⟩
  | argument :: rest => (outcome argument).append (outcomes rest)

def run : List String → Outcome
  | [] => usage
  | argument :: rest => outcomes (argument :: rest)

end TypedLiteral.CommandLine

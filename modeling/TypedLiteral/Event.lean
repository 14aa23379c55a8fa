/-!
What a reading reports beside its result, in the order in which it happens.
-/
namespace TypedLiteral

inductive Level where
  | trace
  | debug
  | warn
  deriving DecidableEq

def Level.name : Level → String
  | .trace => "TRACE"
  | .debug => "DEBUG"
  | .warn => "WARN"

structure Event where
  level : Level
  message : String
  deriving DecidableEq

end TypedLiteral

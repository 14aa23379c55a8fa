import TypedLiteral.Literal

/-!
What reading a source finds, in the order in which it is found: constants,
diagnostics, skipped tokens and events. Findings are first placed by the indices
of their tokens, and a place turns into a span of the source once the lexemes
are known.
-/
namespace TypedLiteral

/-- A half-open range of token indices. An empty one, at the number of tokens,
is the end of the input. -/
structure Place where
  first : Nat
  past : Nat
  deriving DecidableEq

/-- From the start of the first lexeme to the stop of the last one. -/
def Place.span (lexemes : List Lexeme) (size : Nat) (place : Place) : Span :=
  let start := match lexemes[place.first]? with
    | some lexeme => lexeme.span.start
    | none => size
  if place.first < place.past then
    match lexemes[place.past - 1]? with
    | some lexeme => ⟨start, lexeme.span.stop⟩
    | none => ⟨start, size⟩
  else ⟨start, start⟩

inductive Finding (Where : Type) where
  | constant (place : Where) (value : Constant)
  | diagnostic (place : Where) (cause : Cause)
  | skipped (place : Where) (kind : Kind)
  | event (event : Event)
  deriving DecidableEq

namespace Finding

variable {Where Elsewhere : Type}

def move (target : Where → Elsewhere) : Finding Where → Finding Elsewhere
  | .constant place value => .constant (target place) value
  | .diagnostic place cause => .diagnostic (target place) cause
  | .skipped place kind => .skipped (target place) kind
  | .event report => .event report

def constant? : Finding Where → Option (Where × Constant)
  | .constant place value => some (place, value)
  | _ => none

def diagnostic? : Finding Where → Option (Where × Cause)
  | .diagnostic place cause => some (place, cause)
  | _ => none

def event? : Finding Span → Option Event
  | .skipped span kind =>
      let name := kind.name
      some ⟨.warn, s!"skipping {name} at {span.start}..{span.stop} while recovering"⟩
  | .event report => some report
  | _ => none

end Finding

variable {Where : Type}

def constants (findings : List (Finding Where)) : List (Where × Constant) :=
  findings.filterMap Finding.constant?

def diagnostics (findings : List (Finding Where)) : List (Where × Cause) :=
  findings.filterMap Finding.diagnostic?

def events (findings : List (Finding Span)) : List Event :=
  findings.filterMap Finding.event?

end TypedLiteral

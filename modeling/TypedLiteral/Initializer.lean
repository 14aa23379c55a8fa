import TypedLiteral.Finding

/-!
Reading constants and initializers. An element is a literal, or a sign and a
number; an initializer is one element, or a list of elements in braces with
commas between them and maybe one more at the end. An element that has no value
does not stop the list: reading goes on at the next comma or closing brace.
-/
namespace TypedLiteral

/-- An element read from tokens. Its place ends where the tokens after it begin. -/
structure Element where
  place : Place
  events : List Event
  result : Except Cause Constant

namespace Element

def ofLiteral (tiers : TierTable) (place : Place) (sign : Sign) (token : Token) : Element :=
  match Literal.ofToken sign token with
  | .ok literal => ⟨place, literal.events tiers, literal.evaluate tiers⟩
  | .error cause => ⟨place, [], .error cause⟩

def failed (first past : Nat) (cause : Cause) : Element := ⟨⟨first, past⟩, [], .error cause⟩

/-- The element at the start of the tokens, and the tokens after it. A token
after a sign is taken whether it is a number or not. -/
def read (tiers : TierTable) (index : Nat) : List Token → Element × List Token
  | [] => (failed index index .missingConstant, [])
  | token :: rest =>
      match token.kind.sign? with
      | none => (ofLiteral tiers ⟨index, index + 1⟩ .none token, rest)
      | some sign => match rest with
        | [] => (failed (index + 1) (index + 1) .missingNumber, [])
        | number :: rest =>
            if number.kind.isNumeric then
              (ofLiteral tiers ⟨index, index + 2⟩ sign number, rest)
            else (failed (index + 1) (index + 2) .misplacedSign, rest)

def accepted (element : Element) : Bool :=
  match element.result with
  | .ok _ => true
  | .error _ => false

def findings (element : Element) : List (Finding Place) :=
  element.events.map .event ++
    [match element.result with
      | .ok value => .constant element.place value
      | .error cause => .diagnostic element.place cause]

theorem read_length (tiers : TierTable) (index : Nat) (token : Token) (rest : List Token) :
    (read tiers index (token :: rest)).2.length ≤ rest.length := by
  simp only [read]
  split
  · exact Nat.le_refl _
  · split
    · exact Nat.le_refl _
    · split <;> exact Nat.le_succ _

end Element

namespace Initializer

def unexpected (index : Nat) : List Token → List (Finding Place)
  | [] => []
  | token :: rest =>
      .diagnostic ⟨index, index + 1⟩ (.unexpected token.kind) :: unexpected (index + 1) rest

def skipped (index : Nat) : List Token → List (Finding Place)
  | [] => []
  | token :: rest => .skipped ⟨index, index + 1⟩ token.kind :: skipped (index + 1) rest

def isInside (token : Token) : Bool := !token.kind.isDelimiter

/-- A comma is missed where an accepted element has another token behind it. -/
def missingComma (accepted : Bool) (index : Nat) : List Token → List (Finding Place)
  | [] => []
  | token :: _ =>
      if accepted && isInside token then [.diagnostic ⟨index, index + 1⟩ (.missing .comma)]
      else []

def elements (tiers : TierTable) (index : Nat) (tokens : List Token) :
    List (Finding Place) :=
  match tokens with
  | [] => [.diagnostic ⟨index, index⟩ (.missing .rightBrace)]
  | token :: rest =>
      if token.kind = .rightBrace then unexpected (index + 1) rest
      else
        let element := Element.read tiers index (token :: rest)
        let run := element.2.takeWhile isInside
        let next := element.1.place.past + run.length
        element.1.findings ++
          missingComma element.1.accepted element.1.place.past element.2 ++
          skipped element.1.place.past run ++
          match after : element.2.dropWhile isInside with
          | [] => elements tiers next []
          | delimiter :: further =>
              if delimiter.kind = .comma then elements tiers (next + 1) further
              else elements tiers next (delimiter :: further)
  termination_by tokens.length
  decreasing_by
    all_goals
      have kept := Element.read_length tiers index token rest
      have shorter := (List.dropWhile_suffix isInside (l := element.2)).length_le
      simp only [after, List.length_cons, List.length_nil] at shorter ⊢
      simp only [element] at shorter
      omega

def single (tiers : TierTable) (tokens : List Token) : List (Finding Place) :=
  let element := Element.read tiers 0 tokens
  element.1.findings ++ unexpected element.1.place.past element.2

def read (tiers : TierTable) : List Token → List (Finding Place)
  | [] => single tiers []
  | token :: rest =>
      if token.kind = .leftBrace then elements tiers 1 rest else single tiers (token :: rest)

end Initializer

def findingsIn (source : String) (reader : List Token → List (Finding Place)) :
    List (Finding Span) :=
  let lexemes := significant (tokenize source)
  let size := Utf8.size source.toList
  (reader (lexemes.map Lexeme.token)).map (Finding.move (Place.span lexemes size))

def readInitializer (tiers : TierTable) (source : String) : List (Finding Span) :=
  findingsIn source (Initializer.read tiers)

def readConstant (tiers : TierTable) (source : String) : List (Finding Span) :=
  findingsIn source (Initializer.single tiers)

/-- The constant of a source that is just one, or else its diagnostics. -/
def constantOf (findings : List (Finding Span)) :
    Except (List (Span × Cause)) (Span × Constant) :=
  match diagnostics findings, constants findings with
  | [], found :: _ => .ok found
  | faults, _ => .error faults

end TypedLiteral

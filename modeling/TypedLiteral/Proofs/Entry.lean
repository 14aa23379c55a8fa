import TypedLiteral.Initializer
import TypedLiteral.Proofs.Finding

/-!
Entries are elements as they are written: a literal, or a sign and a number. An
entry is read as one element that ends where the entry ends, and an element with a
value is always read from an entry.
-/
namespace TypedLiteral

/-- The kinds of which entries are made. -/
structure Kind.Solid (kind : Kind) : Prop where
  notError : kind ≠ .error
  notTrivia : kind.isTrivia = false
  notOpening : kind ≠ .leftBrace
  notDelimiter : kind.isDelimiter = false

theorem Kind.Solid.notClosing {kind : Kind} (solid : kind.Solid) : kind ≠ .rightBrace := by
  rintro rfl
  cases solid.notDelimiter

theorem Kind.solid_of_literal {kind : Kind} (isLiteral : kind.isLiteral = true) : kind.Solid := by
  constructor <;>
  · revert isLiteral
    cases kind <;> decide

theorem Kind.solid_of_sign {kind : Kind} {mark : Sign} (isSign : kind.sign? = some mark) :
    kind.Solid := by
  cases kind with
  | plus => exact ⟨by decide, rfl, by decide, rfl⟩
  | minus => exact ⟨by decide, rfl, by decide, rfl⟩
  | _ => cases isSign

theorem Kind.literal_of_numeric {kind : Kind} (isNumeric : kind.isNumeric = true) :
    kind.isLiteral = true := by
  revert isNumeric
  cases kind <;> decide

inductive Entry where
  | plain (literal : Lexeme)
      (isLiteral : literal.token.kind ∈ [.int, .float, .char, .wideChar, .string, .wideString])
  | signed (mark : Sign) (sign number : Lexeme)
      (isSign : (sign.token.kind, mark) ∈ [(.plus, .plus), (.minus, .minus)])
      (isNumber : number.token.kind ∈ [.int, .float])

namespace Entry

def lexemes : Entry → List Lexeme
  | plain literal _ => [literal]
  | signed _ sign number _ _ => [sign, number]

def sign : Entry → Sign
  | plain _ _ => .none
  | signed mark _ _ _ _ => mark

def literal : Entry → Lexeme
  | plain literal _ => literal
  | signed _ _ number _ _ => number

/-- From the sign, if there is one, to the end of the literal. -/
def span : Entry → Span
  | plain literal _ => literal.span
  | signed _ sign number _ _ => ⟨sign.span.start, number.span.stop⟩

def value (tiers : TierTable) (entry : Entry) : Except Cause Constant :=
  (Literal.ofToken entry.sign entry.literal.token).bind fun literal => literal.evaluate tiers

def Evaluates (tiers : TierTable) (entry : Entry) : Prop := ∃ value, entry.value tiers = .ok value

def events (tiers : TierTable) (entry : Entry) : List Event :=
  match Literal.ofToken entry.sign entry.literal.token with
  | .ok literal => literal.events tiers
  | .error _ => []

def outcome {Where : Type} (tiers : TierTable) (place : Where) (entry : Entry) : Finding Where :=
  match entry.value tiers with
  | .ok value => .constant place value
  | .error cause => .diagnostic place cause

/-- What an entry by itself makes a reader find. -/
def findings {Where : Type} (tiers : TierTable) (place : Where) (entry : Entry) :
    List (Finding Where) :=
  (entry.events tiers).map .event ++ [entry.outcome tiers place]

def element (tiers : TierTable) (place : Place) (entry : Entry) : Element :=
  .ofLiteral tiers place entry.sign entry.literal.token

variable {Where Elsewhere : Type} (tiers : TierTable) (entry : Entry)

theorem outcome_move (target : Where → Elsewhere) (place : Where) :
    (entry.outcome tiers place).move target = entry.outcome tiers (target place) := by
  cases result : entry.value tiers <;> simp [outcome, result, Finding.move]

theorem findings_move (target : Where → Elsewhere) (place : Where) :
    (entry.findings tiers place).map (Finding.move target) =
      entry.findings tiers (target place) := by
  rw [findings, List.map_append, List.map_map, List.map_singleton, outcome_move]
  rfl

theorem constants_findings (place : Where) : constants (entry.findings tiers place) =
    match entry.value tiers with
    | .ok value => [(place, value)]
    | .error _ => [] := by
  cases result : entry.value tiers <;>
    simp [findings, outcome, result, constants, List.filterMap_map, Function.comp_def,
      Finding.constant?]

theorem diagnostics_findings (place : Where) : diagnostics (entry.findings tiers place) =
    match entry.value tiers with
    | .ok _ => []
    | .error cause => [(place, cause)] := by
  cases result : entry.value tiers <;>
    simp [findings, outcome, result, diagnostics, List.filterMap_map, Function.comp_def,
      Finding.diagnostic?]

theorem element_findings (place : Place) :
    (entry.element tiers place).findings = entry.findings tiers place := by
  unfold element Element.ofLiteral
  cases read : Literal.ofToken entry.sign entry.literal.token with
  | error cause => simp [Element.findings, findings, events, outcome, value, read, Except.bind]
  | ok literal =>
      cases result : literal.evaluate tiers <;>
        simp [Element.findings, findings, events, outcome, value, read, result, Except.bind]

theorem element_place (place : Place) : (entry.element tiers place).place = place := by
  unfold element Element.ofLiteral
  split <;> rfl

theorem element_accepted (place : Place) :
    (entry.element tiers place).accepted = true ↔ entry.Evaluates tiers := by
  unfold element Element.ofLiteral
  cases read : Literal.ofToken entry.sign entry.literal.token with
  | error cause => simp [Element.accepted, Evaluates, value, read, Except.bind]
  | ok literal =>
      cases result : literal.evaluate tiers <;>
        simp [Element.accepted, Evaluates, value, read, result, Except.bind]

theorem lexemes_pos : 0 < entry.lexemes.length := by
  cases entry <;> exact Nat.zero_lt_succ _

theorem starts_with :
    ∃ first rest, entry.lexemes = first :: rest ∧ entry.span.start = first.span.start := by
  cases entry with
  | plain literal _ => exact ⟨literal, [], rfl, rfl⟩
  | signed _ sign number _ _ => exact ⟨sign, [number], rfl, rfl⟩

theorem solid : ∀ word ∈ entry.lexemes, word.token.kind.Solid := by
  cases entry with
  | plain literal isLiteral =>
      intro word member
      obtain rfl := List.mem_singleton.mp member
      exact Kind.solid_of_literal (Kind.isLiteral_iff.mpr isLiteral)
  | signed mark sign number isSign isNumber =>
      refine List.forall_mem_cons.mpr ⟨Kind.solid_of_sign (Kind.sign?_iff.mpr isSign), ?_⟩
      intro word member
      obtain rfl := List.mem_singleton.mp member
      exact Kind.solid_of_literal (Kind.literal_of_numeric (Kind.isNumeric_iff.mpr isNumber))

theorem sign_of_literal {kind : Kind} (isLiteral : kind.isLiteral = true) : kind.sign? = none := by
  revert isLiteral
  cases kind <;> decide

theorem literal_mem : entry.literal ∈ entry.lexemes := by
  cases entry with
  | plain literal _ => exact List.mem_singleton_self literal
  | signed _ sign number _ _ => exact List.mem_cons_of_mem sign (List.mem_singleton_self number)

theorem literal_isLiteral : entry.literal.token.kind.isLiteral = true := by
  cases entry with
  | plain _ isLiteral => exact Kind.isLiteral_iff.mpr isLiteral
  | signed _ _ _ _ isNumber => exact Kind.literal_of_numeric (Kind.isNumeric_iff.mpr isNumber)

theorem literal_of_mem {word : Lexeme} (member : word ∈ entry.lexemes)
    (isLiteral : word.token.kind.isLiteral = true) : word = entry.literal := by
  cases entry with
  | plain literal _ => exact List.mem_singleton.mp member
  | signed mark sign number isSign _ =>
      rcases List.mem_cons.mp member with rfl | isNumber
      · have isMark := Kind.sign?_iff.mpr isSign
        rw [sign_of_literal isLiteral] at isMark
        cases isMark
      · exact List.mem_singleton.mp isNumber

theorem read_entry (index : Nat) (rest : List Token) :
    Element.read tiers index (entry.lexemes.map Lexeme.token ++ rest) =
      (entry.element tiers ⟨index, index + entry.lexemes.length⟩, rest) := by
  cases entry with
  | plain literal isLiteral =>
      have unsigned := sign_of_literal (Kind.isLiteral_iff.mpr isLiteral)
      simp [lexemes, Element.read, unsigned, element, sign, Entry.literal]
  | signed mark sign number isSign isNumber =>
      have marked := Kind.sign?_iff.mpr isSign
      have numeric := Kind.isNumeric_iff.mpr isNumber
      simp [lexemes, Element.read, marked, numeric, element, Entry.sign, Entry.literal]

theorem literal_of_value {sign : Sign} {token : Token} {literal : Literal}
    (read : Literal.ofToken sign token = .ok literal) : token.kind.isLiteral = true := by
  unfold Literal.ofToken at read
  cases kind : token.kind <;> simp [kind, Kind.isLiteral] at read ⊢

theorem accepted_literal {place : Place} {sign : Sign} {token : Token}
    (accepted : (Element.ofLiteral tiers place sign token).accepted = true) :
    token.kind.isLiteral = true := by
  unfold Element.ofLiteral at accepted
  split at accepted
  · next literal read => exact literal_of_value read
  · cases accepted

/-- Only entries are accepted. -/
theorem read_accepted (index : Nat) (words : List Lexeme)
    (accepted : (Element.read tiers index (words.map Lexeme.token)).1.accepted = true) :
    ∃ (entry : Entry) (rest : List Lexeme), words = entry.lexemes ++ rest ∧
      entry.Evaluates tiers := by
  suffices written : ∃ (entry : Entry) (rest : List Lexeme), words = entry.lexemes ++ rest by
    obtain ⟨entry, rest, rfl⟩ := written
    rw [List.map_append, read_entry, element_accepted] at accepted
    exact ⟨entry, rest, rfl, accepted⟩
  cases words with
  | nil => cases accepted
  | cons word rest =>
      rw [List.map_cons, Element.read] at accepted
      split at accepted
      · exact ⟨.plain word (Kind.isLiteral_iff.mp (accepted_literal tiers accepted)), rest, rfl⟩
      · next mark isSign =>
          cases rest with
          | nil => cases accepted
          | cons number rest =>
              rw [List.map_cons] at accepted
              simp only at accepted
              split at accepted
              · next isNumber =>
                  exact ⟨.signed mark word number (Kind.sign?_iff.mp isSign)
                    (Kind.isNumeric_iff.mp isNumber), rest, rfl⟩
              · cases accepted

end Entry

end TypedLiteral

import TypedLiteral.Proofs.Initializer

/-!
How a reader goes over its tokens. An element takes one or two of them. In a list the
tokens between an element and the next delimiter are skipped, a comma is passed, and
tokens behind the closing brace are not expected. What holds of each of these parts, and
of two parts that follow each other, holds of a whole run.
-/
namespace TypedLiteral

def Literal.strayCause (token : Token) : Cause :=
  if token.kind = .error then .unrecognised token.text else .noConstant token.kind

theorem Literal.ofToken_stray (sign : Sign) {token : Token}
    (stray : token.kind.isLiteral = false) : ofToken sign token = .error (strayCause token) := by
  cases kind : token.kind <;> simp_all [ofToken, strayCause, Kind.isLiteral]

/-- The tokens that an element takes in front of the rest. -/
inductive Element.Takes (tiers : TierTable) (index : Nat) :
    Element → List Lexeme → List Lexeme → Prop where
  | entry (entry : Entry) (rest : List Lexeme) :
      Takes tiers index (entry.element tiers ⟨index, index + entry.lexemes.length⟩)
        entry.lexemes rest
  | stray (word : Lexeme) (rest : List Lexeme) (noLiteral : word.token.kind.isLiteral = false)
      (unsigned : word.token.kind.sign? = none) :
      Takes tiers index (.failed index (index + 1) (Literal.strayCause word.token)) [word] rest
  | misplaced (mark : Sign) (sign word : Lexeme) (rest : List Lexeme)
      (isSign : sign.token.kind.sign? = some mark) (noNumber : word.token.kind.isNumeric = false) :
      Takes tiers index (.failed (index + 1) (index + 2) .misplacedSign) [sign, word] rest
  | alone (mark : Sign) (sign : Lexeme) (isSign : sign.token.kind.sign? = some mark) :
      Takes tiers index (.failed (index + 1) (index + 1) .missingNumber) [sign] []

namespace Element

variable {tiers : TierTable} {index : Nat} {element : Element} {taken rest : List Lexeme}

theorem Takes.past (takes : element.Takes tiers index taken rest) :
    element.place.past = index + taken.length := by
  cases takes with
  | entry entry rest => rw [Entry.element_place]
  | stray | misplaced | alone => rfl

theorem Takes.nonempty (takes : element.Takes tiers index taken rest) : taken ≠ [] := by
  cases takes with
  | entry entry rest => exact List.ne_nil_of_length_pos entry.lexemes_pos
  | stray | misplaced | alone => exact List.cons_ne_nil _ _

theorem read_takes (tiers : TierTable) (index : Nat) (word : Lexeme) (words : List Lexeme) :
    ∃ element taken rest, word :: words = taken ++ rest ∧
      Element.read tiers index ((word :: words).map Lexeme.token) =
        (element, rest.map Lexeme.token) ∧ element.Takes tiers index taken rest := by
  cases sign : word.token.kind.sign? with
  | none =>
      cases isLiteral : word.token.kind.isLiteral with
      | true =>
          let entry := Entry.plain word (Kind.isLiteral_iff.mp isLiteral)
          exact ⟨_, _, words, rfl, entry.read_entry tiers index _, .entry entry words⟩
      | false =>
          refine ⟨_, _, words, rfl, ?_, .stray word words isLiteral sign⟩
          simp only [List.map_cons, Element.read, sign, ofLiteral,
            Literal.ofToken_stray _ isLiteral, failed]
  | some mark =>
      cases words with
      | nil =>
          refine ⟨_, _, [], rfl, ?_, .alone mark word sign⟩
          simp only [List.map_cons, List.map_nil, Element.read, sign]
      | cons number rest =>
          cases isNumber : number.token.kind.isNumeric with
          | true =>
              let entry := Entry.signed mark word number (Kind.sign?_iff.mp sign)
                (Kind.isNumeric_iff.mp isNumber)
              exact ⟨_, _, rest, rfl, entry.read_entry tiers index _, .entry entry rest⟩
          | false =>
              refine ⟨_, _, rest, rfl, ?_, .misplaced mark word number rest sign isNumber⟩
              simp [Element.read, sign, isNumber]

end Element

namespace Initializer

inductive Passed : List Lexeme → List Lexeme → Prop where
  | comma (comma : Lexeme) (further : List Lexeme) (isComma : comma.token.kind = .comma) :
      Passed [comma] further
  | nothing (further : List Lexeme)
      (ends : ∀ word ∈ further.head?, word.token.kind = .rightBrace) : Passed [] further

/-- The words of a list behind its opening brace, and what is found in them. -/
inductive Listing (tiers : TierTable) : Nat → List Lexeme → List (Finding Place) → Prop where
  | unclosed (index : Nat) :
      Listing tiers index [] [.diagnostic ⟨index, index⟩ (.missing .rightBrace)]
  | closed (index : Nat) (closing : Lexeme) (rest : List Lexeme)
      (isClosing : closing.token.kind = .rightBrace) :
      Listing tiers index (closing :: rest) (unexpected (index + 1) (rest.map Lexeme.token))
  | element (index : Nat) (element : Element) (taken run passed further : List Lexeme)
      (later : List (Finding Place))
      (goesOn : ∀ word ∈ taken.head?, word.token.kind ≠ .rightBrace)
      (takes : element.Takes tiers index taken (run ++ (passed ++ further)))
      (inside : ∀ word ∈ run, isInside word.token = true) (passes : Passed passed further)
      (listing : Listing tiers (index + taken.length + run.length + passed.length) further later) :
      Listing tiers index (taken ++ (run ++ (passed ++ further)))
        (element.findings ++ (missingComma element.accepted (index + taken.length)
          ((run ++ (passed ++ further)).map Lexeme.token) ++
            (skipped (index + taken.length) (run.map Lexeme.token) ++ later)))

variable (tiers : TierTable)

theorem exists_passed (words : List Lexeme) : ∃ run passed further,
    words = run ++ (passed ++ further) ∧ (∀ word ∈ run, isInside word.token = true) ∧
      Passed passed further ∧
      (∀ token ∈ ((passed ++ further).map Lexeme.token).head?, isInside token = false) ∧
      ∀ index, resume tiers index ((passed ++ further).map Lexeme.token) =
        elements tiers (index + passed.length) (further.map Lexeme.token) := by
  induction words with
  | nil => exact ⟨[], [], [], rfl, by simp, .nothing [] (by simp), by simp, fun _ => rfl⟩
  | cons word words ih =>
      cases delimits : word.token.kind.isDelimiter with
      | false =>
          obtain ⟨run, passed, further, rfl, inside, passes, outside, goesOn⟩ := ih
          have isIn : isInside word.token = true := by simp [isInside, delimits]
          exact ⟨word :: run, passed, further, rfl, List.forall_mem_cons.mpr ⟨isIn, inside⟩, passes,
            outside, goesOn⟩
      | true =>
          rcases delimiter_cases delimits with isComma | isClosing
          · refine ⟨[], [word], words, rfl, by simp, .comma word words isComma, ?_, ?_⟩
            · simp [isInside, delimits]
            · exact fun index => resume_comma tiers index _ isComma
          · refine ⟨[], [], word :: words, rfl, by simp, .nothing _ (by simpa using isClosing),
              ?_, ?_⟩
            · simp [isInside, delimits]
            · intro index
              rw [List.nil_append, List.map_cons, resume, if_neg (by rw [isClosing]; decide)]
              rfl

theorem elements_listing (index : Nat) (words : List Lexeme) :
    Listing tiers index words (elements tiers index (words.map Lexeme.token)) := by
  induction size : words.length using Nat.strongRecOn generalizing index words with
  | ind size ih =>
      subst size
      cases words with
      | nil =>
          rw [List.map_nil, elements_nil]
          exact .unclosed index
      | cons word words =>
          by_cases closes : word.token.kind = .rightBrace
          · rw [List.map_cons, elements_close tiers index _ closes]
            exact .closed index word words closes
          · obtain ⟨element, taken, rest, same, read, takes⟩ :=
              Element.read_takes tiers index word words
            obtain ⟨run, passed, further, rfl, inside, passes, outside, resumes⟩ :=
              exists_passed tiers rest
            have found := elements_run tiers (run.map Lexeme.token) closes
              (by rw [← List.map_append]; exact read) (by simpa using inside) outside
            have goesOn : ∀ first ∈ taken.head?, first.token.kind ≠ .rightBrace := by
              obtain ⟨first, others, rfl⟩ := List.exists_cons_of_ne_nil takes.nonempty
              cases same
              simpa using closes
            have shorter : further.length < (word :: words).length := by
              have positive := List.length_pos_iff.mpr takes.nonempty
              simp only [same, List.length_append]
              omega
            rw [List.map_cons, found, takes.past, resumes, List.length_map, same]
            simp only [List.append_assoc, ← List.map_append]
            exact .element index element taken run passed further _ goesOn takes inside passes
              (ih _ shorter _ further rfl)

/-- What holds of the parts of a run, and of two parts that follow each other. -/
structure Steps (holds : Nat → List Lexeme → List (Finding Place) → Prop) : Prop where
  append : ∀ index words more own later, holds index words own →
    holds (index + words.length) more later → holds index (words ++ more) (own ++ later)
  nothing : ∀ index, holds index [] []
  punctuation : ∀ index word, word.token.kind.isDelimiter = true ∨ word.token.kind = .leftBrace →
    holds index [word] []
  absent : ∀ index cause, cause = .missing .rightBrace ∨ cause = .missingConstant →
    holds index [] [.diagnostic ⟨index, index⟩ cause]
  unexpected : ∀ index word,
    holds index [word] [.diagnostic ⟨index, index + 1⟩ (.unexpected word.token.kind)]
  element : ∀ index element taken rest, Element.Takes tiers index element taken rest →
    holds index taken element.findings
  step : ∀ index element taken run rest, Element.Takes tiers index element taken (run ++ rest) →
    (∀ word ∈ run, isInside word.token = true) →
    holds index (taken ++ run) (element.findings ++ (missingComma element.accepted
      (index + taken.length) ((run ++ rest).map Lexeme.token) ++
        skipped (index + taken.length) (run.map Lexeme.token)))

namespace Steps

variable {tiers : TierTable} {holds : Nat → List Lexeme → List (Finding Place) → Prop}
variable {index : Nat} {words : List Lexeme} {findings : List (Finding Place)}

variable (steps : Steps tiers holds)
include steps

theorem rest (index : Nat) (words : List Lexeme) :
    holds index words (Initializer.unexpected index (words.map Lexeme.token)) := by
  induction words generalizing index with
  | nil => exact steps.nothing index
  | cons word words ih =>
      exact steps.append index [word] words _ _ (steps.unexpected index word) (ih (index + 1))

theorem passed {passed further : List Lexeme} (passes : Passed passed further) (index : Nat) :
    holds index passed [] := by
  cases passes with
  | comma comma further isComma =>
      apply steps.punctuation
      rw [isComma]
      exact .inl rfl
  | nothing further ends => exact steps.nothing index

theorem listing (listing : Listing tiers index words findings) : holds index words findings := by
  induction listing with
  | unclosed index => exact steps.absent index _ (.inl rfl)
  | closed index closing rest isClosing =>
      have brace : holds index [closing] [] := by
        apply steps.punctuation
        rw [isClosing]
        exact .inl rfl
      exact steps.append index [closing] rest [] _ brace (steps.rest (index + 1) rest)
  | element index element taken run passed further later goesOn takes inside passes listing ih =>
      have first := steps.step index element taken run (passed ++ further) takes inside
      rw [Nat.add_assoc index, ← List.length_append] at ih
      have behind := steps.append _ passed further [] later
        (steps.passed passes (index + (taken ++ run).length)) ih
      have whole := steps.append index (taken ++ run) (passed ++ further) _ _ first behind
      simpa only [List.append_assoc, List.nil_append] using whole

theorem single (words : List Lexeme) :
    holds 0 words (Initializer.single tiers (words.map Lexeme.token)) := by
  cases words with
  | nil => exact steps.absent 0 _ (.inr rfl)
  | cons word words =>
      obtain ⟨element, taken, rest, same, read, takes⟩ := Element.read_takes tiers 0 word words
      rw [Initializer.single, read, same]
      simp only [takes.past]
      exact steps.append 0 taken rest _ _ (steps.element 0 element taken rest takes)
        (steps.rest _ rest)

/-- What holds of the parts holds of all that is read. -/
theorem read (words : List Lexeme) :
    holds 0 words (Initializer.read tiers (words.map Lexeme.token)) := by
  cases words with
  | nil => exact steps.single []
  | cons word words =>
      rw [List.map_cons, Initializer.read]
      split
      · next isOpening =>
          have brace := steps.punctuation 0 word (.inr isOpening)
          exact steps.append 0 [word] words [] _ brace
            (steps.listing (elements_listing tiers 1 words))
      · exact steps.single (word :: words)

end Steps

end Initializer

end TypedLiteral

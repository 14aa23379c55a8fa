import TypedLiteral.Proofs.Accounting

/-!
Nothing of a source is lost in silence. Each literal and each error of it is inside
the span of one constant, or else inside that of a diagnostic, or named by a warning;
each constant has one literal in its span; and a warning never stands without a
diagnostic.
-/
namespace TypedLiteral

def Span.Within (inner outer : Span) : Prop :=
  outer.start ≤ inner.start ∧ inner.stop ≤ outer.stop

instance (inner outer : Span) : Decidable (inner.Within outer) :=
  inferInstanceAs (Decidable (_ ∧ _))

def Lexeme.skipping (lexeme : Lexeme) : Event :=
  let name := lexeme.token.kind.name
  ⟨.warn, s!"skipping {name} at {lexeme.span.start}..{lexeme.span.stop} while recovering"⟩

/-- What becomes of a lexeme: it is in the span of just one constant, or of none and
then in that of a diagnostic, or skipped with a warning. -/
inductive Lexeme.Accounted (findings : List (Finding Span)) (lexeme : Lexeme) : Prop where
  | kept (once : (constants findings).countP (fun found => lexeme.span.Within found.1) = 1)
  | reported (outside : ∀ found ∈ constants findings, ¬ lexeme.span.Within found.1) (span : Span)
      (cause : Cause) (member : (span, cause) ∈ diagnostics findings)
      (within : lexeme.span.Within span)
  | skipped (outside : ∀ found ∈ constants findings, ¬ lexeme.span.Within found.1)
      (member : lexeme.skipping ∈ events findings)

section Warnings

theorem FloatLiteral.roundingEvents_quiet (number : Binary.Scaled) (format : Binary.Format)
    (direction : Binary.Direction) :
    ∀ report ∈ roundingEvents number format direction, report.level ≠ .warn := by
  unfold roundingEvents
  split
  · simp
  · split <;> simp

theorem FloatLiteral.events_quiet (literal : FloatLiteral) :
    ∀ report ∈ literal.events, report.level ≠ .warn := by
  intro report member
  unfold events at member
  split at member
  · simp only [List.append_assoc, List.mem_append, List.mem_singleton] at member
    rcases member with double | single | rfl
    · exact roundingEvents_quiet _ _ _ report double
    · exact roundingEvents_quiet _ _ _ report single
    · simp
  · cases member

theorem IntegerLiteral.events_quiet (literal : IntegerLiteral) (tiers : TierTable) :
    ∀ report ∈ literal.events tiers, report.level ≠ .warn := by
  unfold events
  split <;> simp

theorem QuotedLiteral.characterEvents_quiet (literal : QuotedLiteral) :
    ∀ report ∈ literal.characterEvents, report.level ≠ .warn := by
  unfold characterEvents
  split <;> simp

theorem Literal.events_quiet (literal : Literal) (tiers : TierTable) :
    ∀ report ∈ literal.events tiers, report.level ≠ .warn := by
  cases literal with
  | number numeric =>
      cases numeric with
      | integer whole => exact whole.events_quiet tiers
      | float decimal => exact decimal.events_quiet
  | character body => exact body.characterEvents_quiet
  | string body => simp [events]

namespace Initializer

variable {tiers : TierTable} {index : Nat} {findings own later : List (Finding Place)}

/-- Only skipped tokens give a warning, and there is a diagnostic beside them. -/
structure Warned (findings : List (Finding Place)) : Prop where
  quiet : ∀ report, .event report ∈ findings → report.level ≠ .warn
  diagnosed : ∀ place kind, .skipped place kind ∈ findings → diagnostics findings ≠ []

theorem Warned.append (first : Warned own) (last : Warned later) : Warned (own ++ later) where
  quiet := by
    intro report member
    rcases List.mem_append.mp member with before | behind
    · exact first.quiet report before
    · exact last.quiet report behind
  diagnosed := by
    intro place kind member
    rw [diagnostics_append]
    rcases List.mem_append.mp member with before | behind
    · exact List.append_ne_nil_of_left_ne_nil (first.diagnosed place kind before) _
    · exact List.append_ne_nil_of_right_ne_nil _ (last.diagnosed place kind behind)

theorem warned_diagnostic (place : Place) (cause : Cause) : Warned [.diagnostic place cause] := by
  constructor <;> simp

theorem warned_nothing : Warned [] := by
  constructor <;> simp

theorem warned_missingComma (accepted : Bool) (index : Nat) (tokens : List Token) :
    Warned (missingComma accepted index tokens) := by
  unfold missingComma
  split
  · exact warned_nothing
  · split
    · exact warned_diagnostic _ _
    · exact warned_nothing

theorem warned_element {element : Element} {taken rest : List Lexeme}
    (takes : element.Takes tiers index taken rest) : Warned element.findings := by
  have silent : ∀ report ∈ element.events, report.level ≠ .warn := by
    cases takes with
    | entry entry rest =>
        unfold Entry.element Element.ofLiteral
        split
        · next literal _ => exact literal.events_quiet tiers
        · simp
    | stray | misplaced | alone => simp [Element.failed]
  constructor
  · intro report member
    apply silent report
    unfold Element.findings at member
    split at member <;> simpa using member
  · intro place kind member
    unfold Element.findings at member
    split at member <;> simp at member

theorem event_skipped (index : Nat) (tokens : List Token) (report : Event) :
    .event report ∉ skipped index tokens := by
  induction tokens generalizing index with
  | nil => simp [skipped]
  | cons token tokens ih => simp [skipped, ih]

theorem warned_step {element : Element} {taken rest run : List Lexeme}
    (takes : element.Takes tiers index taken rest)
    (inside : ∀ word ∈ run, isInside word.token = true) (next : Nat) (after : List Lexeme) :
    Warned (element.findings ++ (missingComma element.accepted next
      ((run ++ after).map Lexeme.token) ++ skipped next (run.map Lexeme.token))) := by
  have before := (warned_element takes).append
    (warned_missingComma element.accepted next ((run ++ after).map Lexeme.token))
  rw [← List.append_assoc]
  constructor
  · intro report member
    apply before.quiet report
    exact (List.mem_append.mp member).resolve_right (event_skipped _ _ report)
  · intro place kind member
    rw [diagnostics_append]
    apply List.append_ne_nil_of_left_ne_nil
    rcases List.mem_append.mp member with earlier | skips
    · exact before.diagnosed place kind earlier
    · cases run with
      | nil => simp [skipped] at skips
      | cons word run =>
          rw [diagnostics_append]
          cases accepted : element.accepted with
          | true =>
              have isIn := inside word List.mem_cons_self
              simp [missingComma, isIn, diagnostics, Finding.diagnostic?]
          | false =>
              apply List.append_ne_nil_of_left_ne_nil
              intro sound
              rw [element_sound sound] at accepted
              cases accepted

theorem warned_steps (tiers : TierTable) : Steps tiers fun _ _ findings => Warned findings where
  append := fun _ _ _ _ _ first last => first.append last
  nothing := fun _ => warned_nothing
  punctuation := fun _ _ _ => warned_nothing
  absent := fun _ _ _ => warned_diagnostic _ _
  unexpected := fun _ _ => warned_diagnostic _ _
  element := fun _ _ _ _ takes => warned_element takes
  step := fun _ _ _ _ _ takes inside => warned_step takes inside _ _

end Initializer

end Warnings

section Spans

variable {source : String} {index : Nat} {lexeme : Lexeme} {place : Place}

theorem Place.within_of_covers (found : (significant (tokenize source))[index]? = some lexeme)
    (covers : place.Covers index) :
    lexeme.span.Within
      (place.span (significant (tokenize source)) (Utf8.size source.toList)) := by
  obtain ⟨lower, upper⟩ := covers
  constructor
  · have bounded := (List.getElem?_eq_some_iff.mp found).1
    have first := List.getElem?_eq_getElem (Nat.lt_of_le_of_lt lower bounded)
    rw [Place.span_start, first]
    exact (significant_monotone first found lower).1
  · rw [Place.span_stop _ _ (Nat.lt_of_le_of_lt lower upper)]
    split
    · next last isLast => exact (significant_monotone found isLast (Nat.le_sub_one_of_lt upper)).2
    · exact (significant_bounds (List.mem_of_getElem? found)).2

/-- And no other lexeme is, where the place has lexemes up to its end. -/
theorem Place.within_iff (found : (significant (tokenize source))[index]? = some lexeme)
    (proper : place.first < place.past)
    (bounded : place.past ≤ (significant (tokenize source)).length) :
    lexeme.span.Within (place.span (significant (tokenize source)) (Utf8.size source.toList)) ↔
      place.Covers index := by
  refine ⟨?_, within_of_covers found⟩
  rintro ⟨starts, stops⟩
  have long := significant_bounds (List.mem_of_getElem? found)
  have first := List.getElem?_eq_getElem (Nat.lt_of_lt_of_le proper bounded)
  have last := List.getElem?_eq_getElem
    (Nat.lt_of_lt_of_le (Nat.sub_one_lt_of_lt proper) bounded)
  rw [Place.span_start, first] at starts
  rw [Place.span_stop _ _ proper, last] at stops
  simp only at starts stops
  constructor
  · by_contra before
    have apart := significant_before found first (Nat.lt_of_not_le before)
    omega
  · by_contra behind
    have apart := significant_before last found (by omega)
    omega

end Spans

namespace Initializer

variable {tiers : TierTable} {index : Nat} {words : List Lexeme} {found : Place × Constant}

theorem Stands.literal (stands : Stands tiers index words found) : ∃ offset literal,
    words[offset]? = some literal ∧ found.1.Covers (index + offset) ∧
      literal.token.kind.isLiteral = true ∧
      ∀ other word, words[other]? = some word → found.1.Covers (index + other) →
        word.token.kind.isLiteral = true → word = literal := by
  obtain ⟨before, entry, after, rfl, same, _⟩ := stands
  obtain ⟨offset, isLiteral⟩ := List.getElem?_of_mem entry.literal_mem
  have short := (List.getElem?_eq_some_iff.mp isLiteral).1
  refine ⟨before.length + offset, entry.literal, ?_, ?_, entry.literal_isLiteral, ?_⟩
  · rw [List.getElem?_append_right (Nat.le_add_right _ _), Nat.add_sub_cancel_left,
      List.getElem?_append_left short, isLiteral]
  · rw [same]
    constructor <;> simp only <;> omega
  · intro other word atOther covers literal
    rw [same] at covers
    obtain ⟨lower, upper⟩ := covers
    simp only at lower upper
    rw [List.getElem?_append_right (by omega), List.getElem?_append_left (by omega)] at atOther
    exact entry.literal_of_mem (List.mem_of_getElem? atOther) literal

end Initializer

section Source

variable {tiers : TierTable} {source : String} {findings : List (Finding Place)}

theorem significant_of_counts {lexeme : Lexeme} (member : lexeme ∈ tokenize source)
    (counts : lexeme.token.kind.Counts) : lexeme ∈ significant (tokenize source) := by
  apply List.mem_filter.mpr ⟨member, _⟩
  rcases counts with isLiteral | isError
  · simp [(Kind.solid_of_literal isLiteral).notTrivia]
  · simp [isError, Kind.isTrivia]

theorem Lexeme.accounted_of_accounts
    (accounts : Initializer.Accounts tiers 0 (significant (tokenize source)) findings)
    {lexeme : Lexeme} (member : lexeme ∈ tokenize source) (counts : lexeme.token.kind.Counts) :
    lexeme.Accounted (Initializer.spanned (significant (tokenize source))
      (Utf8.size source.toList) findings) := by
  obtain ⟨index, found⟩ := List.getElem?_of_mem (significant_of_counts member counts)
  have covered : ∀ constant ∈ constants findings,
      (lexeme.span.Within (constant.1.span (significant (tokenize source))
        (Utf8.size source.toList)) ↔ constant.1.Covers index) := by
    intro constant isConstant
    obtain ⟨before, entry, after, same, placed, _⟩ := accounts.stands constant isConstant
    apply Place.within_iff found
    · rw [placed]
      exact Nat.lt_add_of_pos_right entry.lexemes_pos
    · rw [placed, same]
      simp
  have accounted := accounts.accounted index lexeme found counts
  rw [Nat.zero_add] at accounted
  have outside : Initializer.Outside findings index → ∀ constant ∈ constants (Initializer.spanned
      (significant (tokenize source)) (Utf8.size source.toList) findings),
      ¬ lexeme.span.Within constant.1 := by
    intro outside constant isConstant
    rw [Initializer.spanned, constants_move] at isConstant
    obtain ⟨origin, isOrigin, rfl⟩ := List.mem_map.mp isConstant
    rw [covered origin isOrigin]
    exact outside origin isOrigin
  cases accounted with
  | kept once =>
      apply Accounted.kept
      rw [Initializer.spanned, constants_move, List.countP_map, ← once]
      apply List.countP_congr
      intro constant isConstant
      simpa using covered constant isConstant
  | reported none place cause isCause covers =>
      apply Accounted.reported (outside none) _ cause _ (Place.within_of_covers found covers)
      rw [Initializer.spanned, diagnostics_move]
      exact List.mem_map_of_mem isCause
  | skipped none isSkipped =>
      apply Accounted.skipped (outside none)
      apply List.mem_filterMap.mpr
      refine ⟨_, List.mem_map_of_mem isSkipped, ?_⟩
      have span : Place.span (significant (tokenize source)) (Utf8.size source.toList)
          ⟨index, index + 1⟩ = lexeme.span := by
        simp [Place.span, found]
      rw [Finding.move, span]
      rfl

theorem literal_of_accounts
    (accounts : Initializer.Accounts tiers 0 (significant (tokenize source)) findings)
    {found : Span × Constant} (member : found ∈ constants (Initializer.spanned
      (significant (tokenize source)) (Utf8.size source.toList) findings)) :
    ∃! lexeme, lexeme ∈ tokenize source ∧ lexeme.token.kind.isLiteral = true ∧
      lexeme.span.Within found.1 := by
  rw [Initializer.spanned, constants_move] at member
  obtain ⟨origin, isOrigin, rfl⟩ := List.mem_map.mp member
  have stands := accounts.stands origin isOrigin
  obtain ⟨offset, literal, atOffset, covers, isLiteral, unique⟩ := stands.literal
  rw [Nat.zero_add] at covers
  refine ⟨literal, ⟨(List.mem_filter.mp (List.mem_of_getElem? atOffset)).1, isLiteral,
    Place.within_of_covers atOffset covers⟩, ?_⟩
  rintro word ⟨isWord, wordLiteral, within⟩
  obtain ⟨other, atOther⟩ := List.getElem?_of_mem (significant_of_counts isWord (.inl wordLiteral))
  apply unique other word atOther _ wordLiteral
  rw [Nat.zero_add]
  have bounded := stands.bounds.2
  rw [Nat.zero_add] at bounded
  exact (Place.within_iff atOther (Nat.lt_of_le_of_lt covers.1 covers.2) bounded).mp within

theorem diagnosed_of_warned (warned : Initializer.Warned findings) {target : Place → Span}
    {report : Event} (member : report ∈ events (findings.map (Finding.move target)))
    (loud : report.level = .warn) : diagnostics (findings.map (Finding.move target)) ≠ [] := by
  obtain ⟨_, moved, isReport⟩ := List.mem_filterMap.mp member
  obtain ⟨finding, isFinding, rfl⟩ := List.mem_map.mp moved
  rw [diagnostics_move, ne_eq, List.map_eq_nil_iff]
  cases finding with
  | constant place value => cases isReport
  | diagnostic place cause => cases isReport
  | skipped place kind => exact warned.diagnosed place kind isFinding
  | event own =>
      cases isReport
      exact absurd loud (warned.quiet _ isFinding)

end Source

/-- No literal and no error is lost in silence, none is part of two constants, and each
constant has one literal. There is a diagnostic wherever there is a warning. -/
theorem literals_accounted (tiers : TierTable) (source : String) :
    let findings := readInitializer tiers source
    (∀ lexeme ∈ tokenize source, lexeme.token.kind.isLiteral = true ∨ lexeme.token.kind = .error →
      lexeme.Accounted findings) ∧
    (∀ found ∈ constants findings, ∃! lexeme, lexeme ∈ tokenize source ∧
      lexeme.token.kind.isLiteral = true ∧ lexeme.span.Within found.1) ∧
    ((∃ report ∈ events findings, report.level = .warn) → diagnostics findings ≠ []) := by
  intro findings
  have accounts := (Initializer.accounts_steps tiers).read (significant (tokenize source))
  refine ⟨?_, ?_, ?_⟩
  · intro lexeme member counts
    exact Lexeme.accounted_of_accounts accounts member counts
  · intro found member
    exact literal_of_accounts accounts member
  · rintro ⟨report, member, loud⟩
    exact diagnosed_of_warned ((Initializer.warned_steps tiers).read _) member loud

/-- Where a comma is missing, the number behind it is reported and the next one is only
skipped. -/
theorem literals_accounted_missing_comma :
    let source := "\x7b1 2 3\x7d"
    let findings := readInitializer .standard source
    let third : Lexeme := ⟨⟨.int, ['3']⟩, ⟨5, 6⟩⟩
    third.Accounted findings ∧ third.skipping ∈ events findings ∧ diagnostics findings ≠ [] ∧
      ∃ found ∈ constants findings, ∃! lexeme, lexeme ∈ tokenize source ∧
        lexeme.token.kind.isLiteral = true ∧ lexeme.span.Within found.1 := by
  intro source findings third
  have skips : third.skipping ∈ events findings := by decide +kernel
  have first : (⟨1, 2⟩, .integer (.ofInt ⟨8, false⟩ 1)) ∈ constants findings := by decide +kernel
  obtain ⟨accounted, single, diagnosed⟩ := literals_accounted .standard source
  refine ⟨accounted third (by decide +kernel) (.inl rfl), skips, ?_, _, first, single _ first⟩
  exact diagnosed ⟨third.skipping, skips, rfl⟩

end TypedLiteral

import TypedLiteral.Proofs.Entry

/-!
Reading an initializer finds no fault exactly where its tokens are one entry, or
entries between braces with single commas between them and maybe one more at the
end, and each entry has a value. An entry of such a list is read as if it stood
alone, and reading goes on behind the delimiter after it.
-/
namespace TypedLiteral

inductive Separated : List Lexeme → List Entry → Prop where
  | one (entry : Entry) : Separated entry.lexemes [entry]
  | more (entry : Entry) (comma : Lexeme) (words : List Lexeme) (entries : List Entry)
      (isComma : comma.token.kind = .comma) (separated : Separated words entries) :
      Separated (entry.lexemes ++ comma :: words) (entry :: entries)

/-- The end of a list: a closing brace, or a comma and a closing brace. -/
inductive Ending : List Lexeme → Prop where
  | brace (closing : Lexeme) (isClosing : closing.token.kind = .rightBrace) : Ending [closing]
  | comma (comma closing : Lexeme) (isComma : comma.token.kind = .comma)
      (isClosing : closing.token.kind = .rightBrace) : Ending [comma, closing]

inductive Braced : List Lexeme → List Entry → Prop where
  | empty (opening closing : Lexeme) (isOpening : opening.token.kind = .leftBrace)
      (isClosing : closing.token.kind = .rightBrace) : Braced [opening, closing] []
  | full (opening : Lexeme) (words ending : List Lexeme) (entries : List Entry)
      (isOpening : opening.token.kind = .leftBrace) (separated : Separated words entries)
      (ends : Ending ending) : Braced (opening :: (words ++ ending)) entries

theorem Braced.last {opening closing : Lexeme} (isOpening : opening.token.kind = .leftBrace)
    (entry : Entry) (isClosing : closing.token.kind = .rightBrace) :
    Braced (opening :: (entry.lexemes ++ [closing])) [entry] :=
  .full opening _ _ _ isOpening (.one entry) (.brace closing isClosing)

theorem Braced.more {opening comma : Lexeme} {words : List Lexeme} {entries : List Entry}
    (entry : Entry) (isComma : comma.token.kind = .comma)
    (braced : Braced (opening :: words) entries) :
    Braced (opening :: (entry.lexemes ++ comma :: words)) (entry :: entries) := by
  cases braced with
  | empty _ closing isOpening isClosing =>
      exact .full opening _ _ _ isOpening (.one entry) (.comma comma closing isComma isClosing)
  | full _ words ending _ isOpening separated ends =>
      have joined := Braced.full opening _ _ _ isOpening
        (.more entry comma words entries isComma separated) ends
      simpa using joined

/-- The grammar of initializers. -/
inductive Written : List Lexeme → List Entry → Prop where
  | single (entry : Entry) : Written entry.lexemes [entry]
  | braced (words : List Lexeme) (entries : List Entry) (braced : Braced words entries) :
      Written words entries

namespace Initializer

variable (tiers : TierTable)

/-- Reading goes on behind a comma, and at any other token. -/
def resume (index : Nat) : List Token → List (Finding Place)
  | [] => elements tiers index []
  | delimiter :: further =>
      if delimiter.kind = .comma then elements tiers (index + 1) further
      else elements tiers index (delimiter :: further)

theorem elements_nil (index : Nat) :
    elements tiers index [] = [.diagnostic ⟨index, index⟩ (.missing .rightBrace)] := by
  rw [elements]

theorem elements_close (index : Nat) {token : Token} (rest : List Token)
    (closes : token.kind = .rightBrace) :
    elements tiers index (token :: rest) = unexpected (index + 1) rest := by
  rw [elements, if_pos closes]

theorem elements_cons (index : Nat) {token : Token} (rest : List Token)
    (goesOn : token.kind ≠ .rightBrace) :
    elements tiers index (token :: rest) =
      let read := Element.read tiers index (token :: rest)
      let run := read.2.takeWhile isInside
      read.1.findings ++ missingComma read.1.accepted read.1.place.past read.2 ++
        skipped read.1.place.past run ++
        resume tiers (read.1.place.past + run.length) (read.2.dropWhile isInside) := by
  rw [elements, if_neg goesOn]
  simp only
  congr 1
  split
  · next ended => rw [ended, resume]
  · next delimiter further stopped => rw [stopped, resume]

theorem resume_comma (index : Nat) {comma : Token} (further : List Token)
    (isComma : comma.kind = .comma) :
    resume tiers index (comma :: further) = elements tiers (index + 1) further := by
  rw [resume, if_pos isComma]

theorem resume_close (index : Nat) {closing : Token} (further : List Token)
    (isClosing : closing.kind = .rightBrace) :
    resume tiers index (closing :: further) = unexpected (index + 1) further := by
  rw [resume, if_neg (by rw [isClosing]; decide), elements_close tiers index further isClosing]

theorem delimiter_cases {kind : Kind} (isDelimiter : kind.isDelimiter = true) :
    kind = .comma ∨ kind = .rightBrace := by
  revert isDelimiter
  cases kind <;> decide

theorem entry_inside (entry : Entry) :
    ∀ word ∈ entry.lexemes.map Lexeme.token, isInside word = true := by
  intro word member
  obtain ⟨lexeme, isLexeme, rfl⟩ := List.mem_map.mp member
  simp [isInside, (entry.solid lexeme isLexeme).notDelimiter]

theorem entry_opens (entry : Entry) : ∃ token rest, entry.lexemes.map Lexeme.token = token :: rest ∧
    token.kind.Solid := by
  obtain ⟨first, rest, same, _⟩ := entry.starts_with
  refine ⟨first.token, rest.map Lexeme.token, by rw [same, List.map_cons], ?_⟩
  exact entry.solid first (by simp [same])

/-- One step of the list: what is found at an element, and reading goes on behind the
tokens that are skipped after it. -/
theorem elements_run {index : Nat} {token : Token} {tail after : List Token} {element : Element}
    (run : List Token) (goesOn : token.kind ≠ .rightBrace)
    (read : Element.read tiers index (token :: tail) = (element, run ++ after))
    (inside : ∀ word ∈ run, isInside word = true)
    (outside : ∀ word ∈ after.head?, isInside word = false) :
    elements tiers index (token :: tail) =
      element.findings ++ missingComma element.accepted element.place.past (run ++ after) ++
        skipped element.place.past run ++
        resume tiers (element.place.past + run.length) after := by
  have stops : after.takeWhile isInside = [] ∧ after.dropWhile isInside = after := by
    cases after with
    | nil => exact ⟨rfl, rfl⟩
    | cons delimiter further => simp [outside delimiter rfl]
  have taken : (run ++ after).takeWhile isInside = run := by
    rw [List.takeWhile_append_of_pos inside, stops.1, List.append_nil]
  have dropped : (run ++ after).dropWhile isInside = after := by
    rw [List.dropWhile_append_of_pos inside, stops.2]
  rw [elements_cons tiers index _ goesOn, read]
  simp only [taken, dropped]

theorem elements_step {index : Nat} {token delimiter : Token} {tail further : List Token}
    {element : Element} (run : List Token) (goesOn : token.kind ≠ .rightBrace)
    (read : Element.read tiers index (token :: tail) = (element, run ++ delimiter :: further))
    (inside : ∀ word ∈ run, isInside word = true) (outside : isInside delimiter = false) :
    elements tiers index (token :: tail) =
      element.findings ++ missingComma element.accepted element.place.past
        (run ++ delimiter :: further) ++ skipped element.place.past run ++
        resume tiers (element.place.past + run.length) (delimiter :: further) :=
  elements_run tiers run goesOn read inside (by simpa using outside)

theorem elements_entry (entry : Entry) (index : Nat) {delimiter : Token} (further : List Token)
    (isDelimiter : delimiter.kind.isDelimiter = true) :
    elements tiers index (entry.lexemes.map Lexeme.token ++ delimiter :: further) =
      entry.findings tiers ⟨index, index + entry.lexemes.length⟩ ++
        resume tiers (index + entry.lexemes.length) (delimiter :: further) := by
  obtain ⟨token, rest, first, solid⟩ := entry_opens entry
  have read := entry.read_entry tiers index (delimiter :: further)
  have outside : isInside delimiter = false := by simp [isInside, isDelimiter]
  rw [first, List.cons_append] at read ⊢
  rw [elements_step tiers [] solid.notClosing read (by simp) outside]
  simp [Entry.element_findings, Entry.element_place, missingComma, skipped, outside]

theorem span_entry (entry : Entry) (before after : List Lexeme) (size : Nat) :
    Place.span (before ++ (entry.lexemes ++ after)) size
      ⟨before.length, before.length + entry.lexemes.length⟩ = entry.span := by
  cases entry <;> simp [Place.span, Entry.lexemes, Entry.span]

def spanned (words : List Lexeme) (size : Nat) (findings : List (Finding Place)) :
    List (Finding Span) :=
  findings.map (Finding.move (Place.span words size))

theorem spanned_append (words : List Lexeme) (size : Nat) (first last : List (Finding Place)) :
    spanned words size (first ++ last) = spanned words size first ++ spanned words size last :=
  List.map_append

theorem spanned_entry (entry : Entry) (before after : List Lexeme) (size : Nat) :
    spanned (before ++ (entry.lexemes ++ after)) size
      (entry.findings tiers ⟨before.length, before.length + entry.lexemes.length⟩) =
      entry.findings tiers entry.span := by
  rw [spanned, Entry.findings_move, span_entry]

theorem resume_ending {ending : List Lexeme} (ends : Ending ending) (index : Nat) :
    ∃ delimiter further, ending.map Lexeme.token = delimiter :: further ∧
      delimiter.kind.isDelimiter = true ∧ resume tiers index (delimiter :: further) = [] := by
  cases ends with
  | brace closing isClosing =>
      refine ⟨closing.token, [], rfl, by rw [isClosing]; rfl, ?_⟩
      rw [resume_close tiers _ _ isClosing, unexpected]
  | comma comma closing isComma isClosing =>
      refine ⟨comma.token, [closing.token], rfl, by rw [isComma]; rfl, ?_⟩
      rw [resume_comma tiers _ _ isComma, elements_close tiers _ _ isClosing, unexpected]

theorem elements_separated {words ending : List Lexeme} {entries : List Entry}
    (separated : Separated words entries) (ends : Ending ending) (before : List Lexeme)
    (size : Nat) :
    spanned (before ++ (words ++ ending)) size
        (elements tiers before.length ((words ++ ending).map Lexeme.token)) =
      entries.flatMap fun entry => entry.findings tiers entry.span := by
  induction separated generalizing before with
  | one entry =>
      obtain ⟨delimiter, further, same, isDelimiter, rest⟩ :=
        resume_ending tiers ends (before.length + entry.lexemes.length)
      rw [List.map_append, same, elements_entry tiers entry _ _ isDelimiter, rest, List.append_nil,
        spanned_entry]
      simp
  | more entry comma words entries isComma separated ih =>
      have isDelimiter : comma.token.kind.isDelimiter = true := by rw [isComma]; rfl
      have later := ih (before ++ entry.lexemes ++ [comma])
      rw [List.append_assoc entry.lexemes, List.map_append, List.cons_append, List.map_cons,
        elements_entry tiers entry _ _ isDelimiter, resume_comma tiers _ _ isComma,
        spanned_append, spanned_entry, List.flatMap_cons]
      congr 1
      simpa [Nat.add_assoc] using later

theorem single_entry (entry : Entry) (size : Nat) :
    spanned entry.lexemes size (single tiers (entry.lexemes.map Lexeme.token)) =
      entry.findings tiers entry.span := by
  have read := entry.read_entry tiers 0 []
  have placed := spanned_entry tiers entry [] [] size
  rw [List.append_nil] at read
  simp only [List.nil_append, List.append_nil, List.length_nil] at placed
  simp only [single, read, Entry.element_findings, unexpected, List.append_nil, placed]

/-- An initializer of the grammar is read as the row of its entries. -/
theorem read_written {words : List Lexeme} {entries : List Entry} (written : Written words entries)
    (size : Nat) :
    spanned words size (read tiers (words.map Lexeme.token)) =
      entries.flatMap fun entry => entry.findings tiers entry.span := by
  cases written with
  | single entry =>
      obtain ⟨token, rest, first, solid⟩ := entry_opens entry
      have alone := single_entry tiers entry size
      rw [first] at alone ⊢
      rw [read, if_neg solid.notOpening, alone]
      simp
  | braced _ _ braced =>
      cases braced with
      | empty opening closing isOpening isClosing =>
          simp only [List.map_cons, read, isOpening, if_true]
          rw [elements_close tiers _ _ isClosing]
          rfl
      | full opening words ending entries isOpening separated ends =>
          simp only [List.map_cons, read, isOpening, if_true]
          exact elements_separated tiers separated ends [opening] size

theorem unexpected_sound (index : Nat) (tokens : List Token)
    (sound : diagnostics (unexpected index tokens) = []) : tokens = [] := by
  cases tokens with
  | nil => rfl
  | cons token rest => simp [unexpected, diagnostics, Finding.diagnostic?] at sound

theorem element_sound {element : Element} (sound : diagnostics element.findings = []) :
    element.accepted = true := by
  unfold Element.accepted
  cases result : element.result with
  | ok value => rfl
  | error cause =>
      simp [Element.findings, result, diagnostics, Finding.diagnostic?] at sound

theorem missingComma_sound {index : Nat} {tokens : List Token}
    (sound : diagnostics (missingComma true index tokens) = []) :
    ∀ token ∈ tokens.head?, token.kind.isDelimiter = true := by
  intro token member
  cases tokens with
  | nil => cases member
  | cons first rest =>
      cases member
      cases delimits : token.kind.isDelimiter with
      | true => rfl
      | false =>
          simp [missingComma, isInside, delimits, diagnostics, Finding.diagnostic?] at sound

theorem single_sound {words : List Lexeme}
    (sound : diagnostics (single tiers (words.map Lexeme.token)) = []) :
    ∃ entry : Entry, words = entry.lexemes ∧ entry.Evaluates tiers := by
  simp only [single, diagnostics_append, List.append_eq_nil_iff] at sound
  obtain ⟨entry, rest, rfl, evaluates⟩ :=
    Entry.read_accepted tiers 0 words (element_sound sound.1)
  have last := sound.2
  rw [List.map_append, entry.read_entry] at last
  have ended := List.map_eq_nil_iff.mp (unexpected_sound _ _ last)
  exact ⟨entry, by rw [ended, List.append_nil], evaluates⟩

theorem elements_sound_step (index : Nat) {word : Lexeme} {rest : List Lexeme}
    (goesOn : word.token.kind ≠ .rightBrace)
    (sound : diagnostics (elements tiers index ((word :: rest).map Lexeme.token)) = []) :
    ∃ (entry : Entry) (after : List Lexeme) (next : Nat), word :: rest = entry.lexemes ++ after ∧
      entry.Evaluates tiers ∧ (∀ token ∈ (after.map Lexeme.token).head?, token.kind.isDelimiter) ∧
      diagnostics (resume tiers next (after.map Lexeme.token)) = [] := by
  have faultless := sound
  rw [List.map_cons, elements_cons tiers index _ goesOn] at faultless
  simp only [diagnostics_append, List.append_eq_nil_iff] at faultless
  obtain ⟨⟨⟨first, comma⟩, _⟩, later⟩ := faultless
  obtain ⟨entry, after, same, evaluates⟩ :=
    Entry.read_accepted tiers index (word :: rest) (element_sound first)
  have read := entry.read_entry tiers index (after.map Lexeme.token)
  rw [← List.map_append, ← same, List.map_cons] at read
  have accepted :=
    (entry.element_accepted tiers ⟨index, index + entry.lexemes.length⟩).mpr evaluates
  rw [read] at comma later
  rw [accepted] at comma
  have delimited := missingComma_sound comma
  -- Nothing is skipped, since the token behind the entry is a delimiter.
  have kept : (after.map Lexeme.token).dropWhile isInside = after.map Lexeme.token := by
    cases after with
    | nil => rfl
    | cons next after =>
        have outside := delimited next.token rfl
        simp [isInside, outside]
  rw [kept] at later
  exact ⟨entry, after, _, same, evaluates, delimited, later⟩

theorem elements_sound (words : List Lexeme) (index : Nat)
    (sound : diagnostics (elements tiers index (words.map Lexeme.token)) = [])
    (opening : Lexeme) (isOpening : opening.token.kind = .leftBrace) :
    ∃ entries, Braced (opening :: words) entries ∧ ∀ entry ∈ entries, entry.Evaluates tiers := by
  -- On the number of tokens: behind an entry and a comma the rest is a list again, which the
  -- same opening brace may stand in front of.
  induction size : words.length using Nat.strongRecOn generalizing words index with
  | ind size ih =>
      subst size
      cases words with
      | nil => simp [elements_nil, diagnostics, Finding.diagnostic?] at sound
      | cons word rest =>
          by_cases closes : word.token.kind = .rightBrace
          · rw [List.map_cons, elements_close tiers index _ closes] at sound
            have ended := List.map_eq_nil_iff.mp (unexpected_sound _ _ sound)
            subst ended
            exact ⟨[], .empty opening word isOpening closes, by simp⟩
          · obtain ⟨entry, after, next, same, evaluates, delimited, later⟩ :=
              elements_sound_step tiers index closes sound
            have shorter : after.length < (word :: rest).length := by
              have positive := entry.lexemes_pos
              rw [same, List.length_append]
              omega
            rw [same]
            cases after with
            | nil => simp [resume, elements_nil, diagnostics, Finding.diagnostic?] at later
            | cons delimiter further =>
                rcases delimiter_cases (delimited delimiter.token rfl) with isComma | isClosing
                · rw [List.map_cons, resume_comma tiers _ _ isComma] at later
                  obtain ⟨entries, braced, all⟩ :=
                    ih further.length (Nat.lt_of_succ_lt shorter) further _ later rfl
                  exact ⟨entry :: entries, braced.more entry isComma,
                    List.forall_mem_cons.mpr ⟨evaluates, all⟩⟩
                · rw [List.map_cons, resume_close tiers _ _ isClosing] at later
                  have ended := List.map_eq_nil_iff.mp (unexpected_sound _ _ later)
                  subst ended
                  exact ⟨[entry], .last isOpening entry isClosing, by simpa using evaluates⟩

theorem read_sound {words : List Lexeme}
    (sound : diagnostics (read tiers (words.map Lexeme.token)) = []) :
    ∃ entries, Written words entries ∧ ∀ entry ∈ entries, entry.Evaluates tiers := by
  cases words with
  | nil =>
      obtain ⟨entry, same, evaluates⟩ := @single_sound tiers [] sound
      exact ⟨[entry], same ▸ .single entry, by simpa using evaluates⟩
  | cons word rest =>
      rw [List.map_cons, read] at sound
      split at sound
      · next isOpening =>
          obtain ⟨entries, braced, all⟩ := elements_sound tiers rest 1 sound word isOpening
          exact ⟨entries, .braced _ _ braced, all⟩
      · obtain ⟨entry, same, evaluates⟩ := @single_sound tiers (word :: rest) sound
        exact ⟨[entry], same ▸ .single entry, by simpa using evaluates⟩

theorem diagnostics_entries (entries : List Entry) :
    diagnostics (entries.flatMap fun entry => entry.findings tiers entry.span) = [] ↔
      ∀ entry ∈ entries, entry.Evaluates tiers := by
  induction entries with
  | nil => simp [diagnostics]
  | cons entry entries ih =>
      rw [List.flatMap_cons, diagnostics_append, List.append_eq_nil_iff, ih,
        Entry.diagnostics_findings, List.forall_mem_cons]
      cases result : entry.value tiers <;> simp [Entry.Evaluates, result]

theorem constants_entries (entries : List Entry) (all : ∀ entry ∈ entries, entry.Evaluates tiers) :
    (constants (entries.flatMap fun entry => entry.findings tiers entry.span)).map
        (fun found => (found.1, Except.ok found.2)) =
      entries.map fun entry => (entry.span, entry.value tiers) := by
  induction entries with
  | nil => rfl
  | cons entry entries ih =>
      obtain ⟨⟨value, evaluates⟩, others⟩ := List.forall_mem_cons.mp all
      rw [List.flatMap_cons, constants_append, List.map_append, ih others,
        Entry.constants_findings, evaluates]
      simp [evaluates]

theorem constantOf_entry (entry : Entry) :
    constantOf (entry.findings tiers entry.span) =
      match entry.value tiers with
      | .ok value => .ok (entry.span, value)
      | .error cause => .error [(entry.span, cause)] := by
  rw [constantOf, Entry.diagnostics_findings, Entry.constants_findings]
  cases entry.value tiers <;> rfl

theorem constantOf_ok {findings : List (Finding Span)} {found : Span × Constant}
    (accepted : constantOf findings = .ok found) : diagnostics findings = [] := by
  unfold constantOf at accepted
  split at accepted
  · assumption
  · cases accepted

theorem sound_of_spanned {words : List Lexeme} {size : Nat} {findings : List (Finding Place)}
    (sound : diagnostics (spanned words size findings) = []) : diagnostics findings = [] := by
  rw [spanned, diagnostics_move] at sound
  exact List.map_eq_nil_iff.mp sound

theorem constantOf_iff (source : String) (span : Span) (value : Constant) :
    constantOf (readConstant tiers source) = .ok (span, value) ↔
      ∃ entry : Entry, significant (tokenize source) = entry.lexemes ∧ entry.span = span ∧
        entry.value tiers = .ok value := by
  constructor
  · intro accepted
    obtain ⟨entry, same, result, evaluates⟩ :=
      single_sound tiers (sound_of_spanned (constantOf_ok accepted))
    have alone := single_entry tiers entry (Utf8.size source.toList)
    rw [readConstant, findingsIn] at accepted
    simp only [same] at accepted
    rw [← spanned, alone, constantOf_entry, evaluates] at accepted
    cases accepted
    exact ⟨entry, same, rfl, evaluates⟩
  · rintro ⟨entry, same, rfl, evaluates⟩
    have alone := single_entry tiers entry (Utf8.size source.toList)
    rw [readConstant, findingsIn]
    simp only [same]
    rw [← spanned, alone, constantOf_entry, evaluates]

end Initializer

/-- An initializer is without a fault exactly where its tokens are of the grammar and
every entry has a value; its constants are then the values of the entries, in order
and with their spans. A source is one constant exactly where it is one entry with a
value, and there is a diagnostic wherever it is not. -/
theorem initializer_accepts_grammar (tiers : TierTable) (source : String) :
    let words := significant (tokenize source)
    let findings := readInitializer tiers source
    (diagnostics findings = [] ↔
      ∃ entries, Written words entries ∧ ∀ entry ∈ entries, entry.Evaluates tiers) ∧
    (∀ entries, Written words entries → diagnostics findings = [] →
      (constants findings).map (fun found => (found.1, Except.ok found.2)) =
        entries.map fun entry => (entry.span, entry.value tiers)) ∧
    (∀ span value, constantOf (readConstant tiers source) = .ok (span, value) ↔
      ∃ entry : Entry, words = entry.lexemes ∧ entry.span = span ∧
        entry.value tiers = .ok value) ∧
    ∀ faults, constantOf (readConstant tiers source) = .error faults → faults ≠ [] := by
  intro words findings
  have row : ∀ {entries}, Written words entries →
      findings = entries.flatMap fun entry => entry.findings tiers entry.span :=
    fun written => Initializer.read_written tiers written _
  refine ⟨⟨?_, ?_⟩, ?_, Initializer.constantOf_iff tiers source, ?_⟩
  · intro sound
    exact Initializer.read_sound tiers (Initializer.sound_of_spanned sound)
  · rintro ⟨entries, written, all⟩
    rw [row written, Initializer.diagnostics_entries]
    exact all
  · intro entries written sound
    rw [row written] at sound ⊢
    exact Initializer.constants_entries tiers entries
      ((Initializer.diagnostics_entries tiers entries).mp sound)
  · rintro faults rejected rfl
    have sound : diagnostics (readConstant tiers source) = [] := by
      unfold constantOf at rejected
      split at rejected
      · cases rejected
      · exact Except.error.inj rejected
    obtain ⟨entry, same, value, evaluates⟩ :=
      Initializer.single_sound tiers (Initializer.sound_of_spanned sound)
    have accepted := (Initializer.constantOf_iff tiers source entry.span value).mpr
      ⟨entry, same, rfl, evaluates⟩
    rw [rejected] at accepted
    cases accepted

/-- A sign may stand apart from its number, and a comma at the end of the list. -/
theorem initializer_accepts_signed_list :
    (∃ entries, Written (significant (tokenize "\x7b - 1, 'a', \x7d")) entries ∧
      ∀ entry ∈ entries, entry.Evaluates .standard) ∧
    ¬ ∃ entries, Written (significant (tokenize "\x7b1,,\x7d")) entries ∧
      ∀ entry ∈ entries, entry.Evaluates .standard := by
  constructor
  · obtain ⟨accepts, _⟩ := initializer_accepts_grammar .standard "\x7b - 1, 'a', \x7d"
    exact accepts.mp (by decide +kernel)
  · obtain ⟨accepts, _⟩ := initializer_accepts_grammar .standard "\x7b1,,\x7d"
    intro written
    have faultless := accepts.mpr written
    revert faultless
    decide +kernel

end TypedLiteral

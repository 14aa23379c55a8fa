import TypedLiteral.Proofs.Reported
import TypedLiteral.Proofs.Span

/-!
Recovery inside a list. After every element, well formed or not, reading goes on at
the next delimiter, so an entry between two delimiters is found by itself. The one
way to lose it is that the comma in front of it has been taken for an element, or
for the number of a lone sign; this comma is then reported. Which commas are taken
depends on the kinds of the tokens alone (`Slot`).
-/
namespace TypedLiteral

/-- Where reading stands in a list: where an element begins, behind a sign that waits
for its number, or behind an element, where a comma is waited for. -/
inductive Slot where
  | start
  | signed
  | filled
  deriving DecidableEq

namespace Slot

/-- At its start an element takes any token, and a sign takes any token for its number;
only behind an element a comma separates. -/
def after : Slot → Kind → Slot
  | start, kind => if kind = .plus ∨ kind = .minus then signed else filled
  | signed, _ => filled
  | filled, kind => if kind = .comma then start else filled

def run : Slot → List Lexeme → Slot
  | slot, [] => slot
  | slot, word :: rest => run (slot.after word.token.kind) rest

/-- Behind these tokens of a list, the first of which opens it. -/
def behind (words : List Lexeme) : Slot := start.run words.tail

theorem run_append (slot : Slot) (first second : List Lexeme) :
    slot.run (first ++ second) = (slot.run first).run second := by
  induction first generalizing slot with
  | nil => rfl
  | cons word rest ih => exact ih (slot.after word.token.kind)

theorem after_unsigned {kind : Kind} (isPlain : kind.sign? = none) : start.after kind = filled := by
  cases kind <;> first | rfl | cases isPlain

theorem after_sign {kind : Kind} {mark : Sign} (isSign : kind.sign? = some mark) :
    start.after kind = signed := by
  cases kind <;> first | rfl | cases isSign

theorem run_inside (words : List Lexeme)
    (inside : ∀ word ∈ words.map Lexeme.token, Initializer.isInside word = true) :
    filled.run words = filled := by
  induction words with
  | nil => rfl
  | cons word rest ih =>
      obtain ⟨first, later⟩ := List.forall_mem_cons.mp inside
      have noComma : word.token.kind ≠ .comma := by
        intro isComma
        simp [Initializer.isInside, isComma, Kind.isDelimiter] at first
      rw [run, after, if_neg noComma]
      exact ih later

/-- Of a run of commas where an element begins, every second one is taken for an element. -/
theorem run_commas (commas : List Lexeme) (all : ∀ word ∈ commas, word.token.kind = .comma) :
    start.run commas = (if commas.length % 2 = 0 then start else filled) ∧
      filled.run commas = if commas.length % 2 = 0 then filled else start := by
  induction commas with
  | nil => exact ⟨rfl, rfl⟩
  | cons comma rest ih =>
      obtain ⟨isComma, later⟩ := List.forall_mem_cons.mp all
      obtain ⟨fromStart, fromFilled⟩ := ih later
      have takes : start.after comma.token.kind = filled := by rw [isComma]; rfl
      have separates : filled.after comma.token.kind = start := by rw [isComma]; rfl
      rw [run, run, takes, separates, fromStart, fromFilled, List.length_cons]
      rcases Nat.mod_two_eq_zero_or_one rest.length with even | odd
      · have next : (rest.length + 1) % 2 = 1 := by omega
        simp [even, next]
      · have next : (rest.length + 1) % 2 = 0 := by omega
        simp [odd, next]

example : start.run [⟨⟨.comma, [',']⟩, ⟨1, 2⟩⟩, ⟨⟨.comma, [',']⟩, ⟨2, 3⟩⟩] = start :=
  (run_commas _ (by decide)).1

end Slot

/-- Tokens that end where an element should begin, or in a sign where one could. -/
inductive Barren : List Lexeme → Prop where
  | empty (before : List Lexeme) (delimiter : Lexeme)
      (starts : delimiter.token.kind = .leftBrace ∨ delimiter.token.kind = .comma) :
      Barren (before ++ [delimiter])
  | sign (before : List Lexeme) (delimiter sign : Lexeme) (mark : Sign)
      (starts : delimiter.token.kind = .leftBrace ∨ delimiter.token.kind = .comma)
      (isSign : (sign.token.kind, mark) ∈ [(.plus, .plus), (.minus, .minus)]) :
      Barren (before ++ [delimiter, sign])

namespace Initializer

variable (tiers : TierTable) {index : Nat} {place : Place} {element : Element}
variable {token delimiter : Token} {tokens tail run further : List Token}

/-- An entry whose first token has this index is found, and nothing is reported at
the token in front of it. -/
structure Treated (entry : Entry) (findings : List (Finding Place)) (here : Nat) : Prop where
  found : entry.outcome tiers ⟨here, here + entry.lexemes.length⟩ ∈ findings
  silent : ∀ place, Reported findings place → place.first + 1 ≠ here

/-- The token in front of this index is reported, and nothing that begins at this
index is. -/
structure Lost (findings : List (Finding Place)) (here : Nat) : Prop where
  reported : ∃ place, Reported findings place ∧ place.first + 1 = here ∧ place.past = here
  silent : ∀ place, Reported findings place → place.first ≠ here

variable {entry : Entry} {own later : List (Finding Place)} {here : Nat}

theorem Treated.after (before : ∀ place, Reported own place → place.first + 1 < here)
    (treated : Treated tiers entry later here) : Treated tiers entry (own ++ later) here where
  found := List.mem_append_right _ treated.found
  silent := by
    intro place reported
    rcases reported_append.mp reported with earlier | rest
    · exact Nat.ne_of_lt (before place earlier)
    · exact treated.silent place rest

theorem Lost.after (before : ∀ place, Reported own place → place.first + 1 < here)
    (lost : Lost later here) : Lost (own ++ later) here where
  reported := by
    obtain ⟨place, reported, same⟩ := lost.reported
    exact ⟨place, reported_append.mpr (.inr reported), same⟩
  silent := by
    intro place reported
    rcases reported_append.mp reported with earlier | rest
    · exact Nat.ne_of_lt (Nat.lt_of_succ_lt (before place earlier))
    · exact lost.silent place rest

theorem treated_here (entry : Entry) (index : Nat) (further : List Token)
    (isDelimiter : delimiter.kind.isDelimiter = true) :
    Treated tiers entry
      (elements tiers index (entry.lexemes.map Lexeme.token ++ delimiter :: further)) index where
  found := by
    rw [elements_entry tiers entry index further isDelimiter, Entry.findings]
    simp
  silent := by
    intro place reported
    have lower := elements_lower tiers _ _ _ (Nat.le_refl _) reported
    rintro rfl
    exact Nat.not_succ_le_self _ lower

theorem lost_here (goesOn : token.kind ≠ .rightBrace)
    (read : Element.read tiers index (token :: tail) =
      (element, entry.lexemes.map Lexeme.token ++ delimiter :: further))
    (isDelimiter : delimiter.kind.isDelimiter = true) (rejected : element.accepted = false)
    (single : element.place.first + 1 = element.place.past) :
    Lost (elements tiers index (token :: tail)) element.place.past := by
  have outside : isInside delimiter = false := by simp [isInside, isDelimiter]
  rw [elements_step tiers _ goesOn read (entry_inside entry) outside, rejected]
  have silence : missingComma false element.place.past
      (entry.lexemes.map Lexeme.token ++ delimiter :: further) = [] := by
    unfold missingComma
    split <;> simp
  rw [silence, List.append_nil]
  -- The tokens of the entry are skipped, and reading goes on behind them.
  constructor
  · exact ⟨element.place, by simp [reported_append, reported_element], single, rfl⟩
  · intro place reported
    simp only [reported_append, reported_element, not_reported_skipped, or_false] at reported
    rcases reported with same | later
    · rw [same]
      omega
    · have lower := resume_lower tiers (fun _ _ => elements_lower tiers _ _ _) (Nat.le_refl _) later
      have positive := entry.lexemes_pos
      rw [List.length_map] at lower
      omega

theorem elements_pass {comma : Token} (goesOn : token.kind ≠ .rightBrace)
    (read : Element.read tiers index (token :: tail) = (element, run ++ comma :: further))
    (long : element.place.first < element.place.past)
    (inside : ∀ word ∈ run, isInside word = true) (isComma : comma.kind = .comma) :
    ∃ own, elements tiers index (token :: tail) =
        own ++ elements tiers (element.place.past + run.length + 1) further ∧
      ∀ place, Reported own place → place.first < element.place.past + run.length := by
  have outside : isInside comma = false := by simp [isInside, isComma, Kind.isDelimiter]
  refine ⟨_, by rw [elements_step tiers _ goesOn read inside outside,
    resume_comma tiers _ _ isComma], ?_⟩
  intro place reported
  simp only [reported_append, reported_element, not_reported_skipped, or_false] at reported
  rcases reported with same | missed
  · rw [same]
    omega
  · obtain ⟨same, first, isFirst, isIn⟩ := reported_missingComma missed
    rw [same]
    cases run with
    | nil =>
        -- The comma stands right behind the element, so it is not missed.
        cases isFirst
        simp [outside] at isIn
    | cons word run => simp

theorem first_comma (words : List Lexeme) (nonempty : words ≠ [])
    (unclosed : ∀ word ∈ words, word.token.kind ≠ .rightBrace)
    (closed : ∀ word ∈ words.getLast?, word.token.kind = .comma) :
    ∃ run comma further, words = run ++ comma :: further ∧ comma.token.kind = .comma ∧
      ∀ word ∈ run.map Lexeme.token, isInside word = true := by
  induction words with
  | nil => exact absurd rfl nonempty
  | cons word rest ih =>
      by_cases isComma : word.token.kind = .comma
      · exact ⟨[], word, rest, rfl, isComma, by simp⟩
      · cases rest with
        | nil => exact absurd (closed word rfl) isComma
        | cons next rest =>
            obtain ⟨run, comma, further, same, found, inside⟩ := ih (List.cons_ne_nil _ _)
              (fun word member => unclosed word (List.mem_cons_of_mem _ member))
              (by simpa using closed)
            refine ⟨word :: run, comma, further, by rw [same]; rfl, found, ?_⟩
            have goesOn := unclosed word List.mem_cons_self
            refine List.forall_mem_cons.mpr ⟨?_, inside⟩
            revert isComma goesOn
            cases kind : word.token.kind <;> simp [isInside, kind, Kind.isDelimiter]

def Starts (past : List Lexeme) : Prop :=
  ∃ before delimiter, past = before ++ [delimiter] ∧
    (delimiter.token.kind = .leftBrace ∨ delimiter.token.kind = .comma)

/-- An element at the start of `front` leaves a comma behind it, and reading begins
anew at the words after that comma. -/
def Passes (past front words : List Lexeme) : Prop :=
  ∃ taken further own, front = taken ++ further ∧ taken ≠ [] ∧ Starts (past ++ taken) ∧
    Slot.start.run taken = .start ∧
    elements tiers past.length ((front ++ words).map Lexeme.token) =
      own ++ elements tiers (past ++ taken).length ((further ++ words).map Lexeme.token) ∧
    ∀ place, Reported own place → place.first + 1 < (past ++ taken).length

/-- The comma at the end of `front`, where no entry has been written, takes the entry
behind it along. -/
structure Loses (past front : List Lexeme) (findings : List (Finding Place)) : Prop where
  nonempty : front ≠ []
  filled : Slot.start.run front = .filled
  barren : Barren (past ++ front.dropLast)
  lost : Lost findings (past ++ front).length

def Recovers (entry : Entry) (past front : List Lexeme) (findings : List (Finding Place)) : Prop :=
  (Slot.start.run front = .start ∧ Treated tiers entry findings (past ++ front).length) ∨
    Loses past front findings

theorem Recovers.after {past taken further : List Lexeme} (anew : Slot.start.run taken = .start)
    (before : ∀ place, Reported own place → place.first + 1 < (past ++ taken).length)
    (recovers : Recovers tiers entry (past ++ taken) further later) :
    Recovers tiers entry past (taken ++ further) (own ++ later) := by
  have earlier : ∀ place, Reported own place →
      place.first + 1 < (past ++ (taken ++ further)).length := by
    intro place reported
    rw [← List.append_assoc, List.length_append]
    exact Nat.lt_add_right _ (before place reported)
  rcases recovers with ⟨starts, treated⟩ | loses
  · rw [List.append_assoc] at treated
    refine .inl ⟨?_, treated.after tiers earlier⟩
    rw [Slot.run_append, anew, starts]
  · right
    constructor
    · exact List.append_ne_nil_of_right_ne_nil _ loses.nonempty
    · rw [Slot.run_append, anew, loses.filled]
    · rw [List.dropLast_append_of_ne_nil loses.nonempty, ← List.append_assoc]
      exact loses.barren
    · have lost := loses.lost
      rw [List.append_assoc] at lost
      exact lost.after earlier

theorem passes_of_read {past more words : List Lexeme} {word : Lexeme} (took : List Lexeme)
    (filled : Slot.start.run (word :: took) = .filled) (goesOn : word.token.kind ≠ .rightBrace)
    (nonempty : more ≠ [])
    (unclosed : ∀ word ∈ more, word.token.kind ≠ .rightBrace)
    (closed : ∀ word ∈ more.getLast?, word.token.kind = .comma)
    (read : Element.read tiers past.length ((word :: took ++ more ++ words).map Lexeme.token) =
      (element, (more ++ words).map Lexeme.token))
    (long : element.place.first < element.place.past)
    (reaches : element.place.past = (past ++ word :: took).length) :
    Passes tiers past (word :: took ++ more) words := by
  obtain ⟨run, comma, further, rfl, isComma, inside⟩ := first_comma more nonempty unclosed closed
  simp only [List.cons_append, List.append_assoc, List.map_cons, List.map_append] at read
  obtain ⟨own, same, before⟩ := elements_pass tiers goesOn read long inside isComma
  have position : element.place.past + (run.map Lexeme.token).length + 1 =
      (past ++ (word :: took ++ run ++ [comma])).length := by
    rw [reaches]
    simp only [List.length_append, List.length_cons, List.length_map, List.length_nil]
    omega
  refine ⟨word :: took ++ run ++ [comma], further, own, by simp, by simp,
    ⟨past ++ (word :: took ++ run), comma, by simp, .inr isComma⟩, ?_, ?_, ?_⟩
  · rw [Slot.run_append, Slot.run_append, filled, Slot.run_inside run inside, Slot.run, Slot.after,
      if_pos isComma, Slot.run]
  · rw [← position]
    simpa using same
  · intro place reported
    rw [← position]
    exact Nat.succ_lt_succ (before place reported)

theorem read_unsigned (index : Nat) {token : Token} (rest : List Token)
    (isPlain : token.kind.sign? = none) :
    ∃ element, Element.read tiers index (token :: rest) = (element, rest) ∧
      element.place = ⟨index, index + 1⟩ ∧ (token.kind = .comma → element.accepted = false) := by
  refine ⟨_, by rw [Element.read, isPlain], ofLiteral_place tiers _, ?_⟩
  intro isComma
  simp [Element.ofLiteral, Literal.ofToken, isComma, Element.accepted]

theorem read_signed (index : Nat) {token : Token} {mark : Sign} (number : Token)
    (rest : List Token) (isSign : token.kind.sign? = some mark) :
    ∃ element, Element.read tiers index (token :: number :: rest) = (element, rest) ∧
      element.place.first < element.place.past ∧ element.place.past = index + 2 ∧
      (number.kind = .comma → element.accepted = false ∧
        element.place.first + 1 = element.place.past) := by
  simp only [Element.read, isSign]
  split
  · next isNumber =>
      refine ⟨_, rfl, ?_, ?_, ?_⟩
      · simp [ofLiteral_place]
      · simp [ofLiteral_place]
      · intro isComma
        rw [isComma] at isNumber
        cases isNumber
  · exact ⟨_, rfl, Nat.lt_succ_self _, rfl, fun _ => ⟨rfl, rfl⟩⟩

section Step

variable (entry : Entry) (next : Lexeme) (rest : List Lexeme)
variable (isNext : next.token.kind.isDelimiter = true) (past : List Lexeme)
variable (starts : Starts past)

include isNext starts

theorem step_unsigned (word : Lexeme) (more : List Lexeme)
    (unclosed : ∀ other ∈ word :: more, other.token.kind ≠ .rightBrace)
    (closed : ∀ last ∈ (word :: more).getLast?, last.token.kind = .comma)
    (isPlain : word.token.kind.sign? = none) :
    Passes tiers past (word :: more) (entry.lexemes ++ next :: rest) ∨
      Loses past (word :: more) (elements tiers past.length
        ((word :: more ++ (entry.lexemes ++ next :: rest)).map Lexeme.token)) := by
  obtain ⟨goesOn, others⟩ := List.forall_mem_cons.mp unclosed
  obtain ⟨element, read, placed, unaccepted⟩ := read_unsigned tiers past.length
    ((more ++ (entry.lexemes ++ next :: rest)).map Lexeme.token) isPlain
  have filled : Slot.start.run [word] = .filled := Slot.after_unsigned isPlain
  cases more with
  | nil =>
      -- The word is the comma in front of the entry, and is taken for an element.
      right
      obtain ⟨before, delimiter, same, isStart⟩ := starts
      have lost := lost_here tiers goesOn (by simpa using read) isNext
        (unaccepted (closed word rfl)) (by rw [placed])
      rw [placed] at lost
      constructor
      · exact List.cons_ne_nil _ _
      · exact filled
      · simpa [same] using Barren.empty before delimiter isStart
      · simpa using lost
  | cons other more =>
      left
      refine passes_of_read tiers [] filled goesOn (List.cons_ne_nil other more) others ?_ read
        ?_ ?_
      · simpa using closed
      · simp [placed]
      · simp [placed]

theorem step_signed (word number : Lexeme) (more : List Lexeme) (mark : Sign)
    (unclosed : ∀ other ∈ word :: number :: more, other.token.kind ≠ .rightBrace)
    (closed : ∀ last ∈ (word :: number :: more).getLast?, last.token.kind = .comma)
    (isSign : word.token.kind.sign? = some mark) :
    Passes tiers past (word :: number :: more) (entry.lexemes ++ next :: rest) ∨
      Loses past (word :: number :: more) (elements tiers past.length
        ((word :: number :: more ++ (entry.lexemes ++ next :: rest)).map Lexeme.token)) := by
  obtain ⟨goesOn, others⟩ := List.forall_mem_cons.mp unclosed
  obtain ⟨element, read, long, reaches, unaccepted⟩ := read_signed tiers past.length number.token
    ((more ++ (entry.lexemes ++ next :: rest)).map Lexeme.token) isSign
  have filled : Slot.start.run [word, number] = .filled := by
    rw [Slot.run, Slot.after_sign isSign]
    rfl
  cases more with
  | nil =>
      -- The sign is alone, and the comma in front of the entry is taken for its number.
      right
      obtain ⟨before, delimiter, same, isStart⟩ := starts
      obtain ⟨rejected, single⟩ := unaccepted (closed number rfl)
      have lost := lost_here tiers goesOn (by simpa using read) isNext rejected single
      rw [reaches] at lost
      constructor
      · exact List.cons_ne_nil _ _
      · exact filled
      · simpa [same] using Barren.sign before delimiter word mark isStart (Kind.sign?_iff.mp isSign)
      · simpa using lost
  | cons other more =>
      left
      refine passes_of_read tiers [number] filled goesOn (List.cons_ne_nil other more)
        (List.forall_mem_cons.mp others).2 ?_ read long ?_
      · simpa using closed
      · simp [reaches]

theorem step (word : Lexeme) (more : List Lexeme)
    (unclosed : ∀ other ∈ word :: more, other.token.kind ≠ .rightBrace)
    (closed : ∀ last ∈ (word :: more).getLast?, last.token.kind = .comma) :
    Passes tiers past (word :: more) (entry.lexemes ++ next :: rest) ∨
      Loses past (word :: more) (elements tiers past.length
        ((word :: more ++ (entry.lexemes ++ next :: rest)).map Lexeme.token)) := by
  cases isSign : word.token.kind.sign? with
  | none =>
      exact step_unsigned tiers entry next rest isNext past starts word more unclosed closed isSign
  | some mark =>
      cases more with
      | nil =>
          have isComma : word.token.kind = .comma := closed word rfl
          rw [isComma] at isSign
          cases isSign
      | cons number more =>
          exact step_signed tiers entry next rest isNext past starts word number more mark unclosed
            closed isSign

end Step

theorem elements_recovers (entry : Entry) (next : Lexeme) (rest : List Lexeme)
    (isNext : next.token.kind.isDelimiter = true) (front past : List Lexeme)
    (unclosed : ∀ word ∈ front, word.token.kind ≠ .rightBrace)
    (closed : ∀ last ∈ front.getLast?, last.token.kind = .comma) (starts : Starts past) :
    Recovers tiers entry past front
      (elements tiers past.length
        ((front ++ (entry.lexemes ++ next :: rest)).map Lexeme.token)) := by
  -- On the number of words in front of the entry: a step takes an element and a comma away.
  induction size : front.length using Nat.strongRecOn generalizing front past with
  | ind size ih =>
      subst size
      cases front with
      | nil =>
          left
          have treated := treated_here tiers entry past.length (rest.map Lexeme.token) isNext
          exact ⟨rfl, by simpa using treated⟩
      | cons word more =>
          rcases step tiers entry next rest isNext past starts word more unclosed closed with
            ⟨taken, further, own, same, nonempty, restarts, anew, later, before⟩ | loses
          · rw [later, same]
            have shorter : further.length < (word :: more).length := by
              rw [same, List.length_append]
              exact Nat.lt_add_of_pos_left (List.length_pos_iff.mpr nonempty)
            refine .after tiers anew before
              (ih _ shorter further (past ++ taken) ?_ ?_ restarts rfl)
            · intro other member
              exact unclosed other (same ▸ List.mem_append_right taken member)
            · intro last isLast
              refine closed last ?_
              rw [same, List.getLast?_append]
              simp [Option.mem_def.mp isLast]
          · exact .inr loses

def located (source : String) (findings : List (Finding Place)) : List (Finding Span) :=
  spanned (significant (tokenize source)) (Utf8.size source.toList) findings

theorem readInitializer_braced {source : String} {opening : Lexeme} {words : List Lexeme}
    (tokens : significant (tokenize source) = opening :: words)
    (isOpening : opening.token.kind = .leftBrace) :
    readInitializer tiers source = located source (elements tiers 1 (words.map Lexeme.token)) := by
  simp only [readInitializer, findingsIn, located, spanned, tokens, List.map_cons, read, isOpening,
    if_true]

theorem front_inside {opening closing previous : Lexeme} {inner before words : List Lexeme}
    (nonempty : words ≠ [])
    (same : opening :: (inner ++ [closing]) = before ++ previous :: words) :
    ∃ front, before ++ [previous] = opening :: front ∧ inner ++ [closing] = front ++ words ∧
      ∀ word ∈ front, word ∈ inner := by
  have cut : ∃ front, before ++ [previous] = opening :: front ∧
      inner ++ [closing] = front ++ words := by
    cases before with
    | nil =>
        obtain ⟨rfl, rest⟩ := List.cons.inj same
        exact ⟨[], rfl, rest⟩
    | cons first body =>
        obtain ⟨rfl, rest⟩ := List.cons.inj same
        exact ⟨body ++ [previous], rfl, by simpa using rest⟩
  obtain ⟨front, opens, rest⟩ := cut
  refine ⟨front, opens, rest, ?_⟩
  intro word member
  have shorter := congrArg List.dropLast rest
  rw [List.dropLast_concat, List.dropLast_append_of_ne_nil nonempty] at shorter
  rw [shorter]
  exact List.mem_append_left _ member

theorem front_last {opening previous : Lexeme} {before front : List Lexeme}
    (opens : before ++ [previous] = opening :: front) (nonempty : front ≠ []) :
    front.getLast? = some previous ∧ before = opening :: front.dropLast := by
  constructor
  · have ends := congrArg List.getLast? opens
    rw [List.getLast?_concat, List.getLast?_cons_of_ne_nil nonempty] at ends
    exact ends.symm
  · have starts := congrArg List.dropLast opens
    rwa [List.dropLast_concat, List.dropLast_cons_of_ne_nil nonempty] at starts

section Spans

variable {source : String} {before after : List Lexeme} {previous next : Lexeme}
variable {findings : List (Finding Place)}
variable (stands : significant (tokenize source) =
  before ++ previous :: (entry.lexemes ++ next :: after))

theorem reported_first {lexeme : Lexeme} {span : Span}
    (found : (significant (tokenize source))[index]? = some lexeme)
    (starts : span.start = lexeme.span.start)
    (reported : Reported (located source findings) span) :
    ∃ place, Reported findings place ∧ place.first = index := by
  obtain ⟨place, own, same⟩ := reported_move.mp reported
  refine ⟨place, own, Place.first_of_start found ?_⟩
  rw [same, starts]

include stands

theorem Treated.located (treated : Treated tiers entry findings (before.length + 1)) :
    entry.outcome tiers entry.span ∈ located source findings ∧
      ¬ Reported (located source findings) previous.span := by
  constructor
  · have placed := span_entry entry (before ++ [previous]) (next :: after) (Utf8.size source.toList)
    rw [List.append_assoc, List.singleton_append, ← stands, List.length_append] at placed
    have moved := List.mem_map_of_mem (f := Finding.move (Place.span (significant (tokenize source))
      (Utf8.size source.toList))) treated.found
    rw [Entry.outcome_move] at moved
    exact placed ▸ moved
  · intro reported
    have found : (significant (tokenize source))[before.length]? = some previous := by
      simp [stands]
    obtain ⟨place, own, position⟩ := reported_first found rfl reported
    exact treated.silent place own (by rw [position])

theorem Lost.located (lost : Lost findings (before.length + 1)) :
    Reported (located source findings) previous.span ∧
      ¬ Reported (located source findings) entry.span := by
  constructor
  · obtain ⟨⟨first, past⟩, own, starts, stops⟩ := lost.reported
    refine reported_move.mpr ⟨⟨first, past⟩, own, ?_⟩
    obtain rfl : first = before.length := Nat.succ.inj starts
    obtain rfl : past = before.length + 1 := stops
    simp [stands, Place.span]
  · intro reported
    obtain ⟨opens, others, same, starts⟩ := entry.starts_with
    have found : (significant (tokenize source))[before.length + 1]? = some opens := by
      simp [stands, same]
    obtain ⟨place, own, position⟩ := reported_first found starts reported
    exact lost.silent place own position

end Spans

end Initializer

/-- In a list, an entry between two delimiters is found as it stands, whatever the
other tokens are, unless the comma in front of it does not lead to a new element. Then
the entry is never read, and that comma is reported in its place. -/
theorem entry_found_or_lost (tiers : TierTable) (source : String) (opening closing : Lexeme)
    (inner : List Lexeme)
    (braced : significant (tokenize source) = opening :: (inner ++ [closing]))
    (isOpening : opening.token.kind = .leftBrace)
    (unbraced : ∀ word ∈ inner,
      word.token.kind ≠ .leftBrace ∧ word.token.kind ≠ .rightBrace)
    (before after : List Lexeme) (previous next : Lexeme) (entry : Entry)
    (stands : significant (tokenize source) =
      before ++ previous :: (entry.lexemes ++ next :: after))
    (isPrevious : previous.token.kind = .leftBrace ∨ previous.token.kind = .comma)
    (isNext : next.token.kind = .comma ∨ next.token.kind = .rightBrace) :
    let findings := readInitializer tiers source
    let slot := Slot.behind (before ++ [previous])
    (slot = .start ∧ entry.outcome tiers entry.span ∈ findings ∧
        ¬ Reported findings previous.span) ∨
      (slot = .filled ∧ previous.token.kind = .comma ∧ Barren before ∧
        Reported findings previous.span ∧ ¬ Reported findings entry.span) := by
  have delimited : next.token.kind.isDelimiter = true := by
    rcases isNext with isComma | isClosing
    · rw [isComma]
      rfl
    · rw [isClosing]
      rfl
  obtain ⟨front, opens, same, inside⟩ :=
    Initializer.front_inside (by simp) (braced.symm.trans stands)
  -- Inside the list there are no braces, so a token in front of the entry is a comma there.
  have comma : front ≠ [] → previous.token.kind = .comma := by
    intro nonempty
    have member := List.mem_of_getLast? (Initializer.front_last opens nonempty).1
    exact isPrevious.resolve_left (unbraced previous (inside previous member)).1
  have closed : ∀ word ∈ front.getLast?, word.token.kind = .comma := by
    intro word isLast
    have nonempty : front ≠ [] := List.ne_nil_of_mem (List.mem_of_getLast? isLast)
    rw [(Initializer.front_last opens nonempty).1] at isLast
    cases isLast
    exact comma nonempty
  have recovers := Initializer.elements_recovers tiers entry next after delimited front [opening]
    (fun word member => (unbraced word (inside word member)).2) closed
    ⟨[], opening, rfl, .inl isOpening⟩
  have position : ([opening] ++ front).length = before.length + 1 := by
    rw [List.singleton_append, ← opens, List.length_append, List.length_singleton]
  rw [Initializer.readInitializer_braced tiers braced isOpening, same, Slot.behind, opens,
    List.tail_cons]
  rcases recovers with ⟨starts, treated⟩ | ⟨nonempty, filled, barren, lost⟩
  · left
    rw [position] at treated
    exact ⟨starts, treated.located tiers stands⟩
  · right
    rw [position] at lost
    rw [List.singleton_append, ← (Initializer.front_last opens nonempty).2] at barren
    exact ⟨filled, comma nonempty, barren, lost.located stands⟩

/-- Neither the fault of an element nor a stray token behind it keeps the next entry from
being found. -/
theorem entry_found_behind_faults :
    let entry := Entry.plain ⟨⟨.int, ['2']⟩, ⟨8, 9⟩⟩ (by decide)
    entry.outcome .standard entry.span ∈ readInitializer .standard "\x7b'ab' 7,2\x7d" ∧
      diagnostics (readInitializer .standard "\x7b'ab' 7,2\x7d") =
        [(⟨1, 5⟩, .escape (.multiCharacter 2))] := by
  intro entry
  have words : significant (tokenize "\x7b'ab' 7,2\x7d") =
      [⟨⟨.leftBrace, ['\x7b']⟩, ⟨0, 1⟩⟩, ⟨⟨.char, ['\'', 'a', 'b', '\'']⟩, ⟨1, 5⟩⟩,
        ⟨⟨.int, ['7']⟩, ⟨6, 7⟩⟩, ⟨⟨.comma, [',']⟩, ⟨7, 8⟩⟩, ⟨⟨.int, ['2']⟩, ⟨8, 9⟩⟩,
        ⟨⟨.rightBrace, ['\x7d']⟩, ⟨9, 10⟩⟩] := by decide +kernel
  have outcome := entry_found_or_lost .standard "\x7b'ab' 7,2\x7d" _ _
    [_, _, _, _] words rfl (by decide) [_, _, _] [] _ _ entry words (.inr rfl) (.inr rfl)
  refine ⟨?_, by decide +kernel⟩
  rcases outcome with ⟨_, found, _⟩ | ⟨filled, _⟩
  · exact found
  · cases filled

/-- The first comma is taken for an element, and what stands up to the next delimiter
is passed over, so the number is neither a constant nor reported. -/
theorem entry_lost_behind_comma :
    let entry := Entry.plain ⟨⟨.int, ['1']⟩, ⟨2, 3⟩⟩ (by decide)
    significant (tokenize "\x7b,1\x7d") =
        [⟨⟨.leftBrace, ['\x7b']⟩, ⟨0, 1⟩⟩, ⟨⟨.comma, [',']⟩, ⟨1, 2⟩⟩] ++
          (entry.lexemes ++ [⟨⟨.rightBrace, ['\x7d']⟩, ⟨3, 4⟩⟩]) ∧
      ¬ Reported (readInitializer .standard "\x7b,1\x7d") entry.span := by
  intro entry
  refine ⟨by decide +kernel, ?_⟩
  have constants : constants (readInitializer .standard "\x7b,1\x7d") = [] := by decide +kernel
  have diagnostics : diagnostics (readInitializer .standard "\x7b,1\x7d") =
      [(⟨1, 2⟩, .noConstant .comma)] := by decide +kernel
  simp [Reported, constants, diagnostics, entry, Entry.span]

end TypedLiteral

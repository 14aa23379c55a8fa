import Mathlib.Data.List.Pairwise
import TypedLiteral.Proofs.Accounting
import TypedLiteral.Proofs.Layout

/-!
What is reported is in order and apart. A reader never goes back: whatever it reports is
behind all that it reported before, and what stays behind a misplaced sign or a missed
comma is passed without a report. So the places follow each other as the findings do, and
the spans of the source follow each other as the places do.
-/
namespace TypedLiteral

section Precedence

variable {Where Elsewhere : Type} {before : Where → Where → Prop} {place : Where}
variable {findings : List (Finding Where)} {finding : Finding Where}

theorem reported_of_mem (member : finding ∈ findings) (reported : Reported [finding] place) :
    Reported findings place := by
  obtain ⟨front, rest, rfl⟩ := List.append_of_mem member
  rw [← List.singleton_append, reported_append, reported_append]
  exact .inr (.inl reported)

theorem reported_of_constant {found : Where × Constant}
    (isConstant : finding.constant? = some found) :
    Reported [finding] found.1 :=
  .inl ⟨found.2, List.mem_filterMap.mpr ⟨finding, List.mem_singleton_self _, isConstant⟩⟩

theorem reported_of_diagnostic {found : Where × Cause}
    (isDiagnostic : finding.diagnostic? = some found) : Reported [finding] found.1 :=
  .inr ⟨found.2, List.mem_filterMap.mpr ⟨finding, List.mem_singleton_self _, isDiagnostic⟩⟩

def Finding.Precedes (before : Where → Where → Prop) (first second : Finding Where) : Prop :=
  ∀ place next, Reported [first] place → Reported [second] next → before place next

variable (ordered : findings.Pairwise (Finding.Precedes before))
include ordered

theorem constants_ordered :
    (constants findings).Pairwise fun one other => before one.1 other.1 := by
  apply List.pairwise_filterMap.mpr
  apply ordered.imp
  intro first second precedes one isFirst other isSecond
  exact precedes _ _ (reported_of_constant isFirst) (reported_of_constant isSecond)

theorem diagnostics_ordered :
    (diagnostics findings).Pairwise fun one other => before one.1 other.1 := by
  apply List.pairwise_filterMap.mpr
  apply ordered.imp
  intro first second precedes one isFirst other isSecond
  exact precedes _ _ (reported_of_diagnostic isFirst) (reported_of_diagnostic isSecond)

theorem constant_apart {constant : Where × Constant} {diagnostic : Where × Cause}
    (isConstant : constant ∈ constants findings)
    (isDiagnostic : diagnostic ∈ diagnostics findings) :
    before constant.1 diagnostic.1 ∨ before diagnostic.1 constant.1 := by
  obtain ⟨first, inFindings, isFirst⟩ := List.mem_filterMap.mp isConstant
  obtain ⟨second, alsoIn, isSecond⟩ := List.mem_filterMap.mp isDiagnostic
  have different : first ≠ second := by
    rintro rfl
    cases first <;> simp [Finding.constant?, Finding.diagnostic?] at isFirst isSecond
  have reportsFirst := reported_of_constant isFirst
  have reportsSecond := reported_of_diagnostic isSecond
  have symmetric : Std.Symm fun first second : Finding Where =>
      first.Precedes before second ∨ second.Precedes before first := ⟨fun _ _ => Or.symm⟩
  have either : findings.Pairwise fun first second =>
      first.Precedes before second ∨ second.Precedes before first := ordered.imp Or.inl
  rcases either.forall inFindings alsoIn different with precedes | follows
  · exact .inl (precedes _ _ reportsFirst reportsSecond)
  · exact .inr (follows _ _ reportsSecond reportsFirst)

theorem move_ordered {after : Elsewhere → Elsewhere → Prop} {target : Where → Elsewhere}
    (kept : ∀ place next, Reported findings place → Reported findings next → before place next →
      after (target place) (target next)) :
    (findings.map (Finding.move target)).Pairwise (Finding.Precedes after) := by
  apply List.pairwise_map.mpr
  apply ordered.imp_of_mem
  intro first second inFindings alsoIn precedes span next reported also
  obtain ⟨here, reportsHere, rfl⟩ := reported_move.mp (List.map_singleton ▸ reported)
  obtain ⟨there, reportsThere, rfl⟩ := reported_move.mp (List.map_singleton ▸ also)
  exact kept here there (reported_of_mem inFindings reportsHere)
    (reported_of_mem alsoIn reportsThere)
    (precedes here there reportsHere reportsThere)

end Precedence

/-- A place ends where or before another one begins. -/
def Place.Before (place next : Place) : Prop := place.past ≤ next.first

namespace Initializer

/-- What is reported is between two indices, each place behind the ones before it. -/
structure Ordered (low high : Nat) (findings : List (Finding Place)) : Prop where
  upTo : low ≤ high
  bounds : ∀ place, Reported findings place → low ≤ place.first ∧ place.past ≤ high
  pairwise : findings.Pairwise (Finding.Precedes Place.Before)

variable {tiers : TierTable} {low middle high index : Nat}
variable {findings own later : List (Finding Place)}

theorem Ordered.append (first : Ordered low middle own) (last : Ordered middle high later) :
    Ordered low high (own ++ later) where
  upTo := Nat.le_trans first.upTo last.upTo
  bounds := by
    intro place reported
    rcases reported_append.mp reported with before | behind
    · have inside := first.bounds place before
      exact ⟨inside.1, Nat.le_trans inside.2 last.upTo⟩
    · have inside := last.bounds place behind
      exact ⟨Nat.le_trans first.upTo inside.1, inside.2⟩
  pairwise := by
    refine List.pairwise_append.mpr ⟨first.pairwise, last.pairwise, ?_⟩
    intro finding isFirst other isLast place next reported also
    have upper := (first.bounds place (reported_of_mem isFirst reported)).2
    have lower := (last.bounds next (reported_of_mem isLast also)).1
    exact Nat.le_trans upper lower

theorem Ordered.silent (upTo : low ≤ high) (silent : ∀ place, ¬ Reported findings place) :
    Ordered low high findings where
  upTo := upTo
  bounds := fun place reported => absurd reported (silent place)
  pairwise := by
    apply List.pairwise_of_forall_mem_list
    intro finding isFirst other _ place _ reported _
    exact absurd (reported_of_mem isFirst reported) (silent place)

theorem Ordered.one {finding : Finding Place} (upTo : low ≤ high)
    (bounds : ∀ place, Reported [finding] place → low ≤ place.first ∧ place.past ≤ high) :
    Ordered low high [finding] :=
  ⟨upTo, bounds, List.pairwise_singleton _ _⟩

theorem Ordered.diagnostic {place : Place} (cause : Cause) (upTo : low ≤ high)
    (lower : low ≤ place.first) (upper : place.past ≤ high) :
    Ordered low high [.diagnostic place cause] := by
  apply Ordered.one upTo
  intro other reported
  rw [(reported_diagnostic cause).mp reported]
  exact ⟨lower, upper⟩

theorem takes_first {element : Element} {taken rest : List Lexeme}
    (takes : element.Takes tiers index taken rest) : index ≤ element.place.first := by
  cases takes with
  | entry entry rest => rw [Entry.element_place]
  | stray => exact Nat.le_refl index
  | misplaced | alone => exact Nat.le_succ index

theorem ordered_takes {element : Element} {taken rest : List Lexeme}
    (takes : element.Takes tiers index taken rest) :
    Ordered index (index + taken.length) element.findings := by
  have events : Ordered index index (element.events.map .event) :=
    .silent (Nat.le_refl index) fun _ => not_reported_events _
  apply events.append
  apply Ordered.one (Nat.le_add_right index _)
  intro place reported
  have own : Reported element.findings place := reported_append.mpr (.inr reported)
  rw [reported_element.mp own]
  exact ⟨takes_first takes, Nat.le_of_eq takes.past⟩

theorem ordered_missingComma (accepted : Bool) (index : Nat) (run : List Lexeme)
    {rest : List Lexeme} (outside : ∀ word ∈ rest.head?, isInside word.token = false) :
    Ordered index (index + run.length)
      (missingComma accepted index ((run ++ rest).map Lexeme.token)) := by
  have upTo := Nat.le_add_right index run.length
  cases run with
  | nil =>
      -- The next token is a delimiter then, and no comma is missed.
      apply Ordered.silent upTo
      intro place reported
      obtain ⟨_, token, isFirst, inside⟩ := reported_missingComma reported
      rw [List.nil_append, List.head?_map] at isFirst
      obtain ⟨word, isWord, rfl⟩ := Option.map_eq_some_iff.mp isFirst
      rw [outside word isWord] at inside
      cases inside
  | cons word run =>
      rw [List.cons_append, List.map_cons, missingComma]
      split
      · exact .diagnostic _ upTo (Nat.le_refl index)
          (Nat.add_le_add_left (Nat.succ_le_succ (Nat.zero_le _)) index)
      · exact .silent upTo fun _ => reported_nil

theorem ordered_unexpected (index : Nat) (tokens : List Token) :
    Ordered index (index + tokens.length) (unexpected index tokens) := by
  induction tokens generalizing index with
  | nil => exact .silent (Nat.le_refl index) fun _ => reported_nil
  | cons token rest ih =>
      have here :
          Ordered index (index + 1) [.diagnostic ⟨index, index + 1⟩ (.unexpected token.kind)] :=
        .diagnostic _ (Nat.le_succ index) (Nat.le_refl index) (Nat.le_refl (index + 1))
      have ends : index + (token :: rest).length = index + 1 + rest.length := by
        rw [List.length_cons]
        omega
      rw [ends]
      exact here.append (ih (index + 1))

theorem Passed.outside {passed further : List Lexeme} (passes : Passed passed further) :
    ∀ word ∈ (passed ++ further).head?, isInside word.token = false := by
  cases passes with
  | comma comma further isComma => simp [isInside, isComma, Kind.isDelimiter]
  | nothing further ends =>
      intro word isFirst
      rw [isInside, ends word isFirst]
      rfl

theorem ordered_listing {words : List Lexeme} (listing : Listing tiers index words findings) :
    Ordered index (index + words.length) findings := by
  -- A step ends at a delimiter, so the token at which a comma is missed is behind it.
  induction listing with
  | unclosed index =>
      exact .diagnostic _ (Nat.le_refl index) (Nat.le_refl index) (Nat.le_refl index)
  | closed index closing rest isClosing =>
      have brace : Ordered index (index + 1) [] := .silent (Nat.le_succ index) fun _ => reported_nil
      have behind := brace.append (ordered_unexpected (index + 1) (rest.map Lexeme.token))
      rwa [List.length_map, Nat.add_assoc, Nat.add_comm 1] at behind
  | element index element taken run passed further later goesOn takes inside passes listing ih =>
      have missed := ordered_missingComma element.accepted (index + taken.length) run passes.outside
      have skips : Ordered (index + taken.length + run.length)
          (index + taken.length + run.length + passed.length)
          (skipped (index + taken.length) (run.map Lexeme.token)) :=
        .silent (Nat.le_add_right _ _) fun _ => not_reported_skipped
      have whole := (ordered_takes takes).append (missed.append (skips.append ih))
      simpa only [List.length_append, Nat.add_assoc] using whole

theorem ordered_single (words : List Lexeme) :
    Ordered 0 words.length (single tiers (words.map Lexeme.token)) := by
  cases words with
  | nil => exact .diagnostic _ (Nat.le_refl 0) (Nat.le_refl 0) (Nat.le_refl 0)
  | cons word words =>
      obtain ⟨element, taken, rest, same, read, takes⟩ := Element.read_takes tiers 0 word words
      have behind := ordered_unexpected (0 + taken.length) (rest.map Lexeme.token)
      rw [single, read, same]
      simp only [takes.past]
      simpa using (ordered_takes takes).append behind

theorem ordered_read (words : List Lexeme) :
    Ordered 0 words.length (read tiers (words.map Lexeme.token)) := by
  cases words with
  | nil => exact ordered_single []
  | cons word words =>
      rw [List.map_cons, read]
      split
      · have brace : Ordered 0 1 [] := .silent (Nat.le_succ 0) fun _ => reported_nil
        have list := brace.append (ordered_listing (elements_listing tiers 1 words))
        rwa [Nat.add_comm 1] at list
      · exact ordered_single (word :: words)

end Initializer

def Span.Before (span next : Span) : Prop := span.stop ≤ next.start

/-- A span that is cut out of the source between characters of it. -/
def Span.Cut (source : String) (span : Span) : Prop :=
  ∃ front text rest, source.toList = front ++ (text ++ rest) ∧
    span = ⟨Utf8.size front, Utf8.size (front ++ text)⟩

theorem Utf8.prefix_of_size {text first second : List Char} (isFirst : first <+: text)
    (isSecond : second <+: text) (upTo : size first ≤ size second) : first <+: second := by
  rcases List.prefix_or_prefix_of_prefix isFirst isSecond with shorter | ⟨more, rfl⟩
  · exact shorter
  · cases more with
    | nil => rw [List.append_nil]
    | cons c more =>
        have positive := size_pos (List.cons_ne_nil c more)
        rw [size_append] at upTo
        omega

section Spans

variable {source : String} {place next : Place} {first last : Nat} {span : Span}

def Place.spanIn (source : String) (place : Place) : Span :=
  place.span (significant (tokenize source)) (Utf8.size source.toList)

theorem Span.Covers.cut (covers : span.Covers source first last) (ordered : first ≤ last) :
    span.Cut source := by
  obtain ⟨begins, ends, isFirst, isLast, rfl⟩ := covers
  have inFirst := (List.mem_filter.mp (List.mem_of_getElem? isFirst)).1
  have inLast := (List.mem_filter.mp (List.mem_of_getElem? isLast)).1
  obtain ⟨front, after, tiled, spanFirst, _⟩ := head_of_mem inFirst
  obtain ⟨before, rest, also, spanLast, _⟩ := head_of_mem inLast
  have starts := (significant_monotone isFirst isLast ordered).1
  have long := (significant_bounds (List.mem_of_getElem? isLast)).1
  have upTo : Utf8.size front ≤ Utf8.size (before ++ ends.token.text) := by
    have upToStop := Nat.le_trans starts (Nat.le_of_lt long)
    rwa [spanFirst, spanLast] at upToStop
  rw [← List.append_assoc] at also
  obtain ⟨text, same⟩ := Utf8.prefix_of_size ⟨_, tiled.symm⟩ ⟨_, also.symm⟩ upTo
  refine ⟨front, text, rest, ?_, ?_⟩
  · rw [also, ← same, List.append_assoc]
  · rw [spanFirst, spanLast, same]

theorem Span.Covers.nonempty (covers : span.Covers source first last) (ordered : first ≤ last) :
    span.start < span.stop := by
  obtain ⟨begins, ends, isFirst, isLast, rfl⟩ := covers
  have starts := (significant_monotone isFirst isLast ordered).1
  have long := (significant_bounds (List.mem_of_getElem? isLast)).1
  exact Nat.lt_of_le_of_lt starts long

theorem Span.cut_ending (source : String) : (Span.ending source).Cut source :=
  ⟨source.toList, [], [], by simp, by simp [Span.ending]⟩

theorem Place.Proper.spanIn_cases (proper : place.Proper (significant (tokenize source)).length) :
    (place.spanIn source).Cut source ∧
      ((place.spanIn source).start < (place.spanIn source).stop ∨
        place.spanIn source = Span.ending source) := by
  cases proper with
  | tokens first past nonempty bounded =>
      have covers := Place.covers_span nonempty bounded
      have ordered := Nat.le_sub_one_of_lt nonempty
      exact ⟨covers.cut ordered, .inl (covers.nonempty ordered)⟩
  | ending =>
      rw [Place.spanIn, Place.span_ending]
      exact ⟨Span.cut_ending source, .inr rfl⟩

theorem Place.spanIn_nonempty (proper : place.Proper (significant (tokenize source)).length)
    (nonempty : place.first < place.past) :
    (place.spanIn source).start < (place.spanIn source).stop := by
  cases proper with
  | tokens first past _ bounded =>
      exact (Place.covers_span nonempty bounded).nonempty (Nat.le_sub_one_of_lt nonempty)
  | ending => exact absurd nonempty (Nat.lt_irrefl _)

theorem Place.Before.spanIn (before : place.Before next)
    (proper : place.Proper (significant (tokenize source)).length)
    (properNext : next.Proper (significant (tokenize source)).length) :
    (place.spanIn source).Before (next.spanIn source) := by
  cases proper with
  | tokens first past nonempty bounded =>
      obtain ⟨_, ends, _, isLast, span⟩ := Place.covers_span nonempty bounded
      rw [Span.Before, Place.spanIn, span]
      cases properNext with
      | tokens start stop nonemptyNext boundedNext =>
          obtain ⟨begins, _, isFirst, _, spanNext⟩ := Place.covers_span nonemptyNext boundedNext
          rw [Place.spanIn, spanNext]
          apply significant_before isLast isFirst
          exact Nat.lt_of_lt_of_le (Nat.sub_one_lt_of_lt nonempty) before
      | ending =>
          rw [Place.spanIn, Place.span_ending]
          exact (significant_bounds (List.mem_of_getElem? isLast)).2
  | ending =>
      -- Nothing but the end is behind the end.
      cases properNext with
      | tokens start stop nonemptyNext boundedNext =>
          have behind : (significant (tokenize source)).length ≤ start := before
          omega
      | ending =>
          rw [Span.Before, Place.spanIn, Place.span_ending]
          exact Nat.le_refl _

variable (tiers : TierTable)

/-- The findings of a reader of lists are in order in the source. -/
theorem readInitializer_ordered (source : String) :
    (readInitializer tiers source).Pairwise (Finding.Precedes Span.Before) := by
  apply move_ordered (Initializer.ordered_read (significant (tokenize source))).pairwise
  intro place next reported also before
  exact before.spanIn (Initializer.read_proper reported) (Initializer.read_proper also)

theorem span_of_reported (reported : Reported (readInitializer tiers source) span) :
    span.Cut source ∧ (span.start < span.stop ∨ span = Span.ending source) := by
  obtain ⟨place, found, rfl⟩ := reported_move.mp reported
  exact (Initializer.read_proper found).spanIn_cases

theorem constant_nonempty {found : Span × Constant}
    (member : found ∈ constants (readInitializer tiers source)) : found.1.start < found.1.stop := by
  rw [readInitializer, findingsIn, constants_move] at member
  obtain ⟨placed, isPlaced, rfl⟩ := List.mem_map.mp member
  have stands := ((Initializer.accounts_steps tiers).read _).stands placed isPlaced
  obtain ⟨before, entry, after, _, place, _⟩ := stands
  apply Place.spanIn_nonempty (Initializer.read_proper (.inl ⟨_, isPlaced⟩))
  rw [place]
  exact Nat.lt_add_of_pos_right entry.lexemes_pos

end Spans

/-- Constants are not empty and follow each other, diagnostics are reported in the order
of their starts, and no diagnostic overlaps a constant. Every span is cut out of the
source between characters, and only the end of the source is an empty one. -/
theorem spans_separate (tiers : TierTable) (source : String) :
    let findings := readInitializer tiers source
    (∀ found ∈ constants findings, found.1.start < found.1.stop) ∧
    ((constants findings).Pairwise fun one other =>
      one.1.start < other.1.start ∧ one.1.stop ≤ other.1.start) ∧
    ((diagnostics findings).Pairwise fun one other => one.1.start ≤ other.1.start) ∧
    (∀ constant ∈ constants findings, ∀ diagnostic ∈ diagnostics findings,
      constant.1.stop ≤ diagnostic.1.start ∨ diagnostic.1.stop ≤ constant.1.start) ∧
    ∀ span, Reported findings span →
      span.Cut source ∧ (span.start < span.stop ∨ span = Span.ending source) := by
  intro findings
  have ordered := readInitializer_ordered tiers source
  have nonempty : ∀ found ∈ constants findings, found.1.start < found.1.stop :=
    fun found => constant_nonempty tiers
  have reported : ∀ span, Reported findings span →
      span.Cut source ∧ (span.start < span.stop ∨ span = Span.ending source) :=
    fun span => span_of_reported tiers
  refine ⟨nonempty, ?_, ?_, ?_, reported⟩
  · apply (constants_ordered ordered).imp_of_mem
    intro one other isFirst _ before
    exact ⟨Nat.lt_of_lt_of_le (nonempty one isFirst) before, before⟩
  · apply (diagnostics_ordered ordered).imp_of_mem
    intro one other isFirst _ before
    have upTo : one.1.start ≤ one.1.stop := by
      rcases (reported one.1 (.inr ⟨one.2, isFirst⟩)).2 with long | ending
      · exact Nat.le_of_lt long
      · rw [ending, Span.ending]
    exact Nat.le_trans upTo before
  · exact fun constant isConstant diagnostic => constant_apart ordered isConstant

/-- A list with a missing comma, a misplaced sign, and a sign in place of its end. -/
theorem spans_separate_broken_list :
    let source := "\x7b1 2,-é,3,- "
    let findings := readInitializer .standard source
    (constants findings).map Prod.fst = [⟨1, 2⟩, ⟨9, 10⟩] ∧
      (diagnostics findings).map Prod.fst = [⟨3, 4⟩, ⟨6, 8⟩, ⟨13, 13⟩, ⟨13, 13⟩] ∧
      ((constants findings).Pairwise fun one other =>
        one.1.start < other.1.start ∧ one.1.stop ≤ other.1.start) ∧
      ((diagnostics findings).Pairwise fun one other => one.1.start ≤ other.1.start) ∧
      Span.Cut source ⟨6, 8⟩ := by
  intro source findings
  obtain ⟨_, apart, sorted, _, spans⟩ := spans_separate .standard source
  have misplaced : (⟨6, 8⟩, .misplacedSign) ∈ diagnostics findings := by decide +kernel
  have cut := (spans ⟨6, 8⟩ (.inr ⟨_, misplaced⟩)).1
  exact ⟨by decide +kernel, by decide +kernel, apart, sorted, cut⟩

end TypedLiteral

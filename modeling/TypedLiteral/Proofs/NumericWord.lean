import TypedLiteral.Proofs.Causes
import TypedLiteral.Proofs.Excerpt
import TypedLiteral.Proofs.FloatLiteral
import TypedLiteral.Proofs.IntegerLiteral
import TypedLiteral.Proofs.Span

/-!
The words of numbers are what evaluation needs. The two descriptions of a number, the
patterns of the lexicon and the cutting of a text at its mark or its point, agree on
every word: an integer is cut into digits of the base that its form names, and a float
at its only point into decimal digits. So no precondition of evaluation is ever broken.
-/
namespace TypedLiteral

namespace Base

variable {base : Base} {c : Char} {value : Nat} {digits : List Char}

theorem isDigit_of_known (known : digitValue? c.toNat = some value) (small : value < base.radix) :
    base.IsDigit c :=
  ⟨value, (base.mark_iff c value).mpr ⟨known, small⟩⟩

theorem not_isDigit (foreign : digitValue? c.toNat = none) : ¬ base.IsDigit c := by
  rintro ⟨value, isMark⟩
  have known := ((base.mark_iff c value).mp isMark).1
  rw [foreign] at known
  cases known

theorem octal_low (digit : Base.octal.IsDigit c) : c.toNat ≤ 55 := by
  obtain ⟨value, isMark⟩ := digit
  obtain ⟨known, small⟩ := (Base.mark_iff _ _ _).mp isMark
  simp only [radix] at small
  rcases digitValue_cases known with decimal | capital | lower
  · omega
  · omega
  · omega

theorem digit_bytes (all : ∀ c ∈ digits, base.IsDigit c) :
    ∀ byte ∈ Utf8.bytes digits, (base.digit? byte).isSome = true := by
  intro byte member
  obtain ⟨c, isDigit, inBytes⟩ := List.mem_flatMap.mp member
  obtain ⟨value, bounded, marked⟩ := all c isDigit
  obtain ⟨single, known⟩ := mark_byte value c (Nat.lt_of_lt_of_le bounded base.radix_le) marked
  rw [single] at inBytes
  obtain rfl := List.mem_singleton.mp inBytes
  rw [digit?, known]
  simp [Option.filter, bounded]

end Base

namespace Lexicon

variable {c : Char} {base : Base} {digits word : List Char}

theorem DecimalMark.isDigit (mark : DecimalMark c) : Base.decimal.IsDigit c := by
  have low : 48 ≤ c.toNat := mark.1
  have high : c.toNat ≤ 57 := mark.2
  apply Base.isDigit_of_known (by rw [digitValue?, if_pos ⟨low, high⟩])
  simp only [Base.radix]
  omega

theorem OctalMark.isDigit (mark : OctalMark c) : Base.octal.IsDigit c := by
  have low : 48 ≤ c.toNat := mark.1
  have high : c.toNat ≤ 55 := mark.2
  apply Base.isDigit_of_known (by rw [digitValue?, if_pos (by omega)])
  simp only [Base.radix]
  omega

theorem HexMark.isDigit (mark : HexMark c) : Base.hex.IsDigit c := by
  rcases mark with decimal | small | capital
  · obtain ⟨value, bounded, marked⟩ := decimal.isDigit
    exact ⟨value, Nat.lt_trans bounded (by decide), marked⟩
  · have low : 97 ≤ c.toNat := small.1
    have high : c.toNat ≤ 102 := small.2
    apply Base.isDigit_of_known
      (by rw [digitValue?, if_neg (by omega), if_neg (by omega), if_pos ⟨low, high⟩])
    simp only [Base.radix]
    omega
  · have low : 65 ≤ c.toNat := capital.1
    have high : c.toNat ≤ 70 := capital.2
    apply Base.isDigit_of_known (by rw [digitValue?, if_neg (by omega), if_pos ⟨low, high⟩])
    simp only [Base.radix]
    omega

theorem binary_isDigit (mark : c ∈ ['0', '1']) : Base.binary.IsDigit c := by
  simp only [List.mem_cons, List.not_mem_nil, or_false] at mark
  rcases mark with rfl | rfl
  · exact ⟨0, by decide, .inl rfl⟩
  · exact ⟨1, by decide, .inl rfl⟩

/-- The forms of integers, with the base that a form names and its digits. -/
inductive IntegerWord : Base → List Char → List Char → Prop where
  | hex (mark : Char) (digits : List Char) (marked : mark = 'x' ∨ mark = 'X')
      (nonempty : digits ≠ []) (all : ∀ c ∈ digits, Base.hex.IsDigit c) :
      IntegerWord .hex digits ('0' :: mark :: digits)
  | binary (mark : Char) (digits : List Char) (marked : mark = 'b' ∨ mark = 'B')
      (nonempty : digits ≠ []) (all : ∀ c ∈ digits, Base.binary.IsDigit c) :
      IntegerWord .binary digits ('0' :: mark :: digits)
  | octal (first : Char) (digits : List Char) (all : ∀ c ∈ first :: digits, Base.octal.IsDigit c) :
      IntegerWord .octal ('0' :: first :: digits) ('0' :: first :: digits)
  | zero : IntegerWord .decimal ['0'] ['0']
  | decimal (first : Char) (digits : List Char) (positive : first ≠ '0')
      (all : ∀ c ∈ first :: digits, Base.decimal.IsDigit c) :
      IntegerWord .decimal (first :: digits) (first :: digits)

theorem integerWord_of_matches (matched : int.Matches word) :
    ∃ base digits, IntegerWord base digits word := by
  simp only [int, Pattern.matches_alt, matches_hexInt, matches_binaryInt, matches_octalInt,
    matches_decimalInt] at matched
  rcases matched with ⟨mark, digits, rfl, marked, nonempty, all⟩ |
    ⟨mark, digits, rfl, marked, nonempty, all⟩ | ⟨digits, rfl, all⟩ |
    ⟨first, digits, rfl, ⟨low, high⟩, all⟩
  · exact ⟨_, _, .hex mark digits (by simpa using marked) nonempty fun c member =>
      (all c member).isDigit⟩
  · exact ⟨_, _, .binary mark digits (by simpa using marked) nonempty fun c member =>
      binary_isDigit (all c member)⟩
  · cases digits with
    | nil => exact ⟨_, _, .zero⟩
    | cons first digits => exact ⟨_, _, .octal first digits fun c member => (all c member).isDigit⟩
  · have mark : DecimalMark first := ⟨Char.le_trans (by decide) low, high⟩
    have positive : first ≠ '0' := by
      rintro rfl
      exact absurd low (by decide)
    have digit : ∀ c ∈ first :: digits, Base.decimal.IsDigit c :=
      fun c member => (List.forall_mem_cons.mpr ⟨mark, all⟩ c member).isDigit
    exact ⟨_, _, .decimal first digits positive digit⟩

namespace IntegerWord

theorem nonempty (isWord : IntegerWord base digits word) : digits ≠ [] := by
  cases isWord with
  | hex mark digits marked nonempty all => exact nonempty
  | binary mark digits marked nonempty all => exact nonempty
  | octal | zero | decimal => exact List.cons_ne_nil _ _

theorem all (isWord : IntegerWord base digits word) : ∀ c ∈ digits, base.IsDigit c := by
  have zero : ∀ base : Base, base.IsDigit '0' :=
    fun base => ⟨0, by cases base <;> decide, .inl rfl⟩
  cases isWord with
  | hex mark digits marked nonempty all => exact all
  | binary mark digits marked nonempty all => exact all
  | octal first digits all => exact List.forall_mem_cons.mpr ⟨zero _, all⟩
  | zero => simpa using zero _
  | decimal first digits positive all => exact all

theorem split (isWord : IntegerWord base digits word) : Base.split word = (base, digits) := by
  cases isWord with
  | hex mark digits marked nonempty all => rcases marked with rfl | rfl <;> rfl
  | binary mark digits marked nonempty all => rcases marked with rfl | rfl <;> rfl
  | octal first digits all =>
      -- The first octal digit is none of the marks, so the text is taken as a whole.
      have low := Base.octal_low (all first List.mem_cons_self)
      have unmarked : ∀ mark : Char, 55 < mark.toNat → first ≠ mark := by
        rintro mark high rfl
        omega
      have notHex := unmarked 'x' (by decide)
      have notCapitalHex := unmarked 'X' (by decide)
      have notBinary := unmarked 'b' (by decide)
      have notCapitalBinary := unmarked 'B' (by decide)
      unfold Base.split
      split <;> simp_all
  | zero => rfl
  | decimal first digits positive all =>
      unfold Base.split
      split <;> simp_all

theorem pointless (isWord : IntegerWord base digits word) : '.' ∉ word := by
  have absent : '.' ∉ digits := not_mem_of_all isWord.all (Base.not_isDigit rfl)
  cases isWord with
  | hex mark digits marked nonempty all => rcases marked with rfl | rfl <;> simpa using absent
  | binary mark digits marked nonempty all => rcases marked with rfl | rfl <;> simpa using absent
  | octal | zero | decimal => exact absent

end IntegerWord

/-- A float has one point, with decimal digits around it. -/
structure FloatWord (whole part word : List Char) : Prop where
  cut : word = whole ++ '.' :: part
  nonempty : whole ++ part ≠ []
  all : ∀ c ∈ whole ++ part, Base.decimal.IsDigit c

theorem floatWord_of_matches (matched : float.Matches word) :
    ∃ whole part, FloatWord whole part word := by
  obtain ⟨whole, part, cut, nonempty, all, later⟩ := matches_float.mp matched
  refine ⟨whole, part, cut, ?_, ?_⟩
  · simpa [or_iff_not_imp_left] using nonempty
  · intro c member
    rcases List.mem_append.mp member with before | behind
    · exact (all c before).isDigit
    · exact (later c behind).isDigit

end Lexicon

namespace NumberLiteral

variable {whole part word : List Char} {base : Base} {digits : List Char}

theorem splitPoint_none (pointless : '.' ∉ word) : splitPoint word = none := by
  induction word with
  | nil => rfl
  | cons c rest ih =>
      obtain ⟨different, later⟩ := not_or.mp (mt List.mem_cons.mpr pointless)
      rw [splitPoint, if_neg (Ne.symm different), ih later, Option.map_none]

theorem splitPoint_point (pointless : '.' ∉ whole) :
    splitPoint (whole ++ '.' :: part) = some (whole, part) := by
  induction whole with
  | nil => rw [List.nil_append, splitPoint, if_pos rfl]
  | cons c rest ih =>
      obtain ⟨different, later⟩ := not_or.mp (mt List.mem_cons.mpr pointless)
      rw [List.cons_append, splitPoint, if_neg (Ne.symm different), ih later, Option.map_some]

variable (sign : Sign) (tiers : TierTable) (violation : Violation)

theorem ofText_integer (isWord : Lexicon.IntegerWord base digits word) :
    ofText sign word = .integer ⟨sign, base, digits⟩ := by
  rw [ofText, splitPoint_none isWord.pointless, isWord.split]

theorem ofText_float (isWord : Lexicon.FloatWord whole part word) :
    ofText sign word = .float ⟨sign, whole, part⟩ := by
  have pointless : '.' ∉ whole := by
    intro member
    exact Base.not_isDigit rfl (isWord.all '.' (List.mem_append_left _ member))
  rw [ofText, isWord.cut, splitPoint_point pointless]

theorem integer_kept (isWord : Lexicon.IntegerWord base digits word) :
    (ofText sign word).evaluate tiers ≠ .error (.broken violation) := by
  obtain ⟨values, spelled⟩ := base.spells_of_digits digits isWord.all
  rw [ofText_integer sign isWord, evaluate,
    IntegerLiteral.evaluate_spelled ⟨sign, base, digits⟩ tiers values spelled]
  split <;> simp [Except.map]

theorem float_kept (isWord : Lexicon.FloatWord whole part word) :
    (ofText sign word).evaluate tiers ≠ .error (.broken violation) := by
  obtain ⟨wholeValues, spelledWhole⟩ := Base.decimal.spells_of_digits whole
    fun c member => isWord.all c (List.mem_append_left _ member)
  obtain ⟨partValues, spelledPart⟩ := Base.decimal.spells_of_digits part
    fun c member => isWord.all c (List.mem_append_right _ member)
  obtain ⟨double, single, outcome⟩ := @FloatLiteral.outcome_of_spelled ⟨sign, whole, part⟩ _ _
    spelledWhole spelledPart
  rw [ofText_float sign isWord, evaluate, outcome.evaluated]
  simp [Except.map, Except.mapError]

end NumberLiteral

namespace Lexicon

variable {word : List Char}

theorem isWord_int (isWord : IsWord .int word) : ∃ base digits, IntegerWord base digits word := by
  obtain ⟨pattern, rule, matched⟩ := isWord
  obtain rfl : pattern = int := by simpa [rules] using rule
  exact integerWord_of_matches matched

theorem isWord_float (isWord : IsWord .float word) : ∃ whole part, FloatWord whole part word := by
  obtain ⟨pattern, rule, matched⟩ := isWord
  obtain rfl : pattern = float := by simpa [rules] using rule
  exact floatWord_of_matches matched

end Lexicon

section Evaluation

variable {token : Token} {violation : Violation}

theorem number_kept (sign : Sign) (tiers : TierTable) (isNumeric : token.kind.isNumeric = true)
    (isWord : Lexicon.IsWord token.kind token.text) :
    (NumberLiteral.ofText sign token.text).evaluate tiers ≠ .error (.broken violation) := by
  cases kind : token.kind with
  | int =>
      rw [kind] at isWord
      obtain ⟨base, digits, integer⟩ := Lexicon.isWord_int isWord
      exact NumberLiteral.integer_kept sign tiers violation integer
  | float =>
      rw [kind] at isWord
      obtain ⟨whole, part, float⟩ := Lexicon.isWord_float isWord
      exact NumberLiteral.float_kept sign tiers violation float
  | _ =>
      rw [kind] at isNumeric
      cases isNumeric

theorem Literal.number_of_token {sign : Sign} {numeric : NumberLiteral}
    (read : ofToken sign token = .ok (.number numeric)) :
    token.kind.isNumeric = true ∧ numeric = NumberLiteral.ofText sign token.text := by
  unfold ofToken at read
  cases kind : token.kind with
  | int | float =>
      simp only [kind, Except.ok.injEq, Literal.number.injEq] at read
      exact ⟨rfl, read.symm⟩
  | char | wideChar | string | wideString =>
      simp only [kind, quoted] at read
      split at read <;> cases read
  | _ => simp [kind] at read

theorem Literal.quoted_kept {width : UnitWidth} {quote : Char} {text : List Char}
    {form : QuotedLiteral → Literal} {fault : NumberFault} :
    (quoted width quote text).map form ≠ .error (.number fault) := by
  unfold quoted
  split <;> simp [Except.map]

theorem Literal.ofToken_kept {sign : Sign} {fault : NumberFault} :
    ofToken sign token ≠ .error (.number fault) := by
  cases kind : token.kind with
  | char | wideChar | string | wideString =>
      simp only [ofToken, kind]
      exact quoted_kept
  | _ => simp [ofToken, kind]

/-- No entry breaks a precondition of evaluation where its literal is a word. -/
theorem Entry.value_kept (entry : Entry) (tiers : TierTable)
    (isWord : Lexicon.IsWord entry.literal.token.kind entry.literal.token.text) :
    entry.value tiers ≠ .error (.number (.broken violation)) := by
  unfold Entry.value
  cases read : Literal.ofToken entry.sign entry.literal.token with
  | error cause =>
      intro failed
      cases failed
      exact Literal.ofToken_kept read
  | ok literal =>
      intro failed
      cases literal with
      | number numeric =>
          obtain ⟨isNumeric, rfl⟩ := Literal.number_of_token read
          obtain ⟨fault, result, same⟩ := Literal.fault_of_failed failed
          cases same
          exact number_kept entry.sign tiers isNumeric isWord result
      | character body =>
          obtain ⟨fault, _, same⟩ := Literal.fault_of_failed failed
          cases same
      | string body =>
          obtain ⟨fault, _, same⟩ := Literal.fault_of_failed failed
          cases same

end Evaluation

section Source

variable {source : String}

theorem kept_of_caused {tiers : TierTable} {findings : List (Finding Place)}
    (caused : Initializer.Caused tiers (significant (tokenize source)) findings) {span : Span}
    {cause : Cause} {target : Place → Span}
    (member : (span, cause) ∈ diagnostics (findings.map (Finding.move target)))
    (violation : Violation) : cause ≠ .number (.broken violation) := by
  rintro rfl
  rcases caused.isWord member with syntactic | ⟨entry, isWord, failed⟩
  · cases syntactic
  · exact entry.value_kept tiers isWord failed

end Source

/-- Every integer token is cut into digits of the base that its form names, and every
float token at its only point into decimal digits; the span of a token is a slice of
the source. So evaluating a numeric token never breaks a precondition, and neither does
reading a source. -/
theorem numeric_tokens_sound (tiers : TierTable) (source : String) :
    (∀ lexeme ∈ tokenize source, lexeme.token.kind = .int →
      ∃ base digits, Lexicon.IntegerWord base digits lexeme.token.text ∧
        Base.split lexeme.token.text = (base, digits) ∧ digits ≠ [] ∧
        ∀ byte ∈ Utf8.bytes digits, (base.digit? byte).isSome = true) ∧
    (∀ lexeme ∈ tokenize source, lexeme.token.kind = .float →
      lexeme.token.text.count '.' = 1 ∧
      ∃ whole part, Lexicon.FloatWord whole part lexeme.token.text ∧
        NumberLiteral.splitPoint lexeme.token.text = some (whole, part)) ∧
    (∀ lexeme ∈ tokenize source, lexeme.token.kind.isNumeric = true → ∀ sign violation,
      (NumberLiteral.ofText sign lexeme.token.text).evaluate tiers ≠ .error (.broken violation)) ∧
    (∀ lexeme ∈ tokenize source, lexeme.span.text? source.toList = some lexeme.token.text) ∧
    ∀ findings ∈ [readConstant tiers source, readInitializer tiers source],
      ∀ span cause, (span, cause) ∈ diagnostics findings →
        ∀ violation, cause ≠ .number (.broken violation) := by
  refine ⟨?_, ?_, ?_, fun _ => text_of_mem, ?_⟩
  · intro lexeme member isInt
    have isWord := isWord_of_mem member (by rw [isInt]; decide)
    rw [isInt] at isWord
    obtain ⟨base, digits, integer⟩ := Lexicon.isWord_int isWord
    exact ⟨base, digits, integer, integer.split, integer.nonempty, Base.digit_bytes integer.all⟩
  · intro lexeme member isFloat
    have isWord := isWord_of_mem member (by rw [isFloat]; decide)
    rw [isFloat] at isWord
    obtain ⟨whole, part, float⟩ := Lexicon.isWord_float isWord
    have absent := Lexicon.not_mem_of_all float.all (Base.not_isDigit (c := '.') rfl)
    rw [List.mem_append, not_or] at absent
    refine ⟨?_, whole, part, float, ?_⟩
    · rw [float.cut, List.count_append, List.count_cons_self, List.count_eq_zero_of_not_mem absent.1,
        List.count_eq_zero_of_not_mem absent.2]
    · rw [float.cut, NumberLiteral.splitPoint_point absent.1]
  · intro lexeme member isNumeric sign violation
    have solid := Kind.solid_of_literal (Kind.literal_of_numeric isNumeric)
    exact number_kept sign tiers isNumeric (isWord_of_mem member solid.notError)
  · intro findings isReading span cause member violation
    simp only [List.mem_cons, List.not_mem_nil, or_false] at isReading
    rcases isReading with rfl | rfl
    · exact kept_of_caused ((Initializer.caused_steps tiers).single _) member violation
    · exact kept_of_caused ((Initializer.caused_steps tiers).read _) member violation

/-- A float may begin like a malformed octal literal, and an integer may have no type
that is wide enough. -/
theorem numeric_tokens_sound_leading_zero :
    let source := "\x7b089.5, 0x10000000000000000\x7d"
    let float : Token := ⟨.float, ['0', '8', '9', '.', '5']⟩
    let integer : Token := ⟨.int, ['0', 'x', '1'] ++ List.replicate 16 '0'⟩
    (∃ whole part, Lexicon.FloatWord whole part float.text ∧
      NumberLiteral.splitPoint float.text = some (whole, part)) ∧
    (∃ base digits, Lexicon.IntegerWord base digits integer.text ∧
      Base.split integer.text = (base, digits) ∧ digits ≠ []) ∧
    Span.text? ⟨8, 27⟩ source.toList = some integer.text ∧
    ∃ fault,
      (⟨8, 27⟩, .number (.outOfRange fault)) ∈ diagnostics (readInitializer .standard source) ∧
      ∀ violation, Cause.number (.outOfRange fault) ≠ .number (.broken violation) := by
  intro source float integer
  have isFloat : (⟨float, ⟨1, 6⟩⟩ : Lexeme) ∈ tokenize source := by decide +kernel
  have isInteger : (⟨integer, ⟨8, 27⟩⟩ : Lexeme) ∈ tokenize source := by decide +kernel
  have reported : (⟨8, 27⟩, .number (.outOfRange ⟨integer.text, false⟩)) ∈
      diagnostics (readInitializer .standard source) := by decide +kernel
  obtain ⟨integers, floats, _, slices, kept⟩ := numeric_tokens_sound .standard source
  obtain ⟨base, digits, isWord, split, nonempty, _⟩ := integers _ isInteger rfl
  refine ⟨(floats _ isFloat rfl).2, ⟨base, digits, isWord, split, nonempty⟩, slices _ isInteger, _,
    reported, ?_⟩
  exact kept _ (List.mem_cons_of_mem _ List.mem_cons_self) _ _ reported

end TypedLiteral

import TypedLiteral.Proofs.NumericWord

/-!
What a range error quotes. The text of an integer is put together again from its sign,
its base and its digits. A base is named by its small letter, so a word comes back as it
was read exactly when it was written with that one; the sign, the digits and the leading
zeros of an octal word always come back.
-/
namespace TypedLiteral

namespace Lexicon

inductive CapitalMark : List Char → Prop where
  | hex (digits : List Char) : CapitalMark ('0' :: 'X' :: digits)
  | binary (digits : List Char) : CapitalMark ('0' :: 'B' :: digits)

def smallMark : List Char → List Char
  | '0' :: 'X' :: digits => '0' :: 'x' :: digits
  | '0' :: 'B' :: digits => '0' :: 'b' :: digits
  | word => word

variable {base : Base} {digits word : List Char}

theorem smallMark_eq_iff : smallMark word = word ↔ ¬ CapitalMark word := by
  unfold smallMark
  split
  · next digits => simpa using CapitalMark.hex digits
  · next digits => simpa using CapitalMark.binary digits
  · next notHex notBinary =>
      refine iff_of_true rfl ?_
      rintro (digits | digits)
      · exact notHex digits rfl
      · exact notBinary digits rfl

theorem IntegerWord.rejoined (isWord : IntegerWord base digits word) :
    base.mark digits ++ digits = smallMark word := by
  cases isWord with
  | hex mark digits marked nonempty all => rcases marked with rfl | rfl <;> rfl
  | binary mark digits marked nonempty all => rcases marked with rfl | rfl <;> rfl
  | octal first digits all =>
      -- The zero that says octal is one of the digits, and the digit behind it is no letter.
      have low := Base.octal_low (all first List.mem_cons_self)
      refine (smallMark_eq_iff.mpr ?_).symm
      rintro (_ | _)
      · exact absurd low (by decide)
      · exact absurd low (by decide)
  | zero => rfl
  | decimal first digits positive all =>
      refine (smallMark_eq_iff.mpr ?_).symm
      rintro (_ | _)
      · exact positive rfl
      · exact positive rfl

end Lexicon

namespace NumberLiteral

variable {base : Base} {digits word : List Char}

theorem fault_of_word (sign : Sign) (tiers : TierTable) (fault : RangeError)
    (isWord : Lexicon.IntegerWord base digits word)
    (failed : (ofText sign word).evaluate tiers = .error (.outOfRange fault)) :
    fault = ⟨sign.text ++ Lexicon.smallMark word, sign.isExplicit⟩ := by
  obtain ⟨values, spelled⟩ := base.spells_of_digits digits isWord.all
  rw [ofText_integer sign isWord, evaluate,
    IntegerLiteral.evaluate_spelled ⟨sign, base, digits⟩ tiers values spelled] at failed
  split at failed
  · cases failed
  · cases failed
    rw [← isWord.rejoined, ← List.append_assoc]
    rfl

end NumberLiteral

/-- A range error of an integer token says whether a sign was written, and quotes the sign
and the word; only the letter that names the base is always the small one. So the quotation
is the literal as it was written exactly when that letter was no capital one. -/
theorem rangeError_quotes_word (source : String) (lexeme : Lexeme)
    (member : lexeme ∈ tokenize source) (isInt : lexeme.token.kind = .int) (sign : Sign)
    (tiers : TierTable) (fault : RangeError)
    (failed : (NumberLiteral.ofText sign lexeme.token.text).evaluate tiers =
      .error (.outOfRange fault)) :
    (fault.signed = true ↔ sign ≠ .none) ∧
    fault.literal = sign.text ++ Lexicon.smallMark lexeme.token.text ∧
    (fault.literal = sign.text ++ lexeme.token.text ↔
      ¬ Lexicon.CapitalMark lexeme.token.text) := by
  have isWord := isWord_of_mem member (by rw [isInt]; decide)
  rw [isInt] at isWord
  obtain ⟨base, digits, integer⟩ := Lexicon.isWord_int isWord
  obtain rfl := NumberLiteral.fault_of_word sign tiers fault integer failed
  refine ⟨?_, rfl, ?_⟩
  · cases sign <;> simp [Sign.isExplicit]
  · rw [List.append_cancel_left_eq]
    exact Lexicon.smallMark_eq_iff

theorem rangeError_quotes_leading_zeros :
    let octal := "007777777777777777777777".toList
    let hex := "0X1FfFfFfFfFfFfFfFf".toList
    (∃ fault, (NumberLiteral.ofText .minus octal).evaluate .threeTier =
      .error (.outOfRange fault) ∧ fault.signed = true ∧ fault.literal = '-' :: octal) ∧
    ∃ fault, (NumberLiteral.ofText .none hex).evaluate .standard = .error (.outOfRange fault) ∧
      fault.literal = "0x1FfFfFfFfFfFfFfFf".toList := by
  intro octal hex
  have octalMember : (⟨⟨.int, octal⟩, ⟨0, 24⟩⟩ : Lexeme) ∈ tokenize "007777777777777777777777" := by
    decide +kernel
  have hexMember : (⟨⟨.int, hex⟩, ⟨0, 19⟩⟩ : Lexeme) ∈ tokenize "0X1FfFfFfFfFfFfFfFf" := by
    decide +kernel
  have octalFailed : (NumberLiteral.ofText .minus octal).evaluate .threeTier =
      .error (.outOfRange ⟨'-' :: octal, true⟩) := by decide +kernel
  have hexFailed : (NumberLiteral.ofText .none hex).evaluate .standard =
      .error (.outOfRange ⟨"0x1FfFfFfFfFfFfFfFf".toList, false⟩) := by decide +kernel
  obtain ⟨signed, _, written⟩ :=
    rangeError_quotes_word _ _ octalMember rfl .minus .threeTier _ octalFailed
  obtain ⟨_, quoted, _⟩ := rangeError_quotes_word _ _ hexMember rfl .none .standard _ hexFailed
  refine ⟨⟨_, octalFailed, signed.mpr (by decide), written.mpr ?_⟩, _, hexFailed, quoted⟩
  rintro ⟨⟩

/-- A base that is named by a capital letter is quoted with the small one. -/
theorem rangeError_loses_capital :
    let source := "0X10000000000000000"
    (⟨⟨.int, source.toList⟩, ⟨0, 19⟩⟩ : Lexeme) ∈ tokenize source ∧
      (NumberLiteral.ofText .none source.toList).evaluate .standard =
        .error (.outOfRange ⟨"0x10000000000000000".toList, false⟩) ∧
      "0x10000000000000000".toList ≠ Sign.none.text ++ source.toList := by
  intro source
  exact ⟨by decide +kernel, by decide +kernel, by decide +kernel⟩

end TypedLiteral

import TypedLiteral.Constant
import TypedLiteral.Proofs.IntegerConstant
import TypedLiteral.Proofs.Numeral

/-!
Written constants. The text of a constant is a row of words with a blank between
each two of them, and no word holds a blank, so the text gives the words back. The
first word tells the kind of the constant, and the others are numbers that give
back what the constant holds.
-/
namespace TypedLiteral

theorem toDigits_injective : Function.Injective (Nat.toDigits 10) := by
  intro first second same
  have read := congrArg (Nat.ofDigitChars 10 · 0) same
  simpa using read

theorem notMem_toDigits {c : Char} (other : c.isDigit = false) (number : Nat) :
    c ∉ Nat.toDigits 10 number := by
  intro member
  have digit := Nat.isDigit_of_mem_toDigits (by decide) (by decide) member
  exact absurd (digit.symm.trans other) (by decide)

def signedDigits : Int → List Char
  | .ofNat number => Nat.toDigits 10 number
  | .negSucc number => '-' :: Nat.toDigits 10 (number + 1)

theorem toList_toString (value : Int) : (toString value).toList = signedDigits value := by
  cases value with
  | ofNat number => exact Nat.toList_repr
  | negSucc number =>
      change ("-" ++ Nat.repr (number + 1)).toList = _
      rw [String.toList_append, Nat.toList_repr]
      rfl

theorem signedDigits_injective : Function.Injective signedDigits := by
  intro first second same
  cases first with
  | ofNat first =>
      cases second with
      | ofNat second => exact congrArg Int.ofNat (toDigits_injective same)
      | negSucc second =>
          have minus : '-' ∈ signedDigits (.ofNat first) := same ▸ List.mem_cons_self
          exact absurd minus (notMem_toDigits rfl first)
  | negSucc first =>
      cases second with
      | ofNat second =>
          have minus : '-' ∈ signedDigits (.ofNat second) := same ▸ List.mem_cons_self
          exact absurd minus (notMem_toDigits rfl second)
      | negSucc second =>
          have next := toDigits_injective (List.cons.inj same).2
          exact congrArg Int.negSucc (Nat.succ.inj next)

theorem signedDigits_blankless (value : Int) : ' ' ∉ signedDigits value := by
  cases value with
  | ofNat number => exact notMem_toDigits rfl number
  | negSucc number => simpa [signedDigits] using notMem_toDigits rfl (number + 1)

namespace IntType

theorem name_toList (type : IntType) :
    type.name.toList = (if type.signed then 'i' else 'u') :: Nat.toDigits 10 type.width := by
  cases signed : type.signed <;> simp [name, signed]

theorem name_blankless (type : IntType) : ' ' ∉ type.name.toList := by
  rw [name_toList, List.mem_cons]
  rintro (mark | digit)
  · revert mark
    cases type.signed <;> decide
  · exact notMem_toDigits rfl _ digit

theorem name_inj {first second : IntType} (same : first.name.toList = second.name.toList) :
    first = second := by
  obtain ⟨width, signed⟩ := first
  obtain ⟨other, otherSigned⟩ := second
  rw [name_toList, name_toList] at same
  obtain ⟨mark, digits⟩ := List.cons.inj same
  obtain rfl := toDigits_injective digits
  cases signed <;> cases otherSigned <;> first | rfl | cases mark

end IntType

namespace FloatConstant

def patternWord (count pattern : Nat) : List Char :=
  '0' :: 'x' :: (Nat.toDigits 16 pattern).leftpad count '0'

theorem patternWord_inj {count first second : Nat}
    (same : patternWord count first = patternWord count second) : first = second :=
  Base.hex.leftpad_inj (List.cons.inj (List.cons.inj same).2).2

theorem patternWord_blankless (count pattern : Nat) : ' ' ∉ patternWord count pattern := by
  intro member
  rcases List.mem_cons.mp member with mark | member
  · cases mark
  · rcases List.mem_cons.mp member with mark | member
    · cases mark
    · exact Base.hex.leftpad_blankless count pattern member

def words : FloatConstant → List (List Char)
  | .single pattern => [['f', '3', '2'], patternWord 8 pattern.toNat]
  | .double pattern => [['f', '6', '4'], patternWord 16 pattern.toNat]

theorem words_blankless (constant : FloatConstant) : ∀ word ∈ constant.words, ' ' ∉ word := by
  cases constant <;> simp [words, patternWord_blankless]

theorem words_injective : Function.Injective words := by
  intro first second same
  cases first with
  | single first =>
      cases second with
      | single second =>
          have patterns := patternWord_inj (List.cons.inj (List.cons.inj same).2).1
          exact congrArg single (BitVec.eq_of_toNat_eq patterns)
      | double second => cases (List.cons.inj same).1
  | double first =>
      cases second with
      | single second => cases (List.cons.inj same).1
      | double second =>
          have patterns := patternWord_inj (List.cons.inj (List.cons.inj same).2).1
          exact congrArg double (BitVec.eq_of_toNat_eq patterns)

end FloatConstant

namespace StringConstant

def tag : UnitWidth → List Char
  | .narrow => ['s', 't', 'r']
  | .wide => ['w', 's', 't', 'r']

theorem tag_blankless (width : UnitWidth) : ' ' ∉ tag width := by
  cases width <;> decide

/-- The words of the units. Without a unit there is still a word, the empty one. -/
def unitWords : List Nat → List (List Char)
  | [] => [[]]
  | unit :: units => (unit :: units).map (Nat.toDigits 10)

theorem unitWords_injective : Function.Injective unitWords := by
  intro first second same
  cases first with
  | nil =>
      cases second with
      | nil => rfl
      | cons unit units => exact absurd (List.cons.inj same).1.symm Nat.toDigits_ne_nil
  | cons unit units =>
      cases second with
      | nil => exact absurd (List.cons.inj same).1 Nat.toDigits_ne_nil
      | cons other others => exact List.map_injective_iff.mpr toDigits_injective same

theorem unitWords_blankless (units : List Nat) : ∀ word ∈ unitWords units, ' ' ∉ word := by
  cases units with
  | nil => simp [unitWords]
  | cons unit units =>
      intro word member
      obtain ⟨number, _, rfl⟩ := List.mem_map.mp member
      exact notMem_toDigits rfl number

def words (constant : StringConstant) : List (List Char) :=
  tag constant.width :: unitWords constant.units

theorem intercalate_words (constant : StringConstant) :
    [' '].intercalate constant.words =
      tag constant.width ++ ' ' :: [' '].intercalate (constant.units.map (Nat.toDigits 10)) := by
  obtain ⟨width, units⟩ := constant
  cases units <;> simp [words, unitWords, List.intercalate]

theorem words_injective : Function.Injective words := by
  rintro ⟨width, units⟩ ⟨other, others⟩ same
  obtain ⟨tags, rest⟩ := List.cons.inj same
  obtain rfl := unitWords_injective rest
  cases width <;> cases other <;> first | rfl | cases tags

end StringConstant

namespace Constant

/-- The words of the written form, between its parentheses. -/
def words : Constant → List (List Char)
  | .integer constant => [constant.type.name.toList, signedDigits constant.value]
  | .float constant => constant.words
  | .character constant =>
      [['c', 'h', 'a', 'r'], constant.type.name.toList, Nat.toDigits 10 constant.bits]
  | .string constant => constant.words

theorem words_ne_nil (constant : Constant) : constant.words ≠ [] := by
  cases constant with
  | float constant => cases constant <;> exact List.cons_ne_nil _ _
  | _ => exact List.cons_ne_nil _ _

theorem words_blankless (constant : Constant) : ∀ word ∈ constant.words, ' ' ∉ word := by
  cases constant with
  | integer constant => simp [words, IntType.name_blankless, signedDigits_blankless]
  | float constant => exact constant.words_blankless
  | character constant => simp [words, IntType.name_blankless, notMem_toDigits]
  | string constant =>
      exact List.forall_mem_cons.mpr
        ⟨StringConstant.tag_blankless _, StringConstant.unitWords_blankless _⟩

theorem render_toList (constant : Constant) :
    constant.render.toList = '(' :: ([' '].intercalate constant.words ++ [')']) := by
  cases constant with
  | integer constant => simp [render, IntegerConstant.render, words, ← toList_toString]
  | float constant =>
      cases constant <;> simp [render, FloatConstant.render, FloatConstant.hexadecimal, words,
        FloatConstant.words, FloatConstant.patternWord, Quoted.hexadecimal]
  | character constant => simp [render, words, ToString.toString]
  | string constant =>
      rw [words, StringConstant.intercalate_words]
      obtain ⟨width, units⟩ := constant
      cases width <;> simp [render, StringConstant.render, StringConstant.tag, Function.comp_def]

/-- The kinds of written constants, as the first character of their first word tells
them. -/
inductive Form where
  | integer
  | float
  | character
  | string

def Form.ofTag : List Char → Form
  | 'f' :: _ => .float
  | 'c' :: _ => .character
  | 's' :: _ => .string
  | 'w' :: _ => .string
  | _ => .integer

def form : Constant → Form
  | .integer _ => .integer
  | .float _ => .float
  | .character _ => .character
  | .string _ => .string

theorem ofTag_words (constant : Constant) :
    constant.words.head?.map Form.ofTag = some constant.form := by
  cases constant with
  | integer constant =>
      rw [words, List.head?_cons, IntType.name_toList]
      cases constant.type.signed <;> rfl
  | float constant => cases constant <;> rfl
  | character constant => rfl
  | string constant =>
      obtain ⟨width, units⟩ := constant
      cases width <;> rfl

theorem words_injective : Function.Injective words := by
  intro first second same
  have forms : some first.form = some second.form := by rw [← ofTag_words, same, ofTag_words]
  cases first with
  | integer first =>
      cases second with
      | integer second =>
          have values := signedDigits_injective (List.cons.inj (List.cons.inj same).2).1
          have types := IntType.name_inj (List.cons.inj same).1
          rw [← first.ofInt_value, ← second.ofInt_value, types, values]
      | _ => cases forms
  | float first =>
      cases second with
      | float second => exact congrArg float (FloatConstant.words_injective same)
      | _ => cases forms
  | character first =>
      cases second with
      | character second =>
          obtain ⟨firstType, firstBits, firstFits⟩ := first
          obtain ⟨secondType, secondBits, secondFits⟩ := second
          obtain ⟨names, digits⟩ := List.cons.inj (List.cons.inj same).2
          obtain rfl := IntType.name_inj names
          obtain rfl := toDigits_injective (List.cons.inj digits).1
          rfl
      | _ => cases forms
  | string first =>
      cases second with
      | string second => exact congrArg string (StringConstant.words_injective same)
      | _ => cases forms

/-- The written form of a constant tells everything about it: its kind, its type or width,
and its pattern or units. -/
theorem render_inj (first second : Constant) : first.render = second.render ↔ first = second := by
  refine ⟨fun same => ?_, congrArg render⟩
  have texts := congrArg String.toList same
  rw [render_toList, render_toList] at texts
  have joined := List.append_cancel_right (List.cons.inj texts).2
  have split (constant : Constant) :=
    List.splitOn_intercalate ' ' constant.words_blankless constant.words_ne_nil
  apply words_injective
  rw [← split first, joined, split second]

end Constant

end TypedLiteral

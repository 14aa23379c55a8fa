/-!
Texts are lists of characters, and positions in a text count UTF-8 bytes. A span
is a half-open range of positions. It has a text when both of its ends lie
between characters of the source.
-/
namespace TypedLiteral

structure Span where
  start : Nat
  stop : Nat
  deriving DecidableEq

namespace Utf8

def bytes (text : List Char) : List UInt8 :=
  text.flatMap String.utf8EncodeChar

def size : List Char → Nat
  | [] => 0
  | c :: rest => c.utf8Size + size rest

/-- Cut a text after a number of bytes, if a character ends there. -/
def cut? : Nat → List Char → Option (List Char × List Char)
  | 0, text => some ([], text)
  | _ + 1, [] => none
  | count + 1, c :: rest =>
      if c.utf8Size ≤ count + 1 then
        (cut? (count + 1 - c.utf8Size) rest).map fun parts => (c :: parts.1, parts.2)
      else none

theorem size_append (first second : List Char) :
    size (first ++ second) = size first + size second := by
  induction first with
  | nil => simp [size]
  | cons c rest ih => simp [size, ih, Nat.add_assoc]

theorem cut_size (first second : List Char) :
    cut? (size first) (first ++ second) = some (first, second) := by
  induction first with
  | nil => simp [size, cut?]
  | cons c rest ih =>
      obtain ⟨count, positive⟩ : ∃ count, size (c :: rest) = count + 1 :=
        ⟨size (c :: rest) - 1, by have := c.utf8Size_pos; simp only [size]; omega⟩
      rw [positive, List.cons_append, cut?, ← positive]
      simp [size, ih]

end Utf8

def Span.text? (span : Span) (source : List Char) : Option (List Char) := do
  if span.stop < span.start then none
  let (_, tail) ← Utf8.cut? span.start source
  let (text, _) ← Utf8.cut? (span.stop - span.start) tail
  return text

end TypedLiteral

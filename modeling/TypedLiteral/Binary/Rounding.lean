import TypedLiteral.Binary.Bits

/-!
Rounding a number to its leading bits. The result is the nearest multiple of the
weight of the last bit kept. At a tie the direction of an earlier rounding
decides, because it tells on which side of the tie the exact number lies; a
number that was exact so far goes to the even multiple. A rounding that drops
only zeros keeps the number and the direction.
-/
namespace TypedLiteral.Binary

/-- Where a rounded number lies beside the exact one. -/
inductive Direction where
  | down
  | exact
  | up
  deriving DecidableEq

namespace Direction

def sign : Direction → Int
  | .down => -1
  | .exact => 0
  | .up => 1

def name : Direction → String
  | .down => "Down"
  | .exact => "Exact"
  | .up => "Up"

/-- Whether a tie above the given quotient is rounded up. -/
def breaksUp (incoming : Direction) (quotient : Nat) : Bool :=
  match incoming with
  | .down => true
  | .up => false
  | .exact => quotient % 2 = 1

end Direction

def roundsUp (unit quotient remainder : Nat) (incoming : Direction) : Bool :=
  if 2 * remainder < unit then false
  else if unit < 2 * remainder then true
  else incoming.breaksUp quotient

def roundToBits (n precision : Nat) (incoming : Direction) : Nat × Direction :=
  let unit := weight 2 (bitLength n - precision)
  if n % unit = 0 then (n, incoming)
  else if roundsUp unit (n / unit) (n % unit) incoming then ((n / unit + 1) * unit, .up)
  else (n / unit * unit, .down)

theorem round_multiple (n precision : Nat) (incoming : Direction)
    (divides : weight 2 (bitLength n - precision) ∣ n) :
    roundToBits n precision incoming = (n, incoming) := by
  simp [roundToBits, Nat.mod_eq_zero_of_dvd divides]

theorem round_dvd (n precision : Nat) (incoming : Direction) :
    weight 2 (bitLength n - precision) ∣ (roundToBits n precision incoming).1 := by
  unfold roundToBits
  dsimp only
  split
  · next whole => exact Nat.dvd_of_mod_eq_zero whole
  · split <;> exact Nat.dvd_mul_left _ _

theorem le_round (n precision multiple : Nat) (incoming : Direction)
    (divides : weight 2 (bitLength n - precision) ∣ multiple) (below : multiple ≤ n) :
    multiple ≤ (roundToBits n precision incoming).1 := by
  have positive := bit_pos (bitLength n - precision)
  unfold roundToBits
  generalize weight 2 (bitLength n - precision) = unit at *
  obtain ⟨count, same⟩ := divides
  have fits : count ≤ n / unit :=
    (Nat.le_div_iff_mul_le positive).mpr (by rw [Nat.mul_comm, ← same]; exact below)
  have kept : multiple ≤ n / unit * unit := by
    rw [same, Nat.mul_comm unit]
    exact Nat.mul_le_mul_right unit fits
  dsimp only
  split
  · exact below
  · split
    · exact Nat.le_trans kept (Nat.mul_le_mul_right unit (Nat.le_succ _))
    · exact kept

theorem round_le (n precision multiple : Nat) (incoming : Direction)
    (divides : weight 2 (bitLength n - precision) ∣ multiple) (above : n ≤ multiple) :
    (roundToBits n precision incoming).1 ≤ multiple := by
  have positive := bit_pos (bitLength n - precision)
  unfold roundToBits
  generalize weight 2 (bitLength n - precision) = unit at *
  obtain ⟨count, same⟩ := divides
  have whole : n / unit * unit + n % unit = n := Nat.div_add_mod' n unit
  dsimp only
  split
  · exact above
  · next partly =>
      split
      · have fits : n / unit < count :=
          (Nat.div_lt_iff_lt_mul positive).mpr (by
            have different : n ≠ unit * count := fun equal => partly (by simp [equal])
            rw [Nat.mul_comm]
            omega)
        rw [same, Nat.mul_comm unit]
        exact Nat.mul_le_mul_right unit fits
      · exact Nat.le_trans (by omega) above

/-- A rounding to one bit at least keeps the length, unless it carries into the
next power of two. -/
theorem round_length (n precision : Nat) (incoming : Direction) (positive : 1 ≤ precision) :
    bitLength (roundToBits n precision incoming).1 = bitLength n ∨
      (roundToBits n precision incoming).1 = weight 2 (bitLength n) := by
  by_cases zero : n = 0
  · subst zero
    exact Or.inl (by rw [round_multiple _ _ _ (Nat.dvd_zero _)])
  have some_bit := (bitLength_pos n).mpr zero
  have low := le_round n precision (weight 2 (bitLength n - 1)) incoming
    (weight_dvd 2 (by omega)) (bitLength_leading n zero)
  have high := round_le n precision (weight 2 (bitLength n)) incoming
    (weight_dvd 2 (by omega)) (Nat.le_of_lt (lt_bitLength n))
  rcases Nat.lt_or_eq_of_le high with less | carry
  · left
    have length : bitLength n - 1 + 1 = bitLength n := by omega
    rw [bitLength_eq _ (bitLength n - 1) low (by rwa [length]), length]
  · exact Or.inr carry

theorem round_longer (n precision : Nat) (incoming : Direction) :
    (roundToBits n precision incoming).1 = 0 ∨
      bitLength n ≤ bitLength (roundToBits n precision incoming).1 := by
  by_cases positive : 1 ≤ precision
  · right
    rcases round_length n precision incoming positive with kept | carry
    · exact Nat.le_of_eq kept.symm
    · rw [carry, bitLength_weight]
      exact Nat.le_succ _
  · have whole := round_dvd n precision incoming
    rw [show bitLength n - precision = bitLength n by omega] at whole
    by_cases zero : (roundToBits n precision incoming).1 = 0
    · exact Or.inl zero
    · right
      have large := Nat.le_of_dvd (Nat.pos_of_ne_zero zero) whole
      have longer := bitLength_mono large
      rw [bitLength_weight] at longer
      omega

end TypedLiteral.Binary

import TypedLiteral.Violation
import TypedLiteral.Weight

/-!
Natural numbers seen through their bits: how many there are, the leading ones,
and the digits to base 2^32.
-/
namespace TypedLiteral.Binary

/-- Number of bits up to the highest one that is set. -/
def bitLength (n : Nat) : Nat := if n = 0 then 0 else n.log2 + 1

def setBit (n index : Nat) : Nat := n ||| weight 2 index

/-- The first `count` bits of a number that has as many, 64 at most. -/
def leadingBits (n count : Nat) : Except Violation Nat :=
  if count ≤ 64 ∧ count ≤ bitLength n then .ok (n / weight 2 (bitLength n - count))
  else .error (.tooManyBits count (bitLength n))

def divide (n divisor : Nat) : Except Violation (Nat × Nat) :=
  if divisor = 0 then .error .divisionByZero else .ok (n / divisor, n % divisor)

/-- Digits to base 2^32, the least significant first; zero has one digit. -/
def digits (n : Nat) : List Nat :=
  if n < weight 2 32 then [n] else n % weight 2 32 :: digits (n / weight 2 32)
  termination_by n
  decreasing_by
    have positive := bit_pos 32
    exact Nat.div_lt_self (by omega) (by decide)

theorem bitLength_le (n count : Nat) : bitLength n ≤ count ↔ n < weight 2 count := by
  unfold bitLength
  split
  · next zero =>
      subst zero
      exact ⟨fun _ => bit_pos count, fun _ => Nat.zero_le count⟩
  · next nonzero => rw [Nat.succ_le_iff]; exact Nat.log2_lt nonzero

theorem lt_bitLength (n : Nat) : n < weight 2 (bitLength n) :=
  (bitLength_le n _).mp (Nat.le_refl _)

theorem bitLength_pos (n : Nat) : 0 < bitLength n ↔ n ≠ 0 := by
  unfold bitLength
  split <;> simp_all

theorem bitLength_leading (n : Nat) (nonzero : n ≠ 0) : weight 2 (bitLength n - 1) ≤ n := by
  have positive := (bitLength_pos n).mpr nonzero
  refine Nat.le_of_not_lt fun less => ?_
  have shorter := (bitLength_le n (bitLength n - 1)).mpr less
  omega

theorem bitLength_eq (n length : Nat) (leading : weight 2 length ≤ n)
    (bounded : n < weight 2 (length + 1)) : bitLength n = length + 1 := by
  have upper := (bitLength_le n (length + 1)).mpr bounded
  have lower : ¬ bitLength n ≤ length := by
    rw [bitLength_le]
    exact Nat.not_lt.mpr leading
  omega

theorem bitLength_mono {n m : Nat} (ordered : n ≤ m) : bitLength n ≤ bitLength m :=
  (bitLength_le n _).mpr (Nat.lt_of_le_of_lt ordered (lt_bitLength m))

theorem bitLength_weight (index : Nat) : bitLength (weight 2 index) = index + 1 :=
  bitLength_eq _ index (Nat.le_refl _) ((weight_lt_iff _ _).mpr (Nat.lt_succ_self _))

theorem bitLength_scale (n count : Nat) (nonzero : n ≠ 0) :
    bitLength (n * weight 2 count) = bitLength n + count := by
  have positive := (bitLength_pos n).mpr nonzero
  have leading := Nat.mul_le_mul_right (weight 2 count) (bitLength_leading n nonzero)
  have bounded := Nat.mul_lt_mul_of_pos_right (lt_bitLength n) (bit_pos count)
  rw [← weight_add] at leading bounded
  have same := bitLength_eq _ (bitLength n - 1 + count) leading
    (by rwa [show bitLength n - 1 + count + 1 = bitLength n + count by omega])
  omega

end TypedLiteral.Binary

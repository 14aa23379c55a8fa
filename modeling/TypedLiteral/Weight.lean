/-!
The weight of a place in a positional numeral: a power of the radix. Bits have
radix two, and decimal digits radix ten.
-/
namespace TypedLiteral

def weight (radix index : Nat) : Nat := Nat.pow radix index

theorem weight_pos (radix index : Nat) (positive : 0 < radix) : 0 < weight radix index :=
  Nat.pow_pos positive

theorem bit_pos (index : Nat) : 0 < weight 2 index :=
  weight_pos 2 index (by decide)

theorem weight_add (radix first second : Nat) :
    weight radix (first + second) = weight radix first * weight radix second :=
  Nat.pow_add radix first second

theorem weight_succ (radix index : Nat) : weight radix (index + 1) = weight radix index * radix :=
  rfl

theorem weight_dvd (radix : Nat) {low high : Nat} (ordered : low ≤ high) :
    weight radix low ∣ weight radix high :=
  Nat.pow_dvd_pow radix ordered

theorem weight_le {low high : Nat} (ordered : low ≤ high) : weight 2 low ≤ weight 2 high :=
  Nat.pow_le_pow_right (by decide) ordered

theorem weight_lt_iff (low high : Nat) : weight 2 low < weight 2 high ↔ low < high :=
  Nat.pow_lt_pow_iff_right (by decide)

end TypedLiteral

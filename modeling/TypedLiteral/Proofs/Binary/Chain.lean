import TypedLiteral.Proofs.Binary.Nearest

/-!
Rounding a number in several steps, each to fewer bits than the one before. The
recorded direction makes up for what the earlier steps dropped, so the chain ends
where a single rounding to the last precision ends.
-/
namespace TypedLiteral.Binary

def roundChain (start : Nat × Direction) (precisions : List Nat) : Nat × Direction :=
  precisions.foldl (fun rounded precision => roundToBits rounded.1 precision rounded.2) start

theorem round_exact (n precision : Nat) :
    IsRounding (weight 2 (bitLength n - precision)) n (roundToBits n precision .exact) := by
  cases dropped : bitLength n - precision with
  | zero =>
      have whole : weight 2 (bitLength n - precision) ∣ n := by rw [dropped]; exact Nat.one_dvd n
      rw [round_multiple n precision .exact whole]
      exact ⟨n, by simp [weight], ⟨by simp [weight], by simp [weight]⟩, rfl⟩
  | succ count =>
      rw [← dropped]
      refine round_nearest 1 n precision .exact n (standsIn_self n) (by decide) ?_
      rw [dropped]
      exact Nat.dvd_mul_left 2 _

theorem IsRounding.coarsen {fine unit quotient : Nat} {exact : ℚ} {result : Nat × Direction}
    (rounding : IsRounding fine exact result) (coarser : fine < unit)
    (multiple : result.1 = quotient * unit) : IsRounding unit exact result := by
  -- No tie is possible, because the number is within half of the finer unit.
  obtain ⟨finer, value, nearest, tells⟩ := rounding
  have wider : (fine : ℚ) < unit := by exact_mod_cast coarser
  have place : (finer : ℚ) * fine = quotient * unit := by exact_mod_cast value.symm.trans multiple
  have near := nearest.near
  rw [place] at near
  have within := near.trans_lt wider
  exact ⟨quotient, multiple, ⟨within.le, fun tie => absurd tie within.ne⟩, tells⟩

theorem round_kept (n wide narrow : Nat) (ordered : narrow ≤ wide)
    (kept : bitLength (roundToBits n wide .exact).1 = bitLength n) :
    roundToBits (roundToBits n wide .exact).1 narrow (roundToBits n wide .exact).2 =
      roundToBits n narrow .exact := by
  have first := round_exact n wide
  have divides := round_dvd n wide .exact
  have unitPositive := bit_pos (bitLength n - narrow)
  generalize roundToBits n wide .exact = rounded at *
  refine IsRounding.unique unitPositive ?_ (round_exact n narrow)
  by_cases same : bitLength n - narrow = bitLength n - wide
  · rw [round_multiple _ _ _ (by rw [kept, same]; exact divides), same]
    exact first
  · have finer : 2 * weight 2 (bitLength n - wide) ∣ weight 2 (bitLength n - narrow) := by
      rw [Nat.mul_comm, ← weight_succ]
      exact weight_dvd 2 (by omega)
    have second := round_nearest _ rounded.1 narrow rounded.2 n
      (first.standsIn (bit_pos _)) (bit_pos _)
      (by rwa [kept])
    rwa [kept] at second

theorem round_carried (n wide narrow : Nat) (fewer : narrow < wide)
    (carry : (roundToBits n wide .exact).1 = weight 2 (bitLength n)) :
    roundToBits n narrow .exact = roundToBits n wide .exact := by
  have longer : wide < bitLength n := by
    by_contra short
    rw [round_multiple n wide .exact (by
      rw [Nat.sub_eq_zero_of_le (Nat.le_of_not_lt short)]; exact Nat.one_dvd n)] at carry
    exact Nat.ne_of_lt (lt_bitLength n) carry
  have coarser : weight 2 (bitLength n - wide) < weight 2 (bitLength n - narrow) :=
    (weight_lt_iff _ _).mpr (by omega)
  have multiple : (roundToBits n wide .exact).1 =
      weight 2 narrow * weight 2 (bitLength n - narrow) := by
    rw [carry, ← weight_add, Nat.add_sub_cancel' (by omega)]
  exact IsRounding.unique (bit_pos _) (round_exact n narrow)
    ((round_exact n wide).coarsen coarser multiple)

/-- Two roundings in a row, the second one told the direction of the first, are
one rounding to the second precision. -/
theorem round_round (n wide narrow : Nat) (ordered : narrow ≤ wide) (positive : 1 ≤ narrow) :
    roundToBits (roundToBits n wide .exact).1 narrow (roundToBits n wide .exact).2 =
      roundToBits n narrow .exact := by
  rcases round_length n wide .exact (by omega) with kept | carry
  · exact round_kept n wide narrow ordered kept
  · -- A carry leaves a single bit, which every later rounding keeps.
    have single : weight 2 (bitLength (roundToBits n wide .exact).1 - narrow) ∣
        (roundToBits n wide .exact).1 := by
      rw [carry, bitLength_weight]
      exact weight_dvd 2 (by omega)
    rw [round_multiple _ _ _ single]
    rcases Nat.lt_or_eq_of_le ordered with fewer | same
    · exact (round_carried n wide narrow fewer carry).symm
    · rw [same]

theorem roundChain_from (n : Nat) (first : Nat) (rest : List Nat)
    (descending : (first :: rest).Pairwise (· ≥ ·)) (positive : ∀ p ∈ first :: rest, 1 ≤ p) :
    roundChain (roundToBits n first .exact) rest =
      roundToBits n ((first :: rest).getLast (List.cons_ne_nil _ _)) .exact := by
  induction rest generalizing first with
  | nil => rfl
  | cons next rest ih =>
      have ordered := (List.pairwise_cons.mp descending).1 next List.mem_cons_self
      have least := positive next (List.mem_cons_of_mem _ List.mem_cons_self)
      have step := round_round n first next ordered least
      have tail := ih next (List.pairwise_cons.mp descending).2
        fun p member => positive p (List.mem_cons_of_mem _ member)
      simp only [roundChain, List.foldl_cons] at tail ⊢
      rw [step, tail, List.getLast_cons_cons]

/-- Rounding to fewer and fewer bits, from a number that was exact so far, ends
with the value and the direction of one rounding to the last precision. -/
theorem chain_rounds_once (n : Nat) (precisions : List Nat) (nonempty : precisions ≠ [])
    (descending : precisions.Pairwise (· ≥ ·)) (positive : ∀ p ∈ precisions, 1 ≤ p) :
    roundChain (n, .exact) precisions = roundToBits n (precisions.getLast nonempty) .exact := by
  cases precisions with
  | nil => exact absurd rfl nonempty
  | cons first rest => exact roundChain_from n first rest descending positive

/-- The first rounding makes a tie of a number that lies above it; the second one still
rounds up. -/
theorem chain_false_tie : roundChain (545, .exact) [6, 4] = (576, .up) :=
  (chain_rounds_once 545 [6, 4] (by decide) (by decide) (by decide)).trans (by decide)

end TypedLiteral.Binary

import Mathlib

/-!
# Word maps that lose nothing

The maps from which fast hashes are made up: a word is xored with its own upper part, multiplied by a
unit, or rotated. Each of them is injective, so a hash that chains them tells two inputs apart as long
as they differ in one block: no later step brings the states together again.

## Main results

* `xorShift_injective`, `mul_injective`, `rotateLeft_injective`: the maps
* `foldl_injective`, `foldl_ne`: **a difference in one block reaches the end of the chain**
-/

namespace WordMaps

open Function

section Words

variable {w : ℕ}

/-- A word xored with its own upper part. -/
theorem xorShift_injective {k : ℕ} (hk : 0 < k) :
    Injective fun x : BitVec w => x ^^^ (x >>> k) := by
  intro x y h
  -- from the top bit down: bit `i` is masked by a bit above it
  have hbits : ∀ n i, w ≤ i + n → x.getLsbD i = y.getLsbD i := by
    intro n
    induction n with
    | zero =>
      intro i hi
      rw [BitVec.getLsbD_of_ge x i hi, BitVec.getLsbD_of_ge y i hi]
    | succ n ih =>
      intro i hi
      have hmask : x.getLsbD (k + i) = y.getLsbD (k + i) := ih (k + i) (by omega)
      have hbit := congrArg (fun z => z.getLsbD i) h
      simp only [BitVec.getLsbD_xor, BitVec.getLsbD_ushiftRight, hmask] at hbit
      exact Bool.xor_left_inj.mp hbit
  exact BitVec.eq_of_getLsbD_eq fun i hi => hbits w i (by omega)

/-- A word multiplied by a unit. -/
theorem mul_injective {a b : BitVec w} (h : a * b = 1#w) : Injective (· * a) :=
  LeftInverse.injective (g := (· * b)) fun x => by
    show x * a * b = x
    rw [BitVec.mul_assoc, h, BitVec.mul_one]

/-- A word that is rotated. -/
theorem rotateLeft_injective {r : ℕ} (hr : r < w) :
    Injective fun x : BitVec w => x.rotateLeft r := by
  intro x y h
  apply BitVec.eq_of_getLsbD_eq
  intro i hi
  -- bit `i` goes `r` places up, around the end
  by_cases hwrap : i + r < w
  · have hbit := congrArg (fun z => z.getLsbD (i + r)) h
    simpa [BitVec.getLsbD_rotateLeft, Nat.mod_eq_of_lt hr, hwrap, hi] using hbit
  · have hbit := congrArg (fun z => z.getLsbD (i + r - w)) h
    have hlt : i + r - w < r := by omega
    simpa [BitVec.getLsbD_rotateLeft, Nat.mod_eq_of_lt hr, hlt,
      show w - r + (i + r - w) = i by omega] using hbit

end Words

section Chain

variable {σ β : Type*} {step : σ → β → σ}

/-- A chain of injective steps does not bring two states together. -/
theorem foldl_injective (hstep : ∀ b, Injective fun s => step s b) (bs : List β) :
    Injective fun s => bs.foldl step s := by
  induction bs with
  | nil => exact injective_id
  | cons b bs ih => exact ih.comp (hstep b)

/-- **A difference in one block reaches the end of the chain.** -/
theorem foldl_ne (hstep : ∀ b, Injective fun s => step s b) {b b' : β}
    (hblock : ∀ s, step s b ≠ step s b') (s : σ) (front back : List β) :
    (front ++ b :: back).foldl step s ≠ (front ++ b' :: back).foldl step s := by
  rw [List.foldl_append, List.foldl_append, List.foldl_cons, List.foldl_cons]
  exact (foldl_injective hstep back).ne (hblock _)

end Chain

end WordMaps

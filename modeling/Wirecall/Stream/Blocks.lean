import Mathlib

/-!
# Absorbing a stream block by block

A fold over blocks of `k` elements that is fed in pieces of any length keeps the elements that do not
fill a block yet. It does not matter how the input is cut: two pieces have the effect of the one they
make together.

## Main definitions

* `blocks k n xs`: the first `n` blocks of `xs`
* `Absorber`, `absorb`: a fold with the elements that wait for their block

## Main results

* `absorb_append`: **the input may be cut anywhere**
-/

namespace Blocks

variable {α σ : Type*} {k : ℕ}

/-- The first `n` blocks of `k` elements. -/
def blocks (k : ℕ) : ℕ → List α → List (List α)
  | 0, _ => []
  | n + 1, xs => xs.take k :: blocks k n (xs.drop k)

/-- The state of a fold over blocks, with the elements that do not fill a block yet. -/
@[ext] structure Absorber (σ α : Type*) where
  core : σ
  pending : List α

/-- Elements are added: every block that is full now is folded. -/
def absorb (k : ℕ) (step : σ → List α → σ) (s : Absorber σ α) (xs : List α) : Absorber σ α where
  core := (blocks k ((s.pending ++ xs).length / k) (s.pending ++ xs)).foldl step s.core
  pending := (s.pending ++ xs).drop ((s.pending ++ xs).length / k * k)

theorem blocks_add (m n : ℕ) (xs : List α) :
    blocks k (m + n) xs = blocks k m xs ++ blocks k n (xs.drop (m * k)) := by
  induction m generalizing xs with
  | zero => simp [blocks]
  | succ m ih =>
    rw [Nat.succ_add, blocks, blocks, ih, List.drop_drop, List.cons_append, Nat.succ_mul,
      Nat.add_comm k]

/-- Blocks that are full do not change with more input. -/
theorem blocks_append {n : ℕ} {xs : List α} (h : n * k ≤ xs.length) (ys : List α) :
    blocks k n (xs ++ ys) = blocks k n xs := by
  induction n generalizing xs with
  | zero => rfl
  | succ n ih =>
    rw [Nat.succ_mul] at h
    rw [blocks, blocks, List.take_append_of_le_length (by omega),
      List.drop_append_of_le_length (by omega), ih (by rw [List.length_drop]; omega)]

variable {step : σ → List α → σ} {s : Absorber σ α}

theorem length_pending_absorb (hk : 0 < k) (xs : List α) :
    (absorb k step s xs).pending.length < k := by
  rw [absorb, List.length_drop, Nat.mul_comm, ← Nat.mod_eq_sub_mul_div]
  exact Nat.mod_lt _ hk

/-- Elements that do not fill a block wait. -/
theorem absorb_of_lt {xs : List α} (h : s.pending.length + xs.length < k) :
    absorb k step s xs = ⟨s.core, s.pending ++ xs⟩ := by
  have hzero : (s.pending ++ xs).length / k = 0 := by
    rw [List.length_append]
    exact Nat.div_eq_of_lt h
  simp only [absorb, hzero, blocks, List.foldl_nil, Nat.zero_mul, List.drop_zero]

/-- Elements that fill up the block that waits are the rest of it, and the others come after it. -/
theorem absorb_of_le {xs : List α} (hk : 0 < k) (hlen : s.pending.length ≤ k)
    (h : k ≤ s.pending.length + xs.length) :
    absorb k step s xs =
      absorb k step ⟨step s.core (s.pending ++ xs.take (k - s.pending.length)), []⟩
        (xs.drop (k - s.pending.length)) := by
  have htake : (s.pending ++ xs).take k = s.pending ++ xs.take (k - s.pending.length) := by
    rw [List.take_append, List.take_of_length_le hlen]
  have hdrop : (s.pending ++ xs).drop k = xs.drop (k - s.pending.length) := by
    rw [List.drop_append, List.drop_of_length_le hlen, List.nil_append]
  have hcount : (s.pending ++ xs).length / k = (xs.drop (k - s.pending.length)).length / k + 1 := by
    rw [← hdrop, List.length_drop, ← Nat.add_div_right _ hk, List.length_append]
    congr 1
    omega
  simp only [absorb, hcount, blocks, htake, hdrop, List.foldl_cons, List.nil_append]
  rw [Nat.succ_mul, Nat.add_comm _ k, ← List.drop_drop, hdrop]

/-- **The input may be cut anywhere.** -/
theorem absorb_append (hk : 0 < k) (xs ys : List α) :
    absorb k step (absorb k step s xs) ys = absorb k step s (xs ++ ys) := by
  -- all that has come by the first piece, and the blocks it fills
  obtain ⟨front, hfront⟩ : ∃ front, s.pending ++ xs = front := ⟨_, rfl⟩
  obtain ⟨n, hn⟩ : ∃ n, front.length / k = n := ⟨_, rfl⟩
  have hle : n * k ≤ front.length := hn ▸ Nat.div_mul_le_self _ _
  obtain ⟨m, hm⟩ : ∃ m, (front.drop (n * k) ++ ys).length / k = m := ⟨_, rfl⟩
  have hall : (front ++ ys).length / k = n + m := by
    rw [← hm, List.length_append, List.length_append, List.length_drop,
      show front.length + ys.length = (front.length - n * k + ys.length) + n * k by omega,
      Nat.add_mul_div_right _ _ hk, Nat.add_comm]
  have hdrop : (front ++ ys).drop (n * k) = front.drop (n * k) ++ ys :=
    List.drop_append_of_le_length hle
  simp only [absorb, ← List.append_assoc, hfront, hn, hm, hall]
  ext1
  · rw [blocks_add, List.foldl_append, blocks_append hle, hdrop]
  · rw [← hdrop, List.drop_drop, Nat.add_mul]

end Blocks

import Mathlib

/-!
# Growing buffers

Every growing buffer of the library doubles its capacity until the bytes it needs fit, and asks
the allocator for the new capacity. The allocator is an oracle here: `mem n` says whether a
request of `n` bytes is granted.

## Main definitions

* `Rc`: the return values `0` and `-1`
* `doubleUntil fuel cap need`: the loop `while (cap < need) cap *= 2`
* `growFrom start cap need`: the capacity a buffer grows to
* `appendBytes`, `reserveBytes`: the two functions of `server.c`
* `TakesMore`: a buffer takes so many more bytes

## Main results

* `le_growFrom`: the loop reaches what is needed
* `Doubled.growCap`: capacities stay powers of two below any power that is large enough
* `appendBytes_eq_some`: an append that succeeds adds exactly its bytes
* `appendBytes_eq_none_iff`: and it fails exactly if the buffer does not take them
-/

namespace Wirecall

/-- The return value of a function that reports failure: `0` or `-1`. -/
inductive Rc where
  | ok
  | err
  deriving DecidableEq, Repr

/-- An allocator: whether a request of that many bytes is granted. -/
abbrev Mem := ℕ → Bool

/-- `SIZE_MAX` with a 64-bit `size_t`. -/
def sizeMax : ℕ := 2 ^ 64 - 1

/-- The loop `while (cap < need) { cap *= 2u; }`, with at most `fuel` turns. A buffer below
`2 ^ 63` bytes never makes the product wrap. -/
def doubleUntil : ℕ → ℕ → ℕ → ℕ
  | 0, cap, _ => cap
  | fuel + 1, cap, need => if cap < need then doubleUntil fuel (cap * 2) need else cap

/-- A capacity that is not zero reaches what is needed. -/
theorem le_doubleUntil {fuel cap need : ℕ} (hpos : 0 < cap) (hfuel : need ≤ cap + fuel) :
    need ≤ doubleUntil fuel cap need := by
  induction fuel generalizing cap with
  | zero => simpa [doubleUntil] using hfuel
  | succ fuel ih =>
    rw [doubleUntil]
    split
    · exact ih (by omega) (by omega)
    · omega

/-- From a power of two the loop stops at one, and at no larger one than it needs. -/
theorem doubleUntil_pow {fuel cap need k : ℕ} (hneed : need ≤ 2 ^ k)
    (hcap : ∃ j ≤ k, cap = 2 ^ j) : ∃ j ≤ k, doubleUntil fuel cap need = 2 ^ j := by
  induction fuel generalizing cap with
  | zero => exact hcap
  | succ fuel ih =>
    rw [doubleUntil]
    split
    · rename_i hlt
      obtain ⟨j, -, rfl⟩ := hcap
      have hj : j < k := (Nat.pow_lt_pow_iff_right (by decide)).mp (hlt.trans_le hneed)
      exact ih ⟨j + 1, hj, (pow_succ 2 j).symm⟩
    · exact hcap

/-- The capacity a buffer grows to; one without a capacity starts with `start`. -/
def growFrom (start cap need : ℕ) : ℕ := doubleUntil need (if cap ≠ 0 then cap else start) need

theorem le_growFrom {start : ℕ} (hstart : 0 < start) (cap need : ℕ) :
    need ≤ growFrom start cap need := by
  unfold growFrom
  split_ifs with hcap
  · exact le_doubleUntil (Nat.pos_of_ne_zero hcap) (by omega)
  · exact le_doubleUntil hstart (by omega)

/-- The capacity the buffers of `server.c` grow to. -/
def growCap (cap need : ℕ) : ℕ := growFrom 4096 cap need

theorem le_growCap (cap need : ℕ) : need ≤ growCap cap need := le_growFrom (by decide) cap need

/-- The capacities that doubling from 4096 can reach, up to a bound. -/
def Doubled (k cap : ℕ) : Prop := cap = 0 ∨ ∃ j ≤ k, cap = 2 ^ j

theorem Doubled.le {k cap : ℕ} (h : Doubled k cap) : cap ≤ 2 ^ k := by
  rcases h with rfl | ⟨j, hj, rfl⟩
  · exact Nat.zero_le _
  · exact Nat.pow_le_pow_right (by decide) hj

/-- A buffer that starts with a power of two keeps to powers of two. -/
theorem Doubled.growFrom {j k cap need : ℕ} (hj : j ≤ k) (hneed : need ≤ 2 ^ k) (h : Doubled k cap) :
    Doubled k (growFrom (2 ^ j) cap need) := by
  refine .inr (doubleUntil_pow hneed ?_)
  split_ifs with hcap
  · exact h.resolve_left hcap
  · exact ⟨j, hj, rfl⟩

theorem Doubled.growCap {k cap need : ℕ} (h : Doubled k cap) (hk : 12 ≤ k) (hneed : need ≤ 2 ^ k) :
    Doubled k (growCap cap need) := h.growFrom hk hneed

/-- `append_bytes`, on the bytes of the buffer and its capacity. -/
def appendBytes (mem : Mem) (buf : List UInt8) (cap : ℕ) (data : List UInt8) :
    Option (List UInt8 × ℕ) :=
  if data.length = 0 then some (buf, cap)
  else if buf.length > sizeMax - data.length then none
  else
    let need := buf.length + data.length
    if need > cap then
      if mem (growCap cap need) then some (buf ++ data, growCap cap need) else none
    else some (buf ++ data, cap)

/-- `reserve_bytes`: the capacity afterwards. -/
def reserveBytes (mem : Mem) (cap need : ℕ) : Option ℕ :=
  if need ≤ cap then some cap
  else if mem (growCap cap need) then some (growCap cap need) else none

/-- An append that succeeds adds exactly its bytes. -/
theorem appendBytes_eq_some {mem : Mem} {buf data buf' : List UInt8} {cap cap' : ℕ}
    (h : appendBytes mem buf cap data = some (buf', cap')) : buf' = buf ++ data := by
  unfold appendBytes at h
  split at h
  · rename_i hd
    obtain ⟨rfl, -⟩ := Prod.mk.inj (Option.some.inj h)
    rw [List.length_eq_zero_iff.mp hd, List.append_nil]
  · split at h
    · cases h
    · dsimp only at h
      split at h
      · split at h
        · exact (Prod.mk.inj (Option.some.inj h)).1.symm
        · cases h
      · exact (Prod.mk.inj (Option.some.inj h)).1.symm

/-- After an append that succeeds the bytes fit the capacity. -/
theorem length_le_of_appendBytes {mem : Mem} {buf data buf' : List UInt8} {cap cap' : ℕ}
    (h : appendBytes mem buf cap data = some (buf', cap')) (hfits : buf.length ≤ cap) :
    buf'.length ≤ cap' := by
  unfold appendBytes at h
  split_ifs at h with hempty hlong
  · obtain ⟨rfl, rfl⟩ := Prod.mk.inj (Option.some.inj h)
    exact hfits
  · simp only at h
    split_ifs at h with hroom hgranted
    · obtain ⟨rfl, rfl⟩ := Prod.mk.inj (Option.some.inj h)
      rw [List.length_append]
      exact le_growCap cap _
    · obtain ⟨rfl, rfl⟩ := Prod.mk.inj (Option.some.inj h)
      rw [List.length_append]
      omega

/-- A buffer of `len` bytes takes `n` more: they are none, it has room for them, or it can grow. -/
def TakesMore (mem : Mem) (len cap n : ℕ) : Prop :=
  n = 0 ∨ (len ≤ sizeMax - n ∧ (len + n ≤ cap ∨ mem (growCap cap (len + n)) = true))

/-- The capacity of a buffer that took `n` more bytes. -/
def capAfter (len cap n : ℕ) : ℕ := if len + n ≤ cap then cap else growCap cap (len + n)

/-- **An append fails exactly if the buffer does not take its bytes.** -/
theorem appendBytes_eq_none_iff {mem : Mem} {buf data : List UInt8} {cap : ℕ} :
    appendBytes mem buf cap data = none ↔ ¬ TakesMore mem buf.length cap data.length := by
  unfold appendBytes TakesMore
  by_cases hempty : data.length = 0
  · simp [hempty]
  rw [if_neg hempty, or_iff_right hempty]
  by_cases hlong : buf.length > sizeMax - data.length
  · rw [if_pos hlong]
    exact iff_of_true rfl fun h => absurd h.1 (by omega)
  rw [if_neg hlong, and_iff_right (by omega)]
  by_cases hroom : buf.length + data.length > cap
  · simp only [if_pos hroom]
    rw [or_iff_right (by omega)]
    split_ifs with hgranted <;> simp [hgranted]
  · simp only [if_neg hroom]
    exact iff_of_false (by simp) fun h => h (.inl (by omega))

/-- The capacity after an append of some bytes. -/
theorem cap_of_appendBytes {mem : Mem} {buf data buf' : List UInt8} {cap cap' : ℕ}
    (h : appendBytes mem buf cap data = some (buf', cap')) (hdata : data.length ≠ 0) :
    cap' = capAfter buf.length cap data.length := by
  unfold appendBytes at h
  rw [if_neg hdata] at h
  unfold capAfter
  split_ifs at h with hlong
  simp only at h
  split_ifs at h with hroom hgranted
  · rw [if_neg (by omega)]
    exact (Prod.mk.inj (Option.some.inj h)).2.symm
  · rw [if_pos (by omega)]
    exact (Prod.mk.inj (Option.some.inj h)).2.symm

theorem reserveBytes_eq_some {mem : Mem} {cap need cap' : ℕ}
    (h : reserveBytes mem cap need = some cap') : need ≤ cap' := by
  unfold reserveBytes at h
  split at h
  · rename_i hle
    exact (Option.some.inj h) ▸ hle
  · split at h
    · exact (Option.some.inj h) ▸ le_growCap cap need
    · cases h

theorem Doubled.reserveBytes {mem : Mem} {k cap need cap' : ℕ} (hcap : Doubled k cap)
    (hk : 12 ≤ k) (hneed : need ≤ 2 ^ k) (h : reserveBytes mem cap need = some cap') :
    Doubled k cap' := by
  unfold Wirecall.reserveBytes at h
  split at h
  · exact (Option.some.inj h) ▸ hcap
  · split at h
    · exact (Option.some.inj h) ▸ hcap.growCap hk hneed
    · cases h

end Wirecall

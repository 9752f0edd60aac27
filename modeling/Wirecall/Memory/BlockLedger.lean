import Mathlib

/-!
# A ledger of heap blocks

Every block that an allocator hands out has an id of its own, and every block that is freed is written
down. A piece of code owns the blocks `live` if each block ever handed out is freed or live, and none
is both or freed twice.

## Main definitions

* `BlockLedger`: the ids handed out and the ids freed
* `BlockLedger.Owns`: the blocks that are still to be freed
* `BlockLedger.Settled`: every block was freed exactly once

## Main results

* `Owns.acquire`, `Owns.release`, `Owns.releaseAll`: what the operations own
* `Owns.settled`: with nothing left to free, the ledger is settled
-/

/-- The blocks with ids below `next` were handed out, those in `freed` were freed. -/
structure BlockLedger where
  next : ℕ
  freed : List ℕ
  deriving DecidableEq, Repr

namespace BlockLedger

/-- Nothing was handed out. -/
def empty : BlockLedger := ⟨0, []⟩

/-- A block is handed out; its id is `next`. -/
def acquire (l : BlockLedger) : BlockLedger := { l with next := l.next + 1 }

/-- A block is freed. -/
def release (l : BlockLedger) (block : ℕ) : BlockLedger := { l with freed := l.freed ++ [block] }

/-- `free`: a null pointer is ignored. -/
def free (l : BlockLedger) (block : Option ℕ) : BlockLedger := block.elim l l.release

/-- The blocks that were handed out are those that were freed and those in `live`. -/
def Owns (l : BlockLedger) (live : List ℕ) : Prop :=
  (l.freed ++ live).Perm (List.range l.next)

/-- **Every block that was handed out was freed exactly once**, and no other. -/
def Settled (l : BlockLedger) : Prop := ∀ block, l.freed.count block = if block < l.next then 1 else 0

variable {l : BlockLedger} {live live' : List ℕ} {block : ℕ}

theorem owns_empty : empty.Owns [] := List.Perm.refl _

theorem Owns.perm (h : l.Owns live) (hperm : live.Perm live') : l.Owns live' :=
  (hperm.append_left l.freed).symm.trans h

theorem Owns.acquire (h : l.Owns live) : l.acquire.Owns (l.next :: live) := by
  -- the new id comes last in the range and first among the live blocks
  show (l.freed ++ l.next :: live).Perm (List.range (l.next + 1))
  rw [List.range_succ]
  exact List.perm_middle.trans ((h.cons l.next).trans (List.perm_append_singleton _ _).symm)

theorem Owns.release (h : l.Owns (block :: live)) : (l.release block).Owns live := by
  show (l.freed ++ [block] ++ live).Perm (List.range l.next)
  rwa [List.append_assoc, List.singleton_append]

theorem Owns.free {block : Option ℕ} (h : l.Owns (block.toList ++ live)) :
    (l.free block).Owns live := by
  cases block with
  | none => exact h
  | some block => exact h.release

/-- A loop that frees one block after the other. -/
theorem Owns.foldl_free {blocks : List (Option ℕ)} (h : l.Owns (blocks.reduceOption ++ live)) :
    (blocks.foldl BlockLedger.free l).Owns live := by
  induction blocks generalizing l with
  | nil => exact h
  | cons block blocks ih =>
    apply ih
    apply Owns.free
    cases block with
    | none => exact h
    | some block => exact h

/-- **With nothing left to free the ledger is settled.** -/
theorem Owns.settled (h : l.Owns []) : l.Settled := by
  intro block
  rw [Owns, List.append_nil] at h
  rw [h.count_eq]
  -- a range has each number below its end once
  split_ifs with hlt
  · exact List.count_eq_one_of_mem List.nodup_range (List.mem_range.mpr hlt)
  · exact List.count_eq_zero_of_not_mem fun hmem => hlt (List.mem_range.mp hmem)

end BlockLedger

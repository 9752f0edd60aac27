import Mathlib

/-!
# Relaxed atomics and what threads owe

A relaxed load may return any value the cell has held, while a read-modify-write acts on the newest
one. So a cell is its history, and the environment chooses what a load sees. Where all threads have
been waited for, older values can no longer be seen.

Threads that are on their way through a fixed sequence of additions owe what they have not added
yet. What a cell holds together with what is owed to it does not depend on the schedule.

## Main definitions

* `History`: the values of a cell, newest first
* `History.Rising`: no value is above the newest

## Main results

* `History.Rising.read_le`: a load of a rising cell is never ahead of it
* `sum_move`: a thread that moves and pays what it owed changes no balance
-/

namespace Machine

/-- The values a cell has held; there is always a newest one. -/
structure History (α : Type*) where
  newest : α
  older : List α

namespace History

variable {α β : Type*} {h : History α} {key : α → β}

/-- A relaxed load: the environment chooses which value is seen. -/
def read (h : History α) (i : ℕ) : Option α := (h.newest :: h.older)[i]?

/-- A store, or the store of a read-modify-write. -/
def write (h : History α) (a : α) : History α := ⟨a, h.newest :: h.older⟩

/-- What can be seen once all threads have been waited for. -/
def settle (h : History α) : History α := ⟨h.newest, []⟩

@[simp] theorem newest_write (h : History α) (a : α) : (h.write a).newest = a := rfl

@[simp] theorem newest_settle (h : History α) : h.settle.newest = h.newest := rfl

/-- No value of the cell is above the newest. -/
def Rising [LE β] (key : α → β) (h : History α) : Prop :=
  ∀ a ∈ h.older, key a ≤ key h.newest

section Preorder

variable [Preorder β]

/-- **A load of a rising cell may be late, but it is never ahead.** -/
theorem Rising.read_le (hrise : h.Rising key) {i : ℕ} {a : α} (hread : h.read i = some a) :
    key a ≤ key h.newest := by
  have hmem : a ∈ h.newest :: h.older := List.mem_of_getElem? hread
  rcases List.mem_cons.mp hmem with rfl | hold
  · exact le_rfl
  · exact hrise a hold

theorem Rising.write (hrise : h.Rising key) {a : α} (hle : key h.newest ≤ key a) :
    (h.write a).Rising key := by
  intro b hb
  rcases List.mem_cons.mp hb with rfl | hold
  · exact hle
  · exact (hrise b hold).trans hle

theorem rising_settle (h : History α) : h.settle.Rising key := by
  intro a ha
  exact absurd ha List.not_mem_nil

end Preorder

end History

section Threads

variable {T M : Type*} [AddCommMonoid M] {ts : List T} {t : T} {i : ℕ}

theorem perm_of_getElem? (hget : ts[i]? = some t) : ts.Perm (t :: ts.eraseIdx i) := by
  obtain ⟨hlt, rfl⟩ := List.getElem?_eq_some_iff.mp hget
  exact (List.getElem_cons_eraseIdx_perm hlt).symm

/-- **Conservation**: if the thread that moves pays into the cell what it owes less afterwards, the
cell and all that is owed to it together stay as they were. -/
theorem sum_move (owes : T → M) {held held' : M} {next : Option T} (hget : ts[i]? = some t)
    (hpay : held' + (next.toList.map owes).sum = held + owes t) :
    held' + ((next.toList ++ ts.eraseIdx i).map owes).sum = held + (ts.map owes).sum := by
  have hperm := ((perm_of_getElem? hget).map owes).sum_eq
  rw [hperm, List.map_cons, List.sum_cons, List.map_append, List.sum_append, ← add_assoc, hpay,
    add_assoc]

end Threads

end Machine

import Wirecall.Memory.Linked

/-!
# Intrusive queues

A queue whose cells carry the link to the next one. The queue has pointers to its first and its last
cell; a cell is appended by writing the link of the last one.

## Main definitions

* `Fifo`, `Fifo.push`, `Fifo.pop`: the queue
* `Fifo.Holds q xs`: the cells of the queue are `xs`, in order

## Main results

* `Fifo.Holds.push`: a cell that is not in the queue goes to its end
* `Fifo.Holds.pop`: the first cell is taken
-/

variable {α : Type*}

/-- Pointers to the first and the last cell, and the links. -/
structure Fifo (α : Type*) where
  head : Option α
  tail : Option α
  next : α → Option α

namespace Fifo

/-- A cell is appended. -/
def push [DecidableEq α] (q : Fifo α) (x : α) : Fifo α :=
  let next := Function.update q.next x none
  match q.tail with
  | some last => ⟨q.head, some x, Function.update next last (some x)⟩
  | none => ⟨some x, some x, next⟩

/-- The first cell is taken. -/
def pop [DecidableEq α] (q : Fifo α) : Option (α × Fifo α) :=
  match q.head with
  | none => none
  | some x =>
    some (x, ⟨q.next x, if q.next x = none then none else q.tail, Function.update q.next x none⟩)

/-- **The cells of the queue, in order.** -/
structure Holds (q : Fifo α) (xs : List α) : Prop where
  linked : Linked q.next q.head xs
  tail : q.tail = xs.getLast?

variable {q : Fifo α} {x : α} {xs : List α}

theorem Holds.congr {next : α → Option α} (h : q.Holds xs) (hagree : ∀ x ∈ xs, next x = q.next x) :
    Fifo.Holds ⟨q.head, q.tail, next⟩ xs := ⟨h.linked.congr hagree, h.tail⟩

variable [DecidableEq α]

/-- **A cell that is not in the queue goes to its end.** -/
theorem Holds.push (h : q.Holds xs) (hx : x ∉ xs) : (q.push x).Holds (xs ++ [x]) := by
  unfold Fifo.push
  rcases List.eq_nil_or_concat xs with rfl | ⟨front, last, rfl⟩
  · have htail : q.tail = none := h.tail
    rw [htail]
    dsimp only
    refine ⟨?_, rfl⟩
    apply Linked.cons
    dsimp only
    rw [Function.update_self]
    exact .nil
  · rw [List.concat_eq_append] at h hx ⊢
    have htail : q.tail = some last := by
      rw [h.tail]
      simp
    rw [htail]
    dsimp only
    refine ⟨?_, by simp⟩
    have hlast : last ∉ front := by
      have hnodup := h.linked.nodup
      rw [List.nodup_append'] at hnodup
      exact fun hmem => hnodup.2.2 hmem List.mem_cons_self
    have hne : x ≠ last := by
      rintro rfl
      exact hx (by simp)
    rw [List.append_assoc]
    -- only the links of the last cell and of the new one are written
    refine h.linked.snoc (fun y hy => ?_) ?_ ?_ <;> dsimp only
    · have hyx : y ≠ x := by
        rintro rfl
        exact hx (List.mem_append_left _ hy)
      rw [Function.update_of_ne (ne_of_mem_of_not_mem hy hlast), Function.update_of_ne hyx]
    · rw [Function.update_self]
    · rw [Function.update_of_ne hne, Function.update_self]

theorem Holds.pop_nil (h : q.Holds []) : q.pop = none := by
  have hhead : q.head = none := h.linked.head_eq
  rw [Fifo.pop, hhead]

/-- **The first cell is taken.** -/
theorem Holds.pop (h : q.Holds (x :: xs)) : ∃ q', q.pop = some (x, q') ∧ q'.Holds xs := by
  obtain ⟨hhead, htail⟩ := h.linked.cons_inv
  have hx : x ∉ xs := (List.nodup_cons.mp h.linked.nodup).1
  refine ⟨_, by rw [Fifo.pop, hhead], htail.congr fun y hy => ?_, ?_⟩
  · exact Function.update_of_ne (ne_of_mem_of_not_mem hy hx) _ _
  · show (if q.next x = none then none else q.tail) = xs.getLast?
    rw [htail.head_eq, h.tail]
    cases xs with
    | nil => rfl
    | cons y xs => simp

end Fifo

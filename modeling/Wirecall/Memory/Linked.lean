import Mathlib

/-!
# Null-terminated lists

Cells are linked by a successor function, and `none` is the null pointer. A chain that ends in null
visits no cell twice, and it is determined by its first cell.

## Main definitions

* `Linked next head xs`: from `head` the links lead through `xs` to null

## Main results

* `Linked.congr`: only the links of the cells in the chain matter
* `Linked.unique`: a chain is determined by its first cell
* `Linked.snoc`: a cell is linked to the last one
* `Linked.nodup`: a chain visits no cell twice
-/

variable {α : Type*} {next next' : α → Option α} {head : Option α} {p : α} {xs ys : List α}

/-- From `head` the links lead through `xs` to null. -/
inductive Linked (next : α → Option α) : Option α → List α → Prop
  | nil : Linked next none []
  | cons {p : α} {xs : List α} (h : Linked next (next p) xs) : Linked next (some p) (p :: xs)

namespace Linked

theorem cons_inv (h : Linked next head (p :: xs)) : head = some p ∧ Linked next (next p) xs := by
  cases h with
  | cons htail => exact ⟨rfl, htail⟩

theorem head_eq (h : Linked next head xs) : head = xs.head? := by
  cases h with
  | nil => rfl
  | cons _ => rfl

/-- **Only the links of the cells in the chain matter.** -/
theorem congr (h : Linked next head xs) (hagree : ∀ x ∈ xs, next' x = next x) :
    Linked next' head xs := by
  induction h with
  | nil => exact .nil
  | cons htail ih =>
    obtain ⟨hfirst, hrest⟩ := List.forall_mem_cons.mp hagree
    apply Linked.cons
    rw [hfirst]
    exact ih hrest

theorem unique (h : Linked next head xs) (h' : Linked next head ys) : xs = ys := by
  induction h generalizing ys with
  | nil =>
    cases h'
    rfl
  | cons _ ih =>
    cases h' with
    | cons htail' => rw [ih htail']

/-- A cell is linked to the last one. -/
theorem snoc {last x : α} (h : Linked next head (xs ++ [last]))
    (hagree : ∀ y ∈ xs, next' y = next y) (hlast : next' last = some x) (hx : next' x = none) :
    Linked next' head (xs ++ [last, x]) := by
  induction xs generalizing head with
  | nil =>
    obtain ⟨rfl, -⟩ := h.cons_inv
    apply Linked.cons
    rw [hlast]
    apply Linked.cons
    rw [hx]
    exact .nil
  | cons y xs ih =>
    obtain ⟨rfl, htail⟩ := h.cons_inv
    obtain ⟨hfirst, hrest⟩ := List.forall_mem_cons.mp hagree
    apply Linked.cons
    rw [hfirst]
    exact ih htail hrest

/-- Every cell of a chain is the start of the rest of it. -/
theorem suffix (h : Linked next head xs) (hp : p ∈ xs) :
    ∃ rest, Linked next (some p) rest ∧ rest <:+ xs := by
  induction h with
  | nil => exact absurd hp List.not_mem_nil
  | @cons q xs htail ih =>
    rcases List.mem_cons.mp hp with rfl | hp
    · exact ⟨_, .cons htail, List.suffix_rfl⟩
    · obtain ⟨rest, hrest, hsuffix⟩ := ih hp
      exact ⟨rest, hrest, hsuffix.trans (List.suffix_cons q xs)⟩

/-- **A chain visits no cell twice**: from a cell that came again the chain would be longer than
itself. -/
theorem nodup (h : Linked next head xs) : xs.Nodup := by
  induction h with
  | nil => exact List.nodup_nil
  | @cons p xs htail ih =>
    refine List.nodup_cons.mpr ⟨?_, ih⟩
    intro hp
    obtain ⟨rest, hrest, hsuffix⟩ := htail.suffix hp
    have hlen := hsuffix.length_le
    rw [← (Linked.cons htail).unique hrest, List.length_cons] at hlen
    omega

end Linked

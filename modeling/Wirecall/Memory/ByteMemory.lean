import Wirecall.Memory.Linked
import Wirecall.Stream.BigEndian

/-!
# Memory as bytes

A memory maps addresses to bytes. Pointers are words of eight bytes, and the address 0 is the null
pointer. Which end of a word comes first is not seen, as long as words are only read back.

## Main definitions

* `load`, `store`: a word at an address
* `clear`: a range of zeros
* `link`: the successor of a cell that starts with a pointer

## Main results

* `load_store_self`, `load_store_of_disjoint`: what a store does to the words of a memory
* `load_clear_of_disjoint`, `load_update_of_not_mem`: what leaves a word alone
-/

/-- A memory of bytes. -/
abbrev ByteMemory := ℕ → UInt8

namespace ByteMemory

variable {m : ByteMemory} {p q v n : ℕ}

/-- The word of eight bytes at an address. -/
def load (m : ByteMemory) (p : ℕ) : ℕ := BigEndian.value ((List.range 8).map fun i => m (p + i))

/-- A word is written. -/
def store (m : ByteMemory) (p v : ℕ) : ByteMemory :=
  fun a => if p ≤ a ∧ a < p + 8 then (BigEndian.encode 8 v).getD (a - p) 0 else m a

/-- `memset` with zero. -/
def clear (m : ByteMemory) (p n : ℕ) : ByteMemory := fun a => if p ≤ a ∧ a < p + n then 0 else m a

/-- A pointer, or null. -/
def pointer (v : ℕ) : Option ℕ := if v = 0 then none else some v

/-- The successor of a cell that starts with a pointer. -/
def link (m : ByteMemory) (p : ℕ) : Option ℕ := pointer (m.load p)

theorem pointer_eq_none : pointer v = none ↔ v = 0 := by
  unfold pointer
  split_ifs with h <;> simp [h]

theorem pointer_eq_some : pointer v = some p ↔ v = p ∧ p ≠ 0 := by
  unfold pointer
  split_ifs with h
  · constructor
    · intro hnone
      cases hnone
    · rintro ⟨rfl, hne⟩
      exact absurd h hne
  · constructor
    · intro hsome
      cases hsome
      exact ⟨rfl, h⟩
    · rintro ⟨rfl, -⟩
      rfl

/-- A word is read from its eight bytes. -/
theorem load_congr {m' : ByteMemory} (h : ∀ a, p ≤ a → a < p + 8 → m' a = m a) :
    m'.load p = m.load p := by
  unfold load
  congr 1
  refine List.map_congr_left ?_
  intro i hi
  have hlt := List.mem_range.mp hi
  exact h _ (by omega) (by omega)

theorem load_store_self (hv : v < 2 ^ 64) : (m.store p v).load p = v := by
  -- the eight bytes at the address are those of the word
  have hbytes : (List.range 8).map (fun i => m.store p v (p + i)) = BigEndian.encode 8 v := by
    apply List.ext_getElem
    · rw [List.length_map, List.length_range, BigEndian.length_encode]
    · intro i hi hi'
      rw [List.length_map, List.length_range] at hi
      rw [List.getElem_map, List.getElem_range, store, if_pos (by omega), Nat.add_sub_cancel_left,
        List.getD_eq_getElem _ _ hi']
  rw [load, hbytes, BigEndian.value_encode]
  exact Nat.mod_eq_of_lt hv

theorem load_store_of_disjoint (h : p + 8 ≤ q ∨ q + 8 ≤ p) : (m.store p v).load q = m.load q := by
  apply load_congr
  intro a hle hlt
  exact if_neg (by omega)

theorem load_clear_of_disjoint (h : p + n ≤ q ∨ q + 8 ≤ p) : (m.clear p n).load q = m.load q := by
  apply load_congr
  intro a hle hlt
  exact if_neg (by omega)

theorem load_update_of_not_mem {a : ℕ} {b : UInt8} (h : a < q ∨ q + 8 ≤ a) :
    load (Function.update m a b) q = m.load q := by
  apply load_congr
  intro a' hle hlt
  exact Function.update_of_ne (by omega) _ _

theorem clear_apply (h : p ≤ q) (hlt : q < p + n) : m.clear p n q = 0 := if_pos ⟨h, hlt⟩

end ByteMemory

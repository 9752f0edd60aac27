import Mathlib

/-!
# Fixed arenas

`wirecall_fixed_arena` of `arena.h`: `capacity` slots, of which the first `watermark` have been
handed out at least once, and the list of those that were given back. A slot is its number.

## Main definitions

* `Arena`, `Arena.alloc`, `Arena.free`: the arena
* `Arena.Live`: a slot that is handed out
* `Arena.WellFormed`: what holds as long as only live slots are freed

## Main results

* `Arena.WellFormed.alloc`, `Arena.WellFormed.free`: both operations keep it
* `Arena.live_alloc`, `Arena.live_free`: what they do to the live slots
-/

namespace Wirecall

/-- `wirecall_fixed_arena`. The free list starts with the slot that is handed out next. -/
structure Arena where
  capacity : ℕ
  watermark : ℕ
  freeList : List ℕ
  deriving DecidableEq, Repr

namespace Arena

/-- `wirecall_fixed_arena_init`. -/
def init (capacity : ℕ) : Arena := ⟨capacity, 0, []⟩

/-- `wirecall_fixed_arena_alloc`. -/
def alloc (a : Arena) : Option (ℕ × Arena) :=
  match a.freeList with
  | s :: rest => some (s, { a with freeList := rest })
  | [] =>
    if a.watermark < a.capacity then some (a.watermark, { a with watermark := a.watermark + 1 })
    else none

/-- `wirecall_fixed_arena_free`. -/
def free (a : Arena) (s : ℕ) : Arena := { a with freeList := s :: a.freeList }

/-- The slot is handed out. -/
def Live (a : Arena) (s : ℕ) : Prop := s < a.watermark ∧ s ∉ a.freeList

instance (a : Arena) (s : ℕ) : Decidable (a.Live s) := inferInstanceAs (Decidable (_ ∧ _))

/-- The free list holds slots below the watermark, each once. -/
structure WellFormed (a : Arena) : Prop where
  nodup : a.freeList.Nodup
  lt_watermark : ∀ s ∈ a.freeList, s < a.watermark
  watermark_le : a.watermark ≤ a.capacity

variable {a a' : Arena} {s : ℕ}

theorem wellFormed_init (capacity : ℕ) : (init capacity).WellFormed :=
  ⟨List.nodup_nil, by simp [init], Nat.zero_le _⟩

theorem not_live_init (capacity s : ℕ) : ¬ (init capacity).Live s := by
  simp [init, Live]

/-- A slot is handed out from the free list, or from above the watermark. -/
theorem alloc_eq_some (h : a.alloc = some (s, a')) :
    (∃ rest, a.freeList = s :: rest ∧ a' = { a with freeList := rest }) ∨
      (a.freeList = [] ∧ s = a.watermark ∧ a.watermark < a.capacity ∧
        a' = { a with watermark := a.watermark + 1 }) := by
  unfold alloc at h
  split at h
  · rename_i t rest hlist
    cases h
    exact .inl ⟨rest, hlist, rfl⟩
  · rename_i hlist
    split_ifs at h with hlt
    cases h
    exact .inr ⟨hlist, rfl, hlt, rfl⟩

/-- **A slot that is handed out was not live, and is afterwards.** -/
theorem live_alloc (ha : a.WellFormed) (h : a.alloc = some (s, a')) :
    ¬ a.Live s ∧ ∀ t, a'.Live t ↔ t = s ∨ a.Live t := by
  rcases alloc_eq_some h with ⟨rest, hlist, rfl⟩ | ⟨hlist, rfl, hlt, rfl⟩
  · have hnodup := hlist ▸ ha.nodup
    have hs : s < a.watermark := ha.lt_watermark s (by simp [hlist])
    refine ⟨fun hlive => hlive.2 (by simp [hlist]), fun t => ?_⟩
    simp only [Live, hlist, List.mem_cons, not_or]
    refine ⟨?_, ?_⟩
    · rintro ⟨ht, hrest⟩
      by_cases hts : t = s
      · exact .inl hts
      · exact .inr ⟨ht, hts, hrest⟩
    · rintro (rfl | ⟨ht, -, hrest⟩)
      · exact ⟨hs, (List.nodup_cons.mp hnodup).1⟩
      · exact ⟨ht, hrest⟩
  · refine ⟨fun hlive => lt_irrefl _ hlive.1, fun t => ?_⟩
    simp only [Live, hlist, List.not_mem_nil, not_false_eq_true, and_true]
    omega

theorem WellFormed.alloc (ha : a.WellFormed) (h : a.alloc = some (s, a')) : a'.WellFormed := by
  rcases alloc_eq_some h with ⟨rest, hlist, rfl⟩ | ⟨hlist, rfl, hlt, rfl⟩
  · have hnodup := hlist ▸ ha.nodup
    exact ⟨(List.nodup_cons.mp hnodup).2,
      fun t ht => ha.lt_watermark t (by simp [hlist, ht]), ha.watermark_le⟩
  · exact ⟨ha.nodup, fun t ht => (ha.lt_watermark t ht).trans (Nat.lt_succ_self _), hlt⟩

/-- **A slot that is freed is the only one that stops being live.** -/
theorem live_free (a : Arena) (s t : ℕ) : (a.free s).Live t ↔ a.Live t ∧ t ≠ s := by
  simp only [Live, free, List.mem_cons, not_or]
  refine ⟨?_, ?_⟩
  · rintro ⟨ht, hts, hfree⟩
    exact ⟨⟨ht, hfree⟩, hts⟩
  · rintro ⟨⟨ht, hfree⟩, hts⟩
    exact ⟨ht, hts, hfree⟩

theorem WellFormed.free (ha : a.WellFormed) (hs : a.Live s) : (a.free s).WellFormed where
  nodup := List.nodup_cons.mpr ⟨hs.2, ha.nodup⟩
  lt_watermark := by
    intro t ht
    rcases List.mem_cons.mp ht with rfl | ht
    · exact hs.1
    · exact ha.lt_watermark t ht
  watermark_le := ha.watermark_le

end Arena

end Wirecall

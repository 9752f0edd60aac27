import Wirecall.Machine.Run
import Wirecall.Memory.ByteMemory
import Wirecall.Memory.FixedArena

/-!
# Fixed arenas in memory

`wirecall_fixed_arena` keeps its free list in the freed slots themselves: the first word of a free slot
is the pointer to the next one. Here the arena works on a memory of bytes, and it is shown to behave
as the `Arena` of `Memory.FixedArena`, whose slots are numbers, as long as only live slots are freed
and nobody writes to a slot that is not live.

## Main definitions

* `FixedArena`, `fixedArenaInit`, `fixedArenaAlloc`, `fixedArenaFree`: the functions of `arena.h`
* `ArenaRun`, `ArenaOp`, `ArenaRun.step`: any sequence of calls, with writes by their callers
* `ArenaRun.Refines`: the memory holds the free list of an `Arena`

## Main results

* `Refines.alloc`, `Refines.free`, `Refines.write`: every operation keeps to the `Arena`
* `fixed_arena_sound`: **live and free slots share the first `watermark` slots between them**
-/

namespace Wirecall

/-! ## The functions -/

/-- `wirecall_arena_align`, with pointers of eight bytes: the low three bits are cleared. -/
def arenaAlign (n : ℕ) : ℕ := (n + 8 - 1) % 2 ^ 64 &&& (2 ^ 64 - 1 - (8 - 1))

/-- `wirecall_fixed_arena`; pointers are addresses. -/
structure FixedArena where
  base : ℕ
  elemSize : ℕ
  capacity : ℕ
  watermark : ℕ
  bytes : ℕ
  freeList : ℕ
deriving DecidableEq

/-- `wirecall_fixed_arena_init`; `pages` is the answer of `wirecall_pages_alloc` to a request. -/
def fixedArenaInit (pages : ℕ → ℕ) (elemSize capacity : ℕ) : Option FixedArena :=
  let elemSize := arenaAlign (if elemSize < 8 then 8 else elemSize)
  let bytes := elemSize * capacity % 2 ^ 64
  let base := pages bytes
  if base = 0 then none
  else some ⟨base, elemSize, capacity, 0, bytes, 0⟩

/-- `wirecall_fixed_arena_alloc`. -/
def fixedArenaAlloc (a : FixedArena) (m : ByteMemory) : ℕ × FixedArena × ByteMemory :=
  let (p, a) :=
    if a.freeList ≠ 0 then (a.freeList, { a with freeList := m.load a.freeList })
    else if a.watermark < a.capacity then
      ((a.base + a.watermark * a.elemSize) % 2 ^ 64, { a with watermark := a.watermark + 1 })
    else (0, a)
  (p, a, if p ≠ 0 then m.clear p a.elemSize else m)

/-- `wirecall_fixed_arena_free`. -/
def fixedArenaFree (a : FixedArena) (m : ByteMemory) (p : ℕ) : FixedArena × ByteMemory :=
  if p = 0 then (a, m) else ({ a with freeList := p }, m.store p a.freeList)

/-! ## Sequences of calls -/

/-- The arena in its memory, and the slots that were handed out and not given back. -/
structure ArenaRun where
  arena : FixedArena
  mem : ByteMemory
  live : List ℕ

/-- A call, or a write by a caller. -/
inductive ArenaOp where
  | alloc
  | free (p : ℕ)
  | write (address : ℕ) (byte : UInt8)

/-- The address is in the slot at `p`. -/
def FixedArena.InSlot (a : FixedArena) (p address : ℕ) : Prop := p ≤ address ∧ address < p + a.elemSize

instance (a : FixedArena) (p address : ℕ) : Decidable (a.InSlot p address) :=
  inferInstanceAs (Decidable (_ ∧ _))

/-- A caller may write outside of the arena, and to the slots it holds. -/
def ArenaRun.MayWrite (s : ArenaRun) (address : ℕ) : Prop :=
  address < s.arena.base ∨ s.arena.base + s.arena.bytes ≤ address ∨
    ∃ p ∈ s.live, s.arena.InSlot p address

instance (s : ArenaRun) (address : ℕ) : Decidable (s.MayWrite address) :=
  inferInstanceAs (Decidable (_ ∨ _ ∨ _))

/-- One operation; only live slots are freed. -/
def ArenaRun.step (s : ArenaRun) : ArenaOp → Option ArenaRun
  | .alloc =>
    match fixedArenaAlloc s.arena s.mem with
    | (p, arena, mem) => some ⟨arena, mem, if p ≠ 0 then p :: s.live else s.live⟩
  | .free p =>
    if p ∈ s.live then
      match fixedArenaFree s.arena s.mem p with
      | (arena, mem) => some ⟨arena, mem, s.live.erase p⟩
    else none
  | .write address byte =>
    if s.MayWrite address then some { s with mem := Function.update s.mem address byte } else none

/-! ## Where the slots are -/

/-- The address of a slot. -/
def FixedArena.slot (a : FixedArena) (k : ℕ) : ℕ := a.base + k * a.elemSize

/-- What the pages of an arena are: they are not at address zero, they lie in the address space, and a
slot has room for a pointer. -/
structure FixedArena.Placed (a : FixedArena) : Prop where
  base_pos : 0 < a.base
  bytes_eq : a.bytes = a.elemSize * a.capacity
  end_le : a.base + a.elemSize * a.capacity ≤ 2 ^ 64
  size_ge : 0 < a.capacity → 8 ≤ a.elemSize

/-- The pages that `wirecall_pages_alloc` hands out lie in the address space. -/
def PagesInSpace (pages : ℕ → ℕ) : Prop := ∀ bytes, pages bytes ≠ 0 → pages bytes + bytes ≤ 2 ^ 64

theorem arenaAlign_eq (n : ℕ) : arenaAlign n = (n + 7) % 2 ^ 64 / 8 * 8 := by
  -- compare the bits: the mask has all from the third on
  have hmask : 2 ^ 64 - 1 - (8 - 1) = (2 ^ 61 - 1) <<< 3 := by decide
  rw [arenaAlign, hmask]
  have hlt : (n + 8 - 1) % 2 ^ 64 < 2 ^ 64 := Nat.mod_lt _ (by decide)
  rw [show n + 8 - 1 = n + 7 from rfl] at hlt ⊢
  generalize (n + 7) % 2 ^ 64 = x at hlt
  rw [show x / 8 * 8 = (x >>> 3) <<< 3 by rw [Nat.shiftLeft_eq, Nat.shiftRight_eq_div_pow]]
  apply Nat.eq_of_testBit_eq
  intro i
  rw [Nat.testBit_and, Nat.testBit_shiftLeft, Nat.testBit_shiftLeft, Nat.testBit_two_pow_sub_one,
    Nat.testBit_shiftRight]
  by_cases hi : 3 ≤ i
  · rw [show 3 + (i - 3) = i by omega]
    by_cases hbit : i < 64
    · simp [hi, show i - 3 < 61 by omega]
    · rw [Nat.testBit_lt_two_pow (lt_of_lt_of_le hlt (Nat.pow_le_pow_right (by decide) (by omega)))]
      simp
  · simp [hi]

/-- The size of an element, at least that of a pointer, rounded up to whole pointers. -/
def slotSize (elemSize : ℕ) : ℕ := ((if elemSize < 8 then 8 else elemSize) + 7) / 8 * 8

/-- An arena whose slots fit `size_t` lies in the pages it was given. -/
theorem placed_of_fixedArenaInit {pages : ℕ → ℕ} {elemSize capacity : ℕ} {a : FixedArena}
    (hpages : PagesInSpace pages) (hfits : slotSize elemSize * capacity < 2 ^ 64)
    (h : fixedArenaInit pages elemSize capacity = some a) :
    a.Placed ∧ a.capacity = capacity ∧ a.watermark = 0 ∧ a.freeList = 0 := by
  unfold fixedArenaInit at h
  unfold slotSize at hfits
  simp only [arenaAlign_eq] at h
  have hge : 8 ≤ if elemSize < 8 then 8 else elemSize := by split_ifs <;> omega
  generalize (if elemSize < 8 then 8 else elemSize) = size at h hfits hge
  -- the rounding wraps only for sizes that leave no room for a slot
  have hround : 0 < capacity → (size + 7) % 2 ^ 64 / 8 * 8 = (size + 7) / 8 * 8 := by
    intro hpos
    have hlt : (size + 7) / 8 * 8 < 2 ^ 64 := lt_of_le_of_lt (Nat.le_mul_of_pos_right _ hpos) hfits
    rw [Nat.mod_eq_of_lt (by omega)]
  have hbytes : (size + 7) % 2 ^ 64 / 8 * 8 * capacity < 2 ^ 64 := by
    rcases Nat.eq_zero_or_pos capacity with rfl | hpos
    · exact Nat.two_pow_pos 64
    · rwa [hround hpos]
  rw [Nat.mod_eq_of_lt hbytes] at h
  by_cases hnull : pages ((size + 7) % 2 ^ 64 / 8 * 8 * capacity) = 0
  · rw [if_pos hnull] at h
    cases h
  · rw [if_neg hnull] at h
    cases h
    refine ⟨⟨Nat.pos_of_ne_zero hnull, rfl, hpages _ hnull, ?_⟩, rfl, rfl, rfl⟩
    intro hpos
    show 8 ≤ (size + 7) % 2 ^ 64 / 8 * 8
    rw [hround hpos]
    omega

section Slots

variable {a : FixedArena} {j k : ℕ}

/-- The pages stay where they are. -/
theorem FixedArena.Placed.update (h : a.Placed) (watermark freeList : ℕ) :
    { a with watermark := watermark, freeList := freeList }.Placed :=
  ⟨h.base_pos, h.bytes_eq, h.end_le, h.size_ge⟩

/-- A slot lies in the pages of the arena. -/
theorem FixedArena.slot_end (a : FixedArena) (hk : k < a.capacity) :
    a.slot k + a.elemSize ≤ a.base + a.elemSize * a.capacity := by
  calc a.slot k + a.elemSize = a.base + a.elemSize * (k + 1) := by unfold FixedArena.slot; ring
    _ ≤ a.base + a.elemSize * a.capacity := by gcongr; omega

theorem FixedArena.Placed.slot_pos (h : a.Placed) (k : ℕ) : 0 < a.slot k :=
  lt_of_lt_of_le h.base_pos (Nat.le_add_right _ _)

theorem FixedArena.Placed.slot_lt (h : a.Placed) (hk : k < a.capacity) : a.slot k < 2 ^ 64 := by
  have hend := a.slot_end hk
  have hsize := h.size_ge (by omega)
  have hspace := h.end_le
  omega

/-- Two slots do not overlap. -/
theorem FixedArena.slot_disjoint (a : FixedArena) (hne : j ≠ k) :
    a.slot j + a.elemSize ≤ a.slot k ∨ a.slot k + a.elemSize ≤ a.slot j := by
  unfold FixedArena.slot
  rcases Nat.lt_or_gt_of_ne hne with hlt | hlt
  · left
    calc a.base + j * a.elemSize + a.elemSize = a.base + (j + 1) * a.elemSize := by ring
      _ ≤ a.base + k * a.elemSize := by gcongr; omega
  · right
    calc a.base + k * a.elemSize + a.elemSize = a.base + (k + 1) * a.elemSize := by ring
      _ ≤ a.base + j * a.elemSize := by gcongr; omega

theorem FixedArena.Placed.slot_inj (h : a.Placed) (hj : j < a.capacity) (heq : a.slot j = a.slot k) :
    j = k := by
  have hsize := h.size_ge (by omega)
  by_contra hne
  have hdisjoint := a.slot_disjoint hne
  omega

end Slots

/-! ## The memory holds an arena -/

/-- **The memory holds the free list of an `Arena`**, and the live slots are those of the arena. -/
structure ArenaRun.Refines (s : ArenaRun) (abs : Arena) : Prop where
  placed : s.arena.Placed
  wellFormed : abs.WellFormed
  capacity_eq : abs.capacity = s.arena.capacity
  watermark_eq : abs.watermark = s.arena.watermark
  linked : Linked s.mem.link (ByteMemory.pointer s.arena.freeList) (abs.freeList.map s.arena.slot)
  live_nodup : s.live.Nodup
  mem_live : ∀ p, p ∈ s.live ↔ ∃ k, abs.Live k ∧ p = s.arena.slot k

section Refines

variable {s : ArenaRun} {abs : Arena} {k : ℕ}

theorem ArenaRun.Refines.lt_capacity (h : s.Refines abs) (hk : k < abs.watermark) :
    k < s.arena.capacity := by
  rw [← h.capacity_eq]
  exact lt_of_lt_of_le hk h.wellFormed.watermark_le

theorem ArenaRun.Refines.free_lt (h : s.Refines abs) (hk : k ∈ abs.freeList) :
    k < s.arena.capacity :=
  h.lt_capacity (h.wellFormed.lt_watermark k hk)

/-- A memory that has the same words at the free slots holds the same list. -/
theorem ArenaRun.Refines.linked_congr {m : ByteMemory} {head : Option ℕ} {slots : List ℕ}
    (h : Linked s.mem.link head (slots.map s.arena.slot))
    (hsame : ∀ j ∈ slots, m.load (s.arena.slot j) = s.mem.load (s.arena.slot j)) :
    Linked m.link head (slots.map s.arena.slot) := by
  apply h.congr
  intro p hp
  obtain ⟨j, hj, rfl⟩ := List.mem_map.mp hp
  rw [ByteMemory.link, ByteMemory.link, hsame j hj]

/-- A slot that is handed out is live from then on. -/
theorem ArenaRun.Refines.live_cons {abs' : Arena} (h : s.Refines abs)
    (halloc : abs.alloc = some (k, abs')) (hk : k < s.arena.capacity) :
    (s.arena.slot k :: s.live).Nodup ∧
      ∀ p, p ∈ s.arena.slot k :: s.live ↔ ∃ j, abs'.Live j ∧ p = s.arena.slot j := by
  obtain ⟨hnew, hlive⟩ := Arena.live_alloc h.wellFormed halloc
  constructor
  · refine List.nodup_cons.mpr ⟨?_, h.live_nodup⟩
    intro hmem
    obtain ⟨j, hj, heq⟩ := (h.mem_live _).mp hmem
    rw [h.placed.slot_inj hk heq] at hnew
    exact hnew hj
  · intro p
    rw [List.mem_cons, h.mem_live]
    constructor
    · rintro (rfl | ⟨j, hj, rfl⟩)
      · exact ⟨k, (hlive k).mpr (.inl rfl), rfl⟩
      · exact ⟨j, (hlive j).mpr (.inr hj), rfl⟩
    · rintro ⟨j, hj, rfl⟩
      rcases (hlive j).mp hj with rfl | hj
      · exact .inl rfl
      · exact .inr ⟨j, hj, rfl⟩

/-- What an allocation comes to: none is left and nothing changes, or a slot of the arena is handed
out, full of zeros. -/
theorem ArenaRun.Refines.alloc (h : s.Refines abs) :
    (abs.alloc = none ∧ fixedArenaAlloc s.arena s.mem = (0, s.arena, s.mem)) ∨
      ∃ k abs' arena, abs.alloc = some (k, abs') ∧ s.arena.slot k ≠ 0 ∧
        fixedArenaAlloc s.arena s.mem =
          (s.arena.slot k, arena, s.mem.clear (s.arena.slot k) s.arena.elemSize) ∧
        ArenaRun.Refines ⟨arena, s.mem.clear (s.arena.slot k) s.arena.elemSize,
          s.arena.slot k :: s.live⟩ abs' := by
  have hlinked := h.linked
  cases hfree : abs.freeList with
  | cons k rest =>
    -- the first free slot is handed out, and its first word is the rest of the list
    right
    rw [hfree, List.map_cons] at hlinked
    obtain ⟨hhead, htail⟩ := hlinked.cons_inv
    obtain ⟨hptr, hne⟩ := ByteMemory.pointer_eq_some.mp hhead
    have hk : k < s.arena.capacity := h.free_lt (by rw [hfree]; exact List.mem_cons_self)
    have hsize := h.placed.size_ge (by omega)
    have halloc : abs.alloc = some (k, { abs with freeList := rest }) := by
      rw [Arena.alloc, hfree]
    obtain ⟨hnodup, hlive⟩ := h.live_cons halloc hk
    refine ⟨k, _, { s.arena with freeList := s.mem.load (s.arena.slot k) }, halloc, hne, ?_,
      h.placed.update _ _, h.wellFormed.alloc halloc, h.capacity_eq, h.watermark_eq, ?_, hnodup,
      hlive⟩
    · rw [fixedArenaAlloc, hptr]
      simp only [if_pos hne]
    · -- the slot that is cleared is not in the rest of the list
      apply ArenaRun.Refines.linked_congr htail
      intro j hj
      have hnot : k ∉ rest := (List.nodup_cons.mp (hfree ▸ h.wellFormed.nodup)).1
      apply ByteMemory.load_clear_of_disjoint
      have hdisjoint := s.arena.slot_disjoint (ne_of_mem_of_not_mem hj hnot)
      omega
  | nil =>
    rw [hfree, List.map_nil] at hlinked
    have hptr : s.arena.freeList = 0 := by
      apply ByteMemory.pointer_eq_none.mp
      rw [hlinked.head_eq]
      rfl
    by_cases hroom : abs.watermark < abs.capacity
    · -- the slot at the watermark is handed out
      right
      have halloc : abs.alloc = some (abs.watermark, { abs with watermark := abs.watermark + 1 }) := by
        rw [Arena.alloc, hfree]
        exact if_pos hroom
      have hk : abs.watermark < s.arena.capacity := h.capacity_eq ▸ hroom
      obtain ⟨hnodup, hlive⟩ := h.live_cons halloc hk
      have hslot : (s.arena.base + s.arena.watermark * s.arena.elemSize) % 2 ^ 64 =
          s.arena.slot abs.watermark := by
        rw [← h.watermark_eq]
        exact Nat.mod_eq_of_lt (h.placed.slot_lt hk)
      have hne := (h.placed.slot_pos abs.watermark).ne'
      refine ⟨_, _, { s.arena with watermark := s.arena.watermark + 1 }, halloc, hne, ?_,
        h.placed.update _ _, h.wellFormed.alloc halloc, h.capacity_eq,
        congrArg (· + 1) h.watermark_eq, ?_, hnodup, hlive⟩
      · rw [fixedArenaAlloc, if_neg (not_not.mpr hptr),
          if_pos (show s.arena.watermark < s.arena.capacity by rwa [← h.watermark_eq])]
        simp only [hslot, if_pos hne]
      · simp only [hfree, hptr, List.map_nil]
        exact .nil
    · left
      have halloc : abs.alloc = none := by
        rw [Arena.alloc, hfree]
        exact if_neg hroom
      refine ⟨halloc, ?_⟩
      have hfull : ¬ s.arena.watermark < s.arena.capacity := by
        rwa [← h.watermark_eq, ← h.capacity_eq]
      rw [fixedArenaAlloc, if_neg (not_not.mpr hptr), if_neg hfull]
      rfl

/-- **A live slot that is freed** goes to the front of the free list. -/
theorem ArenaRun.Refines.free {p : ℕ} (h : s.Refines abs) (hp : p ∈ s.live) :
    ∃ k, p = s.arena.slot k ∧
      ArenaRun.Refines ⟨(fixedArenaFree s.arena s.mem p).1, (fixedArenaFree s.arena s.mem p).2,
        s.live.erase p⟩ (abs.free k) := by
  obtain ⟨k, hlive, rfl⟩ := (h.mem_live p).mp hp
  have hk : k < s.arena.capacity := h.lt_capacity hlive.1
  have hsize := h.placed.size_ge (by omega)
  have hne := (h.placed.slot_pos k).ne'
  refine ⟨k, rfl, ?_⟩
  rw [fixedArenaFree, if_neg hne]
  refine ⟨h.placed.update _ _, h.wellFormed.free hlive, h.capacity_eq, h.watermark_eq, ?_,
    h.live_nodup.erase _, ?_⟩
  · -- the slot leads to the old list, whose slots are not touched
    have hold : s.arena.freeList < 2 ^ 64 := by
      cases hfree : abs.freeList with
      | nil =>
        have hhead := h.linked.head_eq
        rw [hfree] at hhead
        rw [ByteMemory.pointer_eq_none.mp hhead]
        decide
      | cons j rest =>
        have hhead := h.linked.head_eq
        rw [hfree] at hhead
        rw [(ByteMemory.pointer_eq_some.mp hhead).1]
        exact h.placed.slot_lt (h.free_lt (by rw [hfree]; exact List.mem_cons_self))
    have hlink : (s.mem.store (s.arena.slot k) s.arena.freeList).link (s.arena.slot k) =
        ByteMemory.pointer s.arena.freeList := by
      rw [ByteMemory.link, ByteMemory.load_store_self hold]
    show Linked _ (ByteMemory.pointer (s.arena.slot k)) (s.arena.slot k :: _)
    rw [ByteMemory.pointer_eq_some.mpr ⟨rfl, hne⟩]
    apply Linked.cons
    rw [hlink]
    apply ArenaRun.Refines.linked_congr h.linked
    intro j hj
    apply ByteMemory.load_store_of_disjoint
    have hdisjoint := s.arena.slot_disjoint (ne_of_mem_of_not_mem hj hlive.2)
    omega
  · intro p
    rw [h.live_nodup.mem_erase_iff, h.mem_live]
    constructor
    · rintro ⟨hne, j, hj, rfl⟩
      exact ⟨j, (Arena.live_free abs k j).mpr ⟨hj, fun heq => hne (by rw [heq])⟩, rfl⟩
    · rintro ⟨j, hj, rfl⟩
      obtain ⟨hj, hjk⟩ := (Arena.live_free abs k j).mp hj
      exact ⟨fun heq => hjk (h.placed.slot_inj (h.lt_capacity hj.1) heq), j, hj, rfl⟩

/-- **Callers do not reach the free list**: a write outside of the arena or to a live slot changes no
word of a free slot. -/
theorem ArenaRun.Refines.write {address : ℕ} {byte : UInt8} (h : s.Refines abs)
    (hmay : s.MayWrite address) :
    ArenaRun.Refines { s with mem := Function.update s.mem address byte } abs := by
  refine ⟨h.placed, h.wellFormed, h.capacity_eq, h.watermark_eq, ?_, h.live_nodup, h.mem_live⟩
  apply ArenaRun.Refines.linked_congr h.linked
  intro j hj
  have hlt := h.free_lt hj
  have hsize := h.placed.size_ge (by omega)
  have hend := s.arena.slot_end hlt
  have hbase : s.arena.base ≤ s.arena.slot j := Nat.le_add_right _ _
  apply ByteMemory.load_update_of_not_mem
  rcases hmay with hbelow | habove | ⟨p, hp, hin⟩
  · left
    omega
  · right
    rw [h.placed.bytes_eq] at habove
    omega
  · -- the slot at `p` is live, so it is not the free one
    obtain ⟨k, hk, rfl⟩ := (h.mem_live p).mp hp
    have hne : j ≠ k := by
      rintro rfl
      exact hk.2 hj
    have hdisjoint := s.arena.slot_disjoint hne
    obtain ⟨hle, hlt⟩ := hin
    omega

/-- **Every operation keeps to an `Arena`.** -/
theorem ArenaRun.step_refines {s' : ArenaRun} {op : ArenaOp} (h : ∃ abs, s.Refines abs)
    (hstep : s.step op = some s') : ∃ abs, s'.Refines abs := by
  obtain ⟨abs, h⟩ := h
  cases op with
  | alloc =>
    simp only [ArenaRun.step] at hstep
    obtain ⟨-, hnull⟩ | ⟨k, abs', arena, -, hne, hslot, hnext⟩ := h.alloc
    · rw [hnull] at hstep
      cases hstep
      exact ⟨abs, h⟩
    · rw [hslot] at hstep
      simp only [if_pos hne] at hstep
      cases hstep
      exact ⟨abs', hnext⟩
  | free p =>
    simp only [ArenaRun.step] at hstep
    split_ifs at hstep with hp
    cases hstep
    obtain ⟨k, -, hnext⟩ := h.free hp
    exact ⟨_, hnext⟩
  | write address byte =>
    simp only [ArenaRun.step] at hstep
    split_ifs at hstep with hmay
    cases hstep
    exact ⟨abs, h.write hmay⟩

/-! ## What holds in every state -/

/-- **A sound state**: the live slots are distinct slots below the watermark, the free list in memory
ends, visits no slot twice and no live one, and both together are the first `watermark` slots. No slot
is left exactly when `capacity` slots are live, and a slot that is handed out is full of zeros. -/
structure ArenaRun.Sound (s : ArenaRun) : Prop where
  watermark_le : s.arena.watermark ≤ s.arena.capacity
  live_nodup : s.live.Nodup
  live_slot : ∀ p ∈ s.live, ∃ k < s.arena.watermark, p = s.arena.base + k * s.arena.elemSize
  free_list : ∃ free, Linked s.mem.link (ByteMemory.pointer s.arena.freeList) free ∧ free.Nodup ∧
    free.Disjoint s.live ∧
    (free ++ s.live).Perm
      ((List.range s.arena.watermark).map fun k => s.arena.base + k * s.arena.elemSize)
  full_iff : (fixedArenaAlloc s.arena s.mem).1 = 0 ↔ s.live.length = s.arena.capacity
  zeroed : ∀ p arena mem, fixedArenaAlloc s.arena s.mem = (p, arena, mem) → p ≠ 0 →
    ∀ i < s.arena.elemSize, mem (p + i) = 0

/-- The free and the live slots are the first `watermark` ones. -/
theorem ArenaRun.Refines.perm (h : s.Refines abs) :
    (abs.freeList.map s.arena.slot).Disjoint s.live ∧
      (abs.freeList.map s.arena.slot ++ s.live).Perm
        ((List.range s.arena.watermark).map s.arena.slot) := by
  have hdisjoint : (abs.freeList.map s.arena.slot).Disjoint s.live := by
    intro p hfree hlive
    obtain ⟨j, hj, rfl⟩ := List.mem_map.mp hfree
    obtain ⟨k, hk, heq⟩ := (h.mem_live _).mp hlive
    rw [h.placed.slot_inj (h.free_lt hj) heq] at hj
    exact hk.2 hj
  refine ⟨hdisjoint, ?_⟩
  -- both sides are without repetition, so it is enough that they have the same slots
  have hnodup : (abs.freeList.map s.arena.slot ++ s.live).Nodup :=
    List.nodup_append'.mpr ⟨h.linked.nodup, h.live_nodup, hdisjoint⟩
  have hrange : ((List.range s.arena.watermark).map s.arena.slot).Nodup := by
    refine List.Nodup.map_on ?_ List.nodup_range
    intro j hj k _ heq
    rw [List.mem_range, ← h.watermark_eq] at hj
    exact h.placed.slot_inj (h.lt_capacity hj) heq
  rw [List.perm_ext_iff_of_nodup hnodup hrange]
  intro p
  simp only [List.mem_append, List.mem_map, List.mem_range, h.mem_live, ← h.watermark_eq]
  constructor
  · rintro (⟨j, hj, rfl⟩ | ⟨k, hk, rfl⟩)
    · exact ⟨j, h.wellFormed.lt_watermark j hj, rfl⟩
    · exact ⟨k, hk.1, rfl⟩
  · rintro ⟨k, hk, rfl⟩
    by_cases hfree : k ∈ abs.freeList
    · exact .inl ⟨k, hfree, rfl⟩
    · exact .inr ⟨k, ⟨hk, hfree⟩, rfl⟩

theorem ArenaRun.Refines.full_iff (h : s.Refines abs) :
    (fixedArenaAlloc s.arena s.mem).1 = 0 ↔ s.live.length = s.arena.capacity := by
  have hlength := h.perm.2.length_eq
  rw [List.length_append, List.length_map, List.length_map, List.length_range] at hlength
  have hle := h.wellFormed.watermark_le
  rw [h.capacity_eq, h.watermark_eq] at hle
  obtain ⟨hnone, hnull⟩ | ⟨k, abs', arena, hsome, hne, hslot, -⟩ := h.alloc
  · -- no slot is free and the watermark is at the end
    rw [hnull]
    refine ⟨fun _ => ?_, fun _ => rfl⟩
    unfold Arena.alloc at hnone
    split at hnone
    · cases hnone
    · rename_i hfree
      split_ifs at hnone with hroom
      rw [hfree, List.length_nil] at hlength
      rw [h.capacity_eq, h.watermark_eq] at hroom
      omega
  · rw [hslot]
    refine ⟨fun hzero => absurd hzero hne, fun hfull => ?_⟩
    exfalso
    rcases Arena.alloc_eq_some hsome with ⟨rest, hfree, -⟩ | ⟨hfree, -, hroom, -⟩
    · rw [hfree, List.length_cons] at hlength
      omega
    · rw [h.capacity_eq, h.watermark_eq] at hroom
      rw [hfree, List.length_nil] at hlength
      omega

theorem ArenaRun.Refines.sound (h : s.Refines abs) : s.Sound where
  watermark_le := by
    rw [← h.watermark_eq, ← h.capacity_eq]
    exact h.wellFormed.watermark_le
  live_nodup := h.live_nodup
  live_slot := by
    intro p hp
    obtain ⟨k, hk, rfl⟩ := (h.mem_live p).mp hp
    exact ⟨k, h.watermark_eq ▸ hk.1, rfl⟩
  free_list := ⟨_, h.linked, h.linked.nodup, h.perm.1, h.perm.2⟩
  full_iff := h.full_iff
  zeroed := by
    intro p arena mem halloc hne i hi
    obtain ⟨-, hnull⟩ | ⟨k, abs', arena', -, -, hslot, -⟩ := h.alloc
    · rw [hnull] at halloc
      cases halloc
      exact absurd rfl hne
    · rw [hslot] at halloc
      cases halloc
      exact ByteMemory.clear_apply (Nat.le_add_right _ _) (Nat.add_lt_add_left hi _)

end Refines

/-- **The arena keeps its slots apart**: after any sequence of allocations, frees of live slots and
writes by the callers, whatever the memory held before. -/
theorem fixed_arena_sound {pages : ℕ → ℕ} {elemSize capacity : ℕ} {a : FixedArena}
    {mem : ByteMemory} {ops : List ArenaOp} {s : ArenaRun} (hpages : PagesInSpace pages)
    (hfits : slotSize elemSize * capacity < 2 ^ 64)
    (hinit : fixedArenaInit pages elemSize capacity = some a)
    (hexec : Machine.exec ArenaRun.step ⟨a, mem, []⟩ ops = some s) : s.Sound := by
  obtain ⟨hplaced, hcapacity, hwatermark, hfree⟩ := placed_of_fixedArenaInit hpages hfits hinit
  have hstart : ArenaRun.Refines ⟨a, mem, []⟩ (Arena.init capacity) := by
    refine ⟨hplaced, Arena.wellFormed_init capacity, hcapacity.symm, hwatermark.symm, ?_,
      List.nodup_nil, ?_⟩
    · show Linked _ (ByteMemory.pointer a.freeList) []
      rw [hfree]
      exact .nil
    · intro p
      constructor
      · intro hp
        cases hp
      · rintro ⟨k, hk, -⟩
        exact absurd hk (Arena.not_live_init capacity k)
  have hmeets : Machine.Meets ArenaRun.step (fun _ _ => True) ⟨a, mem, []⟩ ops :=
    .of_forall fun _ _ _ => trivial
  obtain ⟨abs, hrefines⟩ := Machine.exec_invariant (P := fun s => ∃ abs, s.Refines abs)
    (fun s op s' h _ hstep => ArenaRun.step_refines h hstep) ⟨_, hstart⟩ hmeets hexec
  exact hrefines.sound

/-- Two slots of 16 bytes at address 4096: both are handed out, the first one is written to and freed,
and it is the one that is handed out next. -/
theorem fixed_arena_sound_reuse : ∃ a s,
    fixedArenaInit (fun bytes => if bytes ≤ 4096 then 4096 else 0) 12 2 = some a ∧
      Machine.exec ArenaRun.step ⟨a, fun _ => 1, []⟩
        [.alloc, .alloc, .write 4100 7, .free 4096, .alloc] = some s ∧
      s.live = [4096, 4112] ∧ s.Sound := by
  have hpages : PagesInSpace fun bytes => if bytes ≤ 4096 then 4096 else 0 := by
    intro bytes hne
    dsimp only at hne ⊢
    split_ifs at hne ⊢ with hle
    · exact le_trans (Nat.add_le_add_left hle 4096) (by decide)
    · exact absurd rfl hne
  have hinit : fixedArenaInit (fun bytes => if bytes ≤ 4096 then 4096 else 0) 12 2 =
      some ⟨4096, 16, 2, 0, 32, 0⟩ := by decide
  obtain ⟨s, hexec, hlive⟩ := Machine.exists_of_any
    (p := fun s : ArenaRun => decide (s.live = [4096, 4112]))
    (show (Machine.exec ArenaRun.step ⟨⟨4096, 16, 2, 0, 32, 0⟩, fun _ => 1, []⟩
      [.alloc, .alloc, .write 4100 7, .free 4096, .alloc]).any _ = true by decide +kernel)
  exact ⟨_, s, hinit, hexec, of_decide_eq_true hlive,
    fixed_arena_sound hpages (by decide) hinit hexec⟩

end Wirecall

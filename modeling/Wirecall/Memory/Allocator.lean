import Wirecall.Machine.Run
import Wirecall.Memory.Growth

/-!
# The allocator hook

All memory of the library goes through four functions that look at one global allocator, each at its
own function pointer. A block must go back to where it came from: to the hooks with the context it
was made with, or to the C library. Nothing records where a block came from, so this rests on two
things: the global allocator has all its functions or none, and it is not replaced while blocks are
live.

Every call of a hook or of the C library is kept in a log, with the place the block came from.

## Main definitions

* `Allocator`, `setAllocator`: `wirecall_allocator` and `wirecall_set_allocator`
* `Heap.memAlloc`, `Heap.memCalloc`, `Heap.memRealloc`, `Heap.memFree`: the functions of `memory.c`
* `Heap.step`: one call of them
* `Housed`: what holds after every call

## Main results

* `Housed.step`: every call keeps it, a replacement only with no block live
* `blocks_return_home`: **every block goes back to where it came from**
-/

namespace Wirecall

open Machine

/-- `wirecall_allocator`: a context and three function pointers. -/
structure Allocator where
  ctx : ℕ
  alloc : Option ℕ
  realloc : Option ℕ
  free : Option ℕ
  deriving DecidableEq, Repr

/-- `g_allocator` before it is set, and after `memset`. -/
def Allocator.zero : Allocator := ⟨0, none, none, none⟩

/-- `allocator_valid`. -/
def Allocator.valid (a : Allocator) : Bool :=
  a.alloc.isSome && a.realloc.isSome && a.free.isSome

/-- `wirecall_set_allocator`, with the allocator that is set afterwards. -/
def setAllocator (current : Allocator) : Option Allocator → Rc × Allocator
  | some a => if a.valid then (.ok, a) else (.err, current)
  | none => (.ok, .zero)

/-- Where a call ends up: at the allocator whose function pointer is set, or in the C library. -/
def Allocator.route (a : Allocator) (function : Option ℕ) : Option Allocator :=
  if function.isSome then some a else none

/-- A live block, and where it was made. -/
structure Block where
  ptr : ℕ
  home : Option Allocator
  size : ℕ
  deriving DecidableEq, Repr

/-- A call that left the library: where it went, where the block it is about came from, and the size
that was asked for. -/
structure HookCall where
  target : Option Allocator
  home : Option Allocator
  size : Option ℕ
  deriving DecidableEq, Repr

structure Heap where
  current : Allocator
  live : List Block
  calls : List HookCall
  deriving DecidableEq, Repr

namespace Heap

def find (h : Heap) (ptr : ℕ) : Option Block := h.live.find? fun b => b.ptr = ptr

/-- Zero bytes are asked for as one. -/
def atLeastOne (size : ℕ) : ℕ := if size = 0 then 1 else size

/-- `wirecall_mem_alloc`; `answer` is what the hook or `malloc` returns. -/
def memAlloc (h : Heap) (size : ℕ) (answer : Option ℕ) : Heap :=
  let target := h.current.route h.current.alloc
  { h with
    live := (answer.map fun ptr => ⟨ptr, target, atLeastOne size⟩).toList ++ h.live
    calls := h.calls ++ [⟨target, target, some (atLeastOne size)⟩] }

/-- `wirecall_mem_calloc`: nothing is asked for if the product does not fit. -/
def memCalloc (h : Heap) (count size : ℕ) (answer : Option ℕ) : Heap :=
  if count ≠ 0 ∧ size > sizeMax / count then h
  else h.memAlloc (count * size % 2 ^ 64) answer

/-- `wirecall_mem_realloc` of a live block, which stays if nothing is granted. -/
def memRealloc (h : Heap) (b : Block) (size : ℕ) (answer : Option ℕ) : Heap :=
  let target := h.current.route h.current.realloc
  { h with
    live :=
      match answer with
      | some ptr => ⟨ptr, target, atLeastOne size⟩ :: h.live.erase b
      | none => h.live
    calls := h.calls ++ [⟨target, b.home, some (atLeastOne size)⟩] }

/-- `wirecall_mem_realloc` of `NULL`. -/
def memReallocNull (h : Heap) (size : ℕ) (answer : Option ℕ) : Heap :=
  let target := h.current.route h.current.realloc
  { h with
    live := (answer.map fun ptr => ⟨ptr, target, atLeastOne size⟩).toList ++ h.live
    calls := h.calls ++ [⟨target, target, some (atLeastOne size)⟩] }

/-- `wirecall_mem_free` of a live block. -/
def memFree (h : Heap) (b : Block) : Heap :=
  { h with
    live := h.live.erase b
    calls := h.calls ++ [⟨h.current.route h.current.free, b.home, none⟩] }

end Heap

/-- A call from the library or from the program that sets the allocator; pointers may be `NULL`. -/
inductive MemOp where
  | set (a : Option Allocator)
  | alloc (size : ℕ) (answer : Option ℕ)
  | calloc (count size : ℕ) (answer : Option ℕ)
  | realloc (ptr : Option ℕ) (size : ℕ) (answer : Option ℕ)
  | free (ptr : Option ℕ)
  deriving DecidableEq, Repr

/-- One call. A pointer that is not of a live block has no meaning, except for `NULL`. -/
def Heap.step (h : Heap) : MemOp → Option Heap
  | .set a => some { h with current := (setAllocator h.current a).2 }
  | .alloc size answer => some (h.memAlloc size answer)
  | .calloc count size answer => some (h.memCalloc count size answer)
  | .realloc none size answer => some (h.memReallocNull size answer)
  | .realloc (some ptr) size answer => (h.find ptr).map fun b => h.memRealloc b size answer
  | .free none => some h
  | .free (some ptr) => (h.find ptr).map h.memFree

/-- **What holds after every call.** -/
structure Housed (h : Heap) : Prop where
  /-- The allocator has all its functions or none. -/
  whole : h.current = .zero ∨ h.current.valid = true
  /-- A live block comes from where a new one would come from. -/
  home : ∀ b ∈ h.live, b.home = h.current.route h.current.alloc
  /-- Every call went to where its block came from. -/
  returned : ∀ c ∈ h.calls, c.target = c.home
  /-- No call asked for zero bytes. -/
  sized : ∀ c ∈ h.calls, ∀ size, c.size = some size → 0 < size

/-- The allocator is replaced only while no block is live; a refused call replaces nothing. -/
def SwapsIdle (h : Heap) : MemOp → Prop
  | .set a => (setAllocator h.current a).1 = .ok → h.live = []
  | _ => True

instance (h : Heap) : ∀ op, Decidable (SwapsIdle h op)
  | .set a => inferInstanceAs (Decidable ((setAllocator h.current a).1 = .ok → h.live = []))
  | .alloc _ _ => .isTrue trivial
  | .calloc _ _ _ => .isTrue trivial
  | .realloc _ _ _ => .isTrue trivial
  | .free _ => .isTrue trivial

namespace Housed

variable {h h' : Heap}

theorem atLeastOne_pos (size : ℕ) : 0 < Heap.atLeastOne size := by
  unfold Heap.atLeastOne
  split_ifs <;> omega

theorem setAllocator_whole {current : Allocator} (hcurrent : current = .zero ∨ current.valid = true)
    (a : Option Allocator) :
    (setAllocator current a).2 = .zero ∨ (setAllocator current a).2.valid = true := by
  cases a with
  | none => exact .inl rfl
  | some a =>
    by_cases hvalid : a.valid = true
    · rw [setAllocator, if_pos hvalid]
      exact .inr hvalid
    · rw [setAllocator, if_neg hvalid]
      exact hcurrent

theorem setAllocator_refused {current : Allocator} {a : Option Allocator}
    (hrc : (setAllocator current a).1 ≠ .ok) : (setAllocator current a).2 = current := by
  cases a with
  | none => exact absurd rfl hrc
  | some a =>
    by_cases hvalid : a.valid = true
    · rw [setAllocator, if_pos hvalid] at hrc
      exact absurd rfl hrc
    · rw [setAllocator, if_neg hvalid]

/-- **All three functions lead to one place**, since they are all set or all missing. -/
theorem route_eq (hh : Housed h) :
    h.current.route h.current.realloc = h.current.route h.current.alloc ∧
      h.current.route h.current.free = h.current.route h.current.alloc := by
  rcases hh.whole with hzero | hvalid
  · rw [hzero]
    exact ⟨rfl, rfl⟩
  · simp only [Allocator.valid, Bool.and_eq_true] at hvalid
    obtain ⟨⟨halloc, hrealloc⟩, hfree⟩ := hvalid
    constructor
    · rw [Allocator.route, Allocator.route, if_pos hrealloc, if_pos halloc]
    · rw [Allocator.route, Allocator.route, if_pos hfree, if_pos halloc]

/-- A call for a block that came from where the call goes, and a change of the live blocks to some
that all come from there. -/
theorem call (hh : Housed h) {live : List Block} {c : HookCall} (hcall : c.target = c.home)
    (hsize : ∀ size, c.size = some size → 0 < size)
    (hlive : ∀ b ∈ live, b.home = h.current.route h.current.alloc) :
    Housed { h with live := live, calls := h.calls ++ [c] } := by
  refine ⟨hh.whole, hlive, fun c' hc' => ?_, fun c' hc' => ?_⟩
  · rcases List.mem_append.mp hc' with hold | hnew
    · exact hh.returned c' hold
    · rw [List.mem_singleton.mp hnew]
      exact hcall
  · rcases List.mem_append.mp hc' with hold | hnew
    · exact hh.sized c' hold
    · rw [List.mem_singleton.mp hnew]
      exact hsize

/-- The live blocks with one more, if one was granted. -/
theorem home_grant (hh : Housed h) (answer : Option ℕ) (size : ℕ) {target : Option Allocator}
    (htarget : target = h.current.route h.current.alloc) :
    ∀ b ∈ (answer.map fun ptr => (⟨ptr, target, size⟩ : Block)).toList ++ h.live,
      b.home = h.current.route h.current.alloc := by
  intro b hb
  rcases List.mem_append.mp hb with hnew | hold
  · cases answer with
    | none => cases hnew
    | some ptr =>
      rw [List.mem_singleton.mp hnew]
      exact htarget
  · exact hh.home b hold

theorem memAlloc (hh : Housed h) (size : ℕ) (answer : Option ℕ) :
    Housed (h.memAlloc size answer) := by
  apply hh.call rfl
  · rintro _ ⟨⟩
    exact atLeastOne_pos size
  · exact hh.home_grant answer _ rfl

theorem memReallocNull (hh : Housed h) (size : ℕ) (answer : Option ℕ) :
    Housed (h.memReallocNull size answer) := by
  apply hh.call rfl
  · rintro _ ⟨⟩
    exact atLeastOne_pos size
  · exact hh.home_grant answer _ hh.route_eq.1

theorem memRealloc (hh : Housed h) {b : Block} (hb : b ∈ h.live) (size : ℕ)
    (answer : Option ℕ) : Housed (h.memRealloc b size answer) := by
  apply hh.call
  · exact hh.route_eq.1.trans (hh.home b hb).symm
  · rintro _ ⟨⟩
    exact atLeastOne_pos size
  · intro b' hb'
    cases answer with
    | none => exact hh.home b' hb'
    | some ptr =>
      rcases List.mem_cons.mp hb' with rfl | hold
      · exact hh.route_eq.1
      · exact hh.home b' (List.mem_of_mem_erase hold)

theorem memFree (hh : Housed h) {b : Block} (hb : b ∈ h.live) : Housed (h.memFree b) := by
  apply hh.call
  · exact hh.route_eq.2.trans (hh.home b hb).symm
  · rintro _ ⟨⟩
  · exact fun b' hb' => hh.home b' (List.mem_of_mem_erase hb')

theorem set (hh : Housed h) (a : Option Allocator)
    (hlive : (setAllocator h.current a).1 = .ok → h.live = []) :
    Housed { h with current := (setAllocator h.current a).2 } := by
  refine ⟨setAllocator_whole hh.whole a, ?_, hh.returned, hh.sized⟩
  by_cases hrc : (setAllocator h.current a).1 = .ok
  · rw [hlive hrc]
    exact fun b hb => absurd hb List.not_mem_nil
  · rw [setAllocator_refused hrc]
    exact hh.home

theorem step {op : MemOp} (hh : Housed h) (hset : SwapsIdle h op) (hstep : h.step op = some h') :
    Housed h' := by
  cases op with
  | set a =>
    cases hstep
    exact hh.set a hset
  | alloc size answer =>
    cases hstep
    exact hh.memAlloc size answer
  | calloc count size answer =>
    cases hstep
    unfold Heap.memCalloc
    split_ifs
    · exact hh
    · exact hh.memAlloc _ answer
  | realloc ptr size answer =>
    cases ptr with
    | none =>
      cases hstep
      exact hh.memReallocNull size answer
    | some ptr =>
      obtain ⟨b, hfind, rfl⟩ := Option.map_eq_some_iff.mp hstep
      exact hh.memRealloc (List.mem_of_find?_eq_some hfind) size answer
  | free ptr =>
    cases ptr with
    | none =>
      cases hstep
      exact hh
    | some ptr =>
      obtain ⟨b, hfind, rfl⟩ := Option.map_eq_some_iff.mp hstep
      exact hh.memFree (List.mem_of_find?_eq_some hfind)

end Housed

/-- A heap that was not used, with the allocator of the C library. -/
def Heap.init : Heap := ⟨.zero, [], []⟩

theorem housed_init : Housed Heap.init := by
  refine ⟨.inl rfl, ?_, ?_, ?_⟩
  · exact fun b hb => absurd hb List.not_mem_nil
  · exact fun c hc => absurd hc List.not_mem_nil
  · exact fun c hc => absurd hc List.not_mem_nil

/-- A product that is not refused fits, so the block is as large as its caller takes it to be. -/
theorem calloc_fits {count size : ℕ} (hsize : ¬ (count ≠ 0 ∧ size > sizeMax / count)) :
    count * size % 2 ^ 64 = count * size := by
  apply Nat.mod_eq_of_lt
  rcases Nat.eq_zero_or_pos count with rfl | hpos
  · rw [Nat.zero_mul]
    exact Nat.two_pow_pos 64
  · have hle : size ≤ sizeMax / count := by
      by_contra hgt
      exact hsize ⟨hpos.ne', by omega⟩
    have hprod : size * count ≤ sizeMax := (Nat.le_div_iff_mul_le hpos).mp hle
    rw [Nat.mul_comm]
    exact lt_of_le_of_lt hprod (by decide)

/-- **Every block goes back to where it came from**: in every run of calls in which the allocator is
replaced only while no block is live, every `realloc` and `free` goes to the allocator that made the
block, no request is for zero bytes, and a further `calloc` that is granted gives a block of at
least `count * size` bytes, without any wrap. -/
theorem blocks_return_home (ops : List MemOp) (h : Heap)
    (hmeets : Meets Heap.step SwapsIdle Heap.init ops)
    (hexec : exec Heap.step Heap.init ops = some h) :
    (∀ c ∈ h.calls, c.target = c.home ∧ ∀ size, c.size = some size → 0 < size) ∧
    (∀ b ∈ h.live, b.home = h.current.route h.current.free) ∧
    ∀ count size ptr, h.memCalloc count size (some ptr) = h ∨
      ∃ b, (h.memCalloc count size (some ptr)).live = b :: h.live ∧ b.ptr = ptr ∧
        count * size ≤ b.size := by
  have hhoused : Housed h :=
    exec_invariant (fun _ _ _ hh hset hstep => hh.step hset hstep) housed_init hmeets hexec
  refine ⟨fun c hc => ⟨hhoused.returned c hc, hhoused.sized c hc⟩, fun b hb => ?_,
    fun count size ptr => ?_⟩
  · exact (hhoused.home b hb).trans hhoused.route_eq.2.symm
  · by_cases hsize : count ≠ 0 ∧ size > sizeMax / count
    · exact .inl (if_pos hsize)
    · rw [Heap.memCalloc, if_neg hsize, calloc_fits hsize]
      refine .inr ⟨_, rfl, rfl, ?_⟩
      dsimp only
      unfold Heap.atLeastOne
      split_ifs <;> omega

/-- Hooks with the context 9. -/
def someHooks : Allocator := ⟨9, some 1, some 2, some 3⟩

/-- Blocks of the C library, then of the hooks; an incomplete allocator is refused in between. -/
def twoHomes : List MemOp :=
  [.alloc 0 (some 100), .realloc (some 100) 64 (some 200), .free (some 200),
    .set (some someHooks), .calloc 4 16 (some 300), .set (some ⟨7, some 1, none, some 3⟩),
    .realloc (some 300) 128 none, .free (some 300), .set none, .alloc 8 (some 400)]

theorem blocks_return_home_two_homes : ∃ h, exec Heap.step Heap.init twoHomes = some h ∧
    h.calls.length = 7 ∧ ∀ c ∈ h.calls, c.target = c.home := by
  have hrun : (exec Heap.step Heap.init twoHomes).any
      (fun h => decide (h.calls.length = 7)) = true := by decide +kernel
  obtain ⟨h, hexec, hlen⟩ := exists_of_any hrun
  have hmeets : Meets Heap.step SwapsIdle Heap.init twoHomes := by decide +kernel
  obtain ⟨hcalls, -, -⟩ := blocks_return_home twoHomes h hmeets hexec
  exact ⟨h, hexec, of_decide_eq_true hlen, fun c hc => (hcalls c hc).1⟩

end Wirecall

import Wirecall.Routes.Concurrent

/-!
# Deferred reclamation

A chain that left the table is freed when the reader count was zero at some moment after that.
A lookup that is inside then has loaded its slot head later, so it holds nodes of the table only.
Every node is in one place at a time: in a slot, in the hand of the mutation that took it out, on
the retired list, or freed.

The count has 32 bits. With fewer lookups inside, it is zero exactly when there is none.

## Main definitions

* `Counted`: the reader count counts the lookups that are inside
* `Place`, `Custody`: where nodes are
* `Faithful`: what a lookup knows of the entry it saw

## Main results

* `Counted.step`, `Custody.step`, `Faithful.step`: every step keeps them
* `custody_of_exec`: so every run keeps them
* `reclamation_safe`: **no lookup visits a node that was freed, and each returns the entry at the
  moment it loaded the slot head**
* `count_wraps`: with `2 ^ 32` lookups inside, one of them holds a freed node
-/

namespace Wirecall

/-! ## The reader count -/

/-- The reader count counts the lookups that are inside, and the lock is held by the lookup that
says so. -/
structure Counted (s : Shared) : Prop where
  count : s.table.activeReaders = UInt32.ofNat s.inside.length
  nodup : s.inside.Nodup
  mem_iff : ∀ r, r ∈ s.inside ↔ (s.lookups r).isInside = true
  owner : ∀ r procId seen result, s.lookups r = .checking procId seen result ∨
    s.lookups r = .freeing procId seen result → s.owner = .lookup r

section Counted

variable {s s' : Shared} {r : ℕ} {l : Lookup} {label : RouteStep}

theorem Lookup.Moves.isInside {table : Routes} {l l' : Lookup} (h : l.Moves table l') :
    l.isInside = true ∧ l'.isInside = true := by
  cases h <;> exact ⟨rfl, rfl⟩

/-- A lookup that is inside holds no lock. -/
theorem Lookup.ne_of_isInside (h : l.isInside = true) (procId : UInt64) (seen : Option Route)
    (result : Option Node) :
    ¬ (l = .checking procId seen result ∨ l = .freeing procId seen result) := by
  rintro (rfl | rfl) <;> cases h

/-- A lookup that moves within the two changes of the count. -/
theorem Counted.put (h : Counted s) (hold : (s.lookups r).isInside = true)
    (hnew : l.isInside = true) : Counted (s.put r l) := by
  refine ⟨h.count, h.nodup, fun r' => ?_, fun r' procId seen result hr' => ?_⟩
  · by_cases hr : r' = r
    · subst hr
      rw [Shared.put_self]
      exact (h.mem_iff r').trans (by rw [hold, hnew])
    · rw [Shared.put_of_ne _ _ hr]
      exact h.mem_iff r'
  · by_cases hr : r' = r
    · subst hr
      rw [Shared.put_self] at hr'
      exact absurd hr' (Lookup.ne_of_isInside hnew _ _ _)
    · rw [Shared.put_of_ne _ _ hr] at hr'
      exact h.owner r' procId seen result hr'

/-- Changes of the table that leave the count, and of the owner unless a lookup has the lock. -/
theorem Counted.congr (h : Counted s) {table : Routes} {owner : Owner} {published : List Node}
    (hcount : table.activeReaders = s.table.activeReaders) (howner : ∀ r, s.owner ≠ .lookup r) :
    Counted { s with table := table, owner := owner, published := published } :=
  ⟨hcount.trans h.count, h.nodup, h.mem_iff,
    fun r procId seen result hr => absurd (h.owner r procId seen result hr) (howner r)⟩

/-- A lookup that is not inside before and after the step. -/
theorem Counted.outside (h : Counted s) (hold : (s.lookups r).isInside = false)
    (hnew : l.isInside = false) {table : Routes} (owner : Owner)
    (hcount : table.activeReaders = s.table.activeReaders)
    (howner : ∀ r' procId seen result, (s.put r l).lookups r' = .checking procId seen result ∨
      (s.put r l).lookups r' = .freeing procId seen result → owner = .lookup r') :
    Counted { s.put r l with table := table, owner := owner } := by
  refine ⟨hcount.trans h.count, h.nodup, fun r' => ?_, howner⟩
  by_cases hr : r' = r
  · subst hr
    change r' ∈ s.inside ↔ ((s.put r' l).lookups r').isInside = true
    rw [Shared.put_self]
    exact (h.mem_iff r').trans (by rw [hold, hnew])
  · change r' ∈ s.inside ↔ ((s.put r l).lookups r').isInside = true
    rw [Shared.put_of_ne _ _ hr]
    exact h.mem_iff r'

theorem reclaimRetired_activeReaders (r : Routes) :
    (reclaimRetired r).activeReaders = r.activeReaders := by
  rw [reclaimRetired_eq]

/-- With the lock, only the lookup that has it is in `free_retired`. -/
theorem Counted.only (h : Counted s) (howner : s.owner = .lookup r) {r' : ℕ} (hr : r' ≠ r)
    (procId : UInt64) (seen : Option Route) (result : Option Node) :
    ¬ (s.lookups r' = .checking procId seen result ∨ s.lookups r' = .freeing procId seen result) := by
  intro hl
  have := h.owner r' procId seen result hl
  rw [howner] at this
  cases this
  exact hr rfl

theorem Counted.lookup (h : Counted s) (hstep : LookupSteps s r s') : Counted s' := by
  cases hstep with
  | moves hmoves => exact h.put hmoves.isInside.1 hmoves.isInside.2
  | @leaves procId seen result hl =>
    have hmem : r ∈ s.inside := (h.mem_iff r).mpr (by rw [hl]; rfl)
    have hpos := List.length_pos_of_mem hmem
    refine ⟨?_, h.nodup.erase r, fun r' => ?_, fun r' procId' seen' result' hr' => ?_⟩
    · change s.table.activeReaders - 1 = UInt32.ofNat (s.inside.erase r).length
      rw [h.count, List.length_erase_of_mem hmem]
      obtain ⟨n, hn⟩ : ∃ n, s.inside.length = n + 1 := ⟨s.inside.length - 1, by omega⟩
      rw [hn, Nat.add_sub_cancel, UInt32.ofNat_add]
      exact UInt32.add_sub_cancel _ _
    · change r' ∈ s.inside.erase r ↔ ((s.put r _).lookups r').isInside = true
      rw [h.nodup.mem_erase_iff]
      by_cases hr : r' = r
      · subst hr
        rw [Shared.put_self]
        split_ifs <;> simp [Lookup.isInside]
      · rw [Shared.put_of_ne _ _ hr, ← h.mem_iff]
        exact and_iff_right hr
    · change (s.put r _).lookups r' = _ ∨ (s.put r _).lookups r' = _ at hr'
      by_cases hr : r' = r
      · subst hr
        rw [Shared.put_self] at hr'
        split_ifs at hr' <;> rcases hr' with hr' | hr' <;> cases hr'
      · rw [Shared.put_of_ne _ _ hr] at hr'
        exact h.owner r' procId' seen' result' hr'
  | locks hl howner =>
    refine h.outside (by rw [hl]; rfl) rfl _ rfl fun r' procId' seen' result' hr' => ?_
    by_cases hr : r' = r
    · rw [hr]
    · rw [Shared.put_of_ne _ _ hr] at hr'
      have := h.owner r' procId' seen' result' hr'
      rw [howner] at this
      cases this
  | skips hl hcount =>
    have howner := h.owner r _ _ _ (.inl hl)
    refine h.outside (by rw [hl]; rfl) rfl _ rfl fun r' procId' seen' result' hr' => ?_
    by_cases hr : r' = r
    · subst hr
      rw [Shared.put_self] at hr'
      rcases hr' with hr' | hr' <;> cases hr'
    · rw [Shared.put_of_ne _ _ hr] at hr'
      exact absurd hr' (h.only howner hr _ _ _)
  | clears hl hcount =>
    have howner := h.owner r _ _ _ (.inl hl)
    refine h.outside (by rw [hl]; rfl) rfl s.owner rfl
      fun r' procId' seen' result' hr' => ?_
    by_cases hr : r' = r
    · rw [hr]
      exact howner
    · rw [Shared.put_of_ne _ _ hr] at hr'
      exact h.owner r' procId' seen' result' hr'
  | frees hl =>
    have howner := h.owner r _ _ _ (.inr hl)
    refine h.outside (by rw [hl]; rfl) rfl _ (reclaimRetired_activeReaders _)
      fun r' procId' seen' result' hr' => ?_
    by_cases hr : r' = r
    · subst hr
      rw [Shared.put_self] at hr'
      rcases hr' with hr' | hr' <;> cases hr'
    · rw [Shared.put_of_ne _ _ hr] at hr'
      exact absurd hr' (h.only howner hr _ _ _)

theorem Counted.mutator (h : Counted s) (hstep : MutatorSteps s s') : Counted s' := by
  have hmutator (m : Mutator) (howner : s.owner = .mutator m) (r : ℕ) : s.owner ≠ .lookup r := by
    rw [howner]
    exact fun h => by cases h
  cases hstep with
  | hasPage howner => exact h.congr rfl (hmutator _ howner)
  | newPage howner => exact h.congr rfl (hmutator _ howner)
  | noPage howner => exact h.congr rfl (hmutator _ howner)
  | noCopy howner => exact h.congr rfl (hmutator _ howner)
  | links howner => exact h.congr rfl (hmutator _ howner)
  | notRemoved howner => exact h.congr rfl (hmutator _ howner)
  | unlinks howner => exact h.congr rfl (hmutator _ howner)
  | nothing howner => exact h.congr rfl (hmutator _ howner)
  | unread howner => exact h.congr rfl (hmutator _ howner)
  | read howner => exact h.congr rfl (hmutator _ howner)
  | frees howner => exact h.congr rfl (hmutator _ howner)
  | pushes howner => exact h.congr rfl (hmutator _ howner)
  | leaks howner => exact h.congr rfl (hmutator _ howner)
  | skips howner => exact h.congr rfl (hmutator _ howner)
  | clears howner => exact h.congr rfl (hmutator _ howner)
  | reclaims howner => exact h.congr (reclaimRetired_activeReaders _) (hmutator _ howner)

/-- **Every step keeps the count**, however many lookups are inside. -/
theorem Counted.step (h : Counted s) (hstep : SharedSteps s label s') : Counted s' := by
  have hnobody (howner : s.owner = .nobody) (r : ℕ) : s.owner ≠ .lookup r := by
    rw [howner]
    exact fun h => by cases h
  cases hstep with
  | @begins r procId hl hl' =>
    have hmem : r ∉ s.inside := by
      rw [h.mem_iff, hl]
      exact Bool.false_ne_true
    refine ⟨?_, List.nodup_cons.mpr ⟨hmem, h.nodup⟩, fun r' => ?_, fun r' p seen result hr' => ?_⟩
    · change s.table.activeReaders + 1 = UInt32.ofNat (s.inside.length + 1)
      rw [h.count, UInt32.ofNat_add]
      rfl
    · change r' ∈ r :: s.inside ↔ ((s.put r _).lookups r').isInside = true
      rw [List.mem_cons]
      by_cases hr : r' = r
      · subst hr
        rw [Shared.put_self]
        simp [Lookup.isInside]
      · rw [Shared.put_of_ne _ _ hr, ← h.mem_iff]
        exact or_iff_right hr
    · change (s.put r _).lookups r' = _ ∨ (s.put r _).lookups r' = _ at hr'
      by_cases hr : r' = r
      · subst hr
        rw [Shared.put_self] at hr'
        rcases hr' with hr' | hr' <;> cases hr'
      · rw [Shared.put_of_ne _ _ hr] at hr'
        exact h.owner r' p seen result hr'
  | lookup hstep => exact h.lookup hstep
  | adds howner => exact h.congr rfl (hnobody howner)
  | notAdded => exact h
  | removes howner => exact h.congr rfl (hnobody howner)
  | mutator hstep => exact h.mutator hstep
  | destroys howner =>
    refine ⟨?_, h.nodup, h.mem_iff, h.owner⟩
    refine Eq.trans ?_ h.count
    simp only [routesDestroy, freeAll_eq]

theorem counted_init : Counted Shared.init :=
  ⟨rfl, List.nodup_nil, fun r => by simp [Shared.init, Lookup.isInside],
    fun r _ _ _ h => by rcases h with h | h <;> cases h⟩

/-- With fewer than `2 ^ 32` lookups inside, a count of zero means that there is none. -/
theorem Counted.inside_eq_nil (h : Counted s) (hbound : s.inside.length < 2 ^ 32)
    (hcount : s.table.activeReaders = 0) : s.inside = [] := by
  have hlen : (UInt32.ofNat s.inside.length).toNat = 0 := by
    rw [← h.count, hcount]
    rfl
  rw [UInt32.toNat_ofNat_of_lt' hbound] at hlen
  exact List.length_eq_zero_iff.mp hlen

end Counted

/-! ## Where nodes are -/

/-- The place of a node: not allocated yet, allocated for an addition that is in progress, in a
slot, in the hand of the mutation that took it out, on the retired list, or freed. -/
inductive Place where
  | unused
  | own
  | slot (i j : UInt32)
  | hand
  | retired
  | freed
  deriving DecidableEq

/-- The node is in the chain of a slot. -/
def Routes.InSlot (table : Routes) (i j : UInt32) (n : Node) : Prop :=
  ∃ page, table.pages i = some page ∧ n ∈ page j

/-- The chain that the mutation took out of the table. -/
def Owner.hand : Owner → List Node
  | .mutator (.retiring _ old _ _) => old
  | .mutator (.freeing old _ _) => old
  | .mutator (.pushing _ old _ _) => old
  | _ => []

/-- The node that the mutation is going to publish. -/
def Owner.own : Owner → List Node
  | .mutator (.adding _ node) => [node]
  | .mutator (.linking _ node) => [node]
  | _ => []

/-- The lookup has read a count of zero under the lock. -/
def Lookup.isFreeing : Lookup → Bool
  | .freeing _ _ _ => true
  | _ => false

/-- The holder of the lock has read a count of zero and is going to free. -/
def Owner.frees (lookups : ℕ → Lookup) : Owner → Bool
  | .mutator (.freeing _ _ _) => true
  | .mutator .reclaiming => true
  | .lookup r => (lookups r).isFreeing
  | _ => false

/-- Someone is going to free nodes. -/
def Shared.frees (s : Shared) : Bool := s.owner.frees s.lookups

/-- A node that a lookup holds is in a slot, or it was taken out and no one is going to free. -/
def Place.Sheltered (frees : Bool) (place : Place) : Prop :=
  (∃ i j, place = .slot i j) ∨ (frees = false ∧ (place = .hand ∨ place = .retired))

/-- **Every node is in its place.** -/
structure Custody (s : Shared) (place : ℕ → Place) : Prop where
  slot : ∀ i j n, s.table.InSlot i j n → place n.addr = .slot i j
  retired : ∀ record ∈ s.table.retired, ∀ n ∈ record.chain, place n.addr = .retired
  hand : ∀ n ∈ s.owner.hand, place n.addr = .hand
  own : ∀ n ∈ s.owner.own, place n.addr = .own
  freed : ∀ a ∈ s.table.freed, place a = .freed
  fresh : ∀ a, s.table.nextAddr ≤ a → place a = .unused
  held : ∀ r, ∀ n ∈ (s.lookups r).held, (place n.addr).Sheltered s.frees

section Custody

variable {s s' : Shared} {place : ℕ → Place} {r : ℕ} {l : Lookup} {procId : UInt64}

theorem Routes.inSlot_of_mem_chainOf {table : Routes} {n : Node} (h : n ∈ table.chainOf procId) :
    table.InSlot (pageIdx procId) (slotIdx procId) n := by
  unfold Routes.chainOf at h
  cases hpage : table.pages (pageIdx procId) with
  | none =>
    rw [hpage] at h
    cases h
  | some page =>
    rw [hpage] at h
    exact ⟨page, hpage, h⟩

/-- After a store into a slot the other slots are as before. -/
theorem Routes.InSlot.of_publish {table : Routes} {page : UInt32 → List Node} {head : List Node}
    {i j : UInt32} {n : Node} (hpage : (table.pages (pageIdx procId)).getD (fun _ => []) = page)
    (h : (table.publish procId page head).InSlot i j n) :
    (i = pageIdx procId ∧ j = slotIdx procId ∧ n ∈ head) ∨
      (¬ (i = pageIdx procId ∧ j = slotIdx procId) ∧ table.InSlot i j n) := by
  obtain ⟨page', hpage', hn⟩ := h
  rw [publish_pages] at hpage'
  by_cases hi : i = pageIdx procId
  · subst hi
    rw [Function.update_self, Option.some.injEq] at hpage'
    subst hpage'
    by_cases hj : j = slotIdx procId
    · subst hj
      rw [Function.update_self] at hn
      exact .inl ⟨rfl, rfl, hn⟩
    · rw [Function.update_of_ne hj] at hn
      refine .inr ⟨fun h => hj h.2, ?_⟩
      cases hold : table.pages (pageIdx procId) with
      | none =>
        rw [hold] at hpage
        rw [← hpage] at hn
        cases hn
      | some old =>
        rw [hold, Option.getD_some] at hpage
        exact ⟨old, hold, hpage ▸ hn⟩
  · rw [Function.update_of_ne hi] at hpage'
    exact .inr ⟨fun h => hi h.1, page', hpage', hn⟩

theorem Place.Sheltered.mono {place : Place} {frees frees' : Bool} (h : place.Sheltered frees)
    (hfrees : frees = false → frees' = false) : place.Sheltered frees' :=
  h.imp_right fun ⟨hf, hplace⟩ => ⟨hfrees hf, hplace⟩

/-- A node that is sheltered is allocated, published and not freed. -/
theorem Place.Sheltered.ne {place : Place} {frees : Bool} (h : place.Sheltered frees) :
    place ≠ .unused ∧ place ≠ .own ∧ place ≠ .freed := by
  rcases h with ⟨i, j, rfl⟩ | ⟨-, rfl | rfl⟩ <;>
    exact ⟨Place.noConfusion, Place.noConfusion, Place.noConfusion⟩

/-- While someone is going to free, lookups hold nodes of the table only. -/
theorem Place.Sheltered.slot {place : Place} {frees : Bool} (h : place.Sheltered frees)
    (hfrees : frees = true) : ∃ i j, place = .slot i j := by
  rcases h with h | ⟨hf, -⟩
  · exact h
  · rw [hfrees] at hf
    cases hf

/-- A lookup whose new phase holds sheltered nodes and frees nothing moves on. -/
theorem Custody.put (h : Custody s place) (hl : ∀ n ∈ l.held, (place n.addr).Sheltered s.frees)
    {count : UInt32} {inside : List ℕ} (hfrees : s.frees = false → (s.put r l).frees = false) :
    Custody { s.put r l with table := { s.table with activeReaders := count }, inside := inside }
      place := by
  refine ⟨h.slot, h.retired, h.hand, h.own, h.freed, h.fresh, fun r' n hn => ?_⟩
  change n ∈ ((s.put r l).lookups r').held at hn
  refine Place.Sheltered.mono ?_ hfrees
  by_cases hr : r' = r
  · subst hr
    rw [Shared.put_self] at hn
    exact hl n hn
  · rw [Shared.put_of_ne _ _ hr] at hn
    exact h.held r' n hn

/-- A lookup that is not in `free_retired` frees nothing. -/
theorem Shared.frees_put (hl : l.isFreeing = false) (hfrees : s.frees = false) :
    (s.put r l).frees = false := by
  change s.owner.frees (s.put r l).lookups = false
  cases howner : s.owner with
  | nobody => rfl
  | mutator m =>
    rw [Shared.frees, howner] at hfrees
    cases m <;> first | rfl | cases hfrees
  | lookup r' =>
    change ((s.put r l).lookups r').isFreeing = false
    by_cases hr : r' = r
    · rw [hr, Shared.put_self]
      exact hl
    · rw [Shared.put_of_ne _ _ hr]
      rwa [Shared.frees, howner] at hfrees

/-- **A lookup that moves within the two changes of the count** keeps to nodes it held, or takes
those of a slot. -/
theorem Custody.moves (h : Custody s place) (hmoves : (s.lookups r).Moves s.table l) :
    Custody (s.put r l) place := by
  have hheld := h.held r
  obtain ⟨l₀, hl₀⟩ : ∃ l₀, s.lookups r = l₀ := ⟨_, rfl⟩
  rw [hl₀] at hmoves hheld
  cases hmoves with
  | noPage hpage => exact h.put (List.forall_mem_nil _) (Shared.frees_put rfl)
  | page => exact h.put (List.forall_mem_nil _) (Shared.frees_put rfl)
  | head =>
    refine h.put (fun n hn => ?_) (Shared.frees_put rfl)
    exact .inl ⟨_, _, h.slot _ _ n (Routes.inSlot_of_mem_chainOf hn)⟩
  | ends => exact h.put (List.forall_mem_nil _) (Shared.frees_put rfl)
  | next hne =>
    refine h.put (fun n hn => ?_) (Shared.frees_put rfl)
    exact hheld n (List.mem_cons_of_mem _ hn)
  | hit heq =>
    refine h.put (fun n hn => ?_) (Shared.frees_put rfl)
    rw [List.mem_singleton.mp hn]
    exact hheld _ List.mem_cons_self
  | copy => exact h.put (List.forall_mem_nil _) (Shared.frees_put rfl)

/-- Without lookups inside no node is held. -/
theorem Counted.not_held (h : Counted s) (hinside : s.inside = []) (n : Node) :
    n ∉ (s.lookups r).held := by
  intro hn
  have hin : r ∈ s.inside := by
    rw [h.mem_iff]
    cases hl : s.lookups r <;> rw [hl] at hn <;> first | rfl | cases hn
  rw [hinside] at hin
  cases hin

/-- Changes that leave the table alone. -/
theorem Custody.change (h : Custody s place) {owner : Owner} {lookups : ℕ → Lookup}
    {published : List Node} (hhand : ∀ n ∈ owner.hand, n ∈ s.owner.hand)
    (hown : ∀ n ∈ owner.own, n ∈ s.owner.own)
    (hheld : ∀ r, ∀ n ∈ (lookups r).held, (place n.addr).Sheltered (owner.frees lookups)) :
    Custody { s with owner := owner, lookups := lookups, published := published } place :=
  ⟨h.slot, h.retired, fun n hn => h.hand n (hhand n hn), fun n hn => h.own n (hown n hn), h.freed,
    h.fresh, hheld⟩

/-- The nodes at one place go to another. -/
def movePlace (x y : Place) (place : ℕ → Place) (a : ℕ) : Place :=
  if place a = x then y else place a

theorem movePlace_of_eq {x y : Place} {a : ℕ} (h : place a = x) : movePlace x y place a = y :=
  if_pos h

theorem movePlace_of_ne {x y z : Place} {a : ℕ} (h : place a = z) (hz : z ≠ x) :
    movePlace x y place a = z := by
  rw [movePlace, if_neg (h ▸ hz), h]

/-- While someone is going to free, moving nodes out of another place than a slot is no matter for
the lookups. -/
theorem Place.Sheltered.movePlace {x y : Place} {a : ℕ} {frees frees' : Bool}
    (h : (place a).Sheltered frees) (hfrees : frees = true) (hx : ∀ i j, Place.slot i j ≠ x) :
    (movePlace x y place a).Sheltered frees' := by
  obtain ⟨i, j, hslot⟩ := h.slot hfrees
  exact .inl ⟨i, j, movePlace_of_ne hslot (hx i j)⟩

/-- **The retired list is freed.** -/
theorem Custody.reclaim (h : Custody s place) (hfrees : s.frees = true)
    {lookups : ℕ → Lookup} (hheld : ∀ r, ∀ n ∈ (lookups r).held, ∃ r', n ∈ (s.lookups r').held) :
    Custody { s with table := reclaimRetired s.table, owner := .nobody, lookups := lookups }
      (movePlace .retired .freed place) := by
  rw [reclaimRetired_eq]
  refine ⟨fun i j n hn => ?_, List.forall_mem_nil _, List.forall_mem_nil _, List.forall_mem_nil _,
    fun a ha => ?_, fun a ha => ?_, fun r n hn => ?_⟩
  · exact movePlace_of_ne (h.slot i j n hn) Place.noConfusion
  · rcases List.mem_append.mp ha with ha | ha
    · exact movePlace_of_ne (h.freed a ha) Place.noConfusion
    · obtain ⟨record, hrecord, ha⟩ := List.mem_flatMap.mp ha
      obtain ⟨n, hn, rfl⟩ := List.mem_map.mp ha
      exact movePlace_of_eq (h.retired record hrecord n hn)
  · exact movePlace_of_ne (h.fresh a ha) Place.noConfusion
  · obtain ⟨r', hn'⟩ := hheld r n hn
    exact (h.held r' n hn').movePlace hfrees fun _ _ => Place.noConfusion

/-- What a lookup that is outside holds: nothing. -/
theorem Shared.held_put (hl : l.held = []) {r' : ℕ} {n : Node}
    (hn : n ∈ ((s.put r l).lookups r').held) : n ∈ (s.lookups r').held := by
  by_cases hr : r' = r
  · rw [hr, Shared.put_self, hl] at hn
    cases hn
  · rwa [Shared.put_of_ne _ _ hr] at hn

/-- **A step of a lookup leaves every node in its place**, or frees the retired list. -/
theorem Custody.lookup (h : Custody s place) (hcounted : Counted s)
    (hbound : s.inside.length < 2 ^ 32) (hstep : LookupSteps s r s') : ∃ place', Custody s' place' := by
  cases hstep with
  | moves hmoves => exact ⟨place, h.moves hmoves⟩
  | leaves hl =>
    refine ⟨place, h.put ?_ (Shared.frees_put ?_)⟩
    · split_ifs <;> exact List.forall_mem_nil _
    · split_ifs <;> rfl
  | locks hl howner =>
    have hfrees : s.frees = false := by rw [Shared.frees, howner]; rfl
    refine ⟨place, h.change (List.forall_mem_nil _) (List.forall_mem_nil _) fun r' n hn => ?_⟩
    refine (h.held r' n (Shared.held_put rfl hn)).mono fun _ => ?_
    change ((s.put r _).lookups r).isFreeing = false
    rw [Shared.put_self]
    rfl
  | skips hl hcount =>
    have howner := hcounted.owner r _ _ _ (.inl hl)
    refine ⟨place, h.change (List.forall_mem_nil _) (List.forall_mem_nil _) fun r' n hn => ?_⟩
    exact (h.held r' n (Shared.held_put rfl hn)).mono fun _ => rfl
  | clears hl hcount =>
    -- the count is zero, so no lookup holds a node
    have hinside := hcounted.inside_eq_nil hbound hcount
    refine ⟨place, h.change (fun n hn => hn) (fun n hn => hn) fun r' n hn => ?_⟩
    exact absurd (Shared.held_put rfl hn) (hcounted.not_held hinside n)
  | frees hl =>
    have howner := hcounted.owner r _ _ _ (.inr hl)
    have hfrees : s.frees = true := by
      rw [Shared.frees, howner]
      change (s.lookups r).isFreeing = true
      rw [hl]
      rfl
    exact ⟨_, h.reclaim hfrees fun r' n hn => ⟨r', Shared.held_put rfl hn⟩⟩

/-- The nodes of an addition that is in progress, and the copies it makes. -/
def IsNew (s : Shared) (place : ℕ → Place) (a : ℕ) : Prop :=
  place a = .own ∨ s.table.nextAddr ≤ a

theorem Custody.not_isNew (h : Custody s place) {a : ℕ} {z : Place} (ha : place a = z)
    (hunused : z ≠ .unused) (hown : z ≠ .own) : ¬ IsNew s place a := by
  rintro (hnew | hnew)
  · exact hown (ha.symm.trans hnew)
  · exact hunused (ha.symm.trans (h.fresh a hnew))

/-- The new nodes of a mutation are its own and the copies it allocated. -/
theorem Copies.isNew {old copies new : List Node} (h : Custody s place)
    (hcopies : Copies old procId s.table.nextAddr copies) (hnew : ∀ n ∈ new, place n.addr = .own)
    {n : Node} (hn : n ∈ new ++ copies) :
    IsNew s place n.addr ∧ n.addr < s.table.nextAddr + copies.length := by
  rcases List.mem_append.mp hn with hn | hn
  · refine ⟨.inl (hnew n hn), Nat.lt_add_right _ (Nat.lt_of_not_le fun hle => ?_)⟩
    exact Place.noConfusion ((hnew n hn).symm.trans (h.fresh _ hle))
  · exact ⟨.inr (hcopies.addr n hn).1, (hcopies.addr n hn).2⟩

/-- **A mutation that gives up** frees its new nodes, which no one else knows. -/
theorem Custody.abandon (h : Custody s place) (new : List Node) {old copies : List Node}
    (hcopies : Copies old procId s.table.nextAddr copies) (hnew : ∀ n ∈ new, place n.addr = .own) :
    ∃ place', Custody (abandon (s.allocate copies.length) (new ++ copies)) place' := by
  classical
  obtain ⟨place', hplace'⟩ : ∃ place' : ℕ → Place, place' = fun a =>
    if IsNew s place a ∧ a < s.table.nextAddr + copies.length then .freed else place a := ⟨_, rfl⟩
  -- what is not new stays where it is
  have hsame {a : ℕ} {z : Place} (ha : place a = z) (hunused : z ≠ .unused) (hown : z ≠ .own) :
      place' a = z := by
    rw [hplace']
    exact (if_neg fun hnew' => h.not_isNew ha hunused hown hnew'.1).trans ha
  refine ⟨place', fun i j n hn => ?_, fun record hrecord n hn => ?_, List.forall_mem_nil _,
    List.forall_mem_nil _, fun a ha => ?_, fun a ha => ?_, fun r n hn => ?_⟩
  · exact hsame (h.slot i j n hn) Place.noConfusion Place.noConfusion
  · exact hsame (h.retired record hrecord n hn) Place.noConfusion Place.noConfusion
  · change a ∈ s.table.freed ++ (new ++ copies).map Node.addr at ha
    rcases List.mem_append.mp ha with ha | ha
    · exact hsame (h.freed a ha) Place.noConfusion Place.noConfusion
    · obtain ⟨n, hn, rfl⟩ := List.mem_map.mp ha
      rw [hplace']
      exact if_pos (hcopies.isNew h hnew hn)
  · change s.table.nextAddr + copies.length ≤ a at ha
    rw [hplace']
    exact (if_neg fun h => Nat.not_lt.mpr ha h.2).trans
      (h.fresh a ((Nat.le_add_right _ _).trans ha))
  · have hheld := h.held r n hn
    rw [hsame rfl hheld.ne.1 hheld.ne.2.1]
    exact hheld.mono fun _ => rfl

/-- **A new head is published**: the old chain goes to the hand of the mutation. -/
theorem Custody.publish (h : Custody s place) (new published : List Node) {mem : RouteMem}
    {page : UInt32 → List Node} {copies : List Node} {one : Bool}
    (hpage : (s.table.pages (pageIdx procId)).getD (fun _ => []) = page)
    (hcopies : Copies (s.table.chainOf procId) procId s.table.nextAddr copies)
    (hnew : ∀ n ∈ new, place n.addr = .own) :
    ∃ place', Custody { publishHead (s.allocate copies.length) mem procId page (new ++ copies) one
      with published := published } place' := by
  classical
  obtain ⟨place', hplace'⟩ : ∃ place' : ℕ → Place, place' = fun a =>
    if IsNew s place a ∧ a < s.table.nextAddr + copies.length then
      .slot (pageIdx procId) (slotIdx procId)
    else movePlace (.slot (pageIdx procId) (slotIdx procId)) .hand place a := ⟨_, rfl⟩
  have hold {a : ℕ} (ha : place a = .slot (pageIdx procId) (slotIdx procId)) : place' a = .hand := by
    rw [hplace']
    exact (if_neg fun hnew' => h.not_isNew ha Place.noConfusion Place.noConfusion hnew'.1).trans
      (movePlace_of_eq ha)
  have hsame {a : ℕ} {z : Place} (ha : place a = z) (hunused : z ≠ .unused) (hown : z ≠ .own)
      (hslot : z ≠ .slot (pageIdx procId) (slotIdx procId)) : place' a = z := by
    rw [hplace']
    exact (if_neg fun hnew' => h.not_isNew ha hunused hown hnew'.1).trans (movePlace_of_ne ha hslot)
  refine ⟨place', fun i j n hn => ?_, fun record hrecord n hn => ?_, fun n hn => ?_,
    List.forall_mem_nil _, fun a ha => ?_, fun a ha => ?_, fun r n hn => ?_⟩
  · rcases Routes.InSlot.of_publish hpage hn with ⟨rfl, rfl, hmem⟩ | ⟨hne, hn⟩
    · rw [hplace']
      exact if_pos (hcopies.isNew h hnew hmem)
    · refine hsame (h.slot i j n hn) Place.noConfusion Place.noConfusion fun heq => ?_
      cases heq
      exact hne ⟨rfl, rfl⟩
  · exact hsame (h.retired record hrecord n hn) Place.noConfusion Place.noConfusion
      Place.noConfusion
  · exact hold (h.slot _ _ n (Routes.inSlot_of_mem_chainOf hn))
  · exact hsame (h.freed a ha) Place.noConfusion Place.noConfusion Place.noConfusion
  · change s.table.nextAddr + copies.length ≤ a at ha
    have hunused := h.fresh a ((Nat.le_add_right _ _).trans ha)
    rw [hplace']
    exact (if_neg fun h => Nat.not_lt.mpr ha h.2).trans (movePlace_of_ne hunused Place.noConfusion)
  · -- a node that a lookup holds stays in the table or is in the hand now
    have hheld := h.held r n hn
    by_cases hslot : place n.addr = .slot (pageIdx procId) (slotIdx procId)
    · rw [hold hslot]
      exact .inr ⟨rfl, .inl rfl⟩
    · rw [hsame rfl hheld.ne.1 hheld.ne.2.1 hslot]
      exact hheld.mono fun _ => rfl

/-- **A step of a mutation leaves every node in its place**, or moves nodes as the mutation does. -/
theorem Custody.mutator (h : Custody s place) (hcounted : Counted s)
    (hbound : s.inside.length < 2 ^ 32) (hstep : MutatorSteps s s') : ∃ place', Custody s' place' := by
  have hown (node : Node) (hnode : s.owner.own = [node]) : ∀ n ∈ [node], place n.addr = .own :=
    fun n hn => h.own n (hnode ▸ hn)
  cases hstep with
  | hasPage howner =>
    refine ⟨place, h.change (List.forall_mem_nil _) (fun n hn => ?_) fun r n hn => ?_⟩
    · rw [howner]
      exact hn
    · exact (h.held r n hn).mono fun _ => rfl
  | newPage howner hpage =>
    refine ⟨place, fun i j n hn => ?_, h.retired, List.forall_mem_nil _, fun n hn => ?_, h.freed,
      h.fresh, fun r n hn => ?_⟩
    · obtain ⟨page, hpages, hn⟩ := hn
      change Function.update s.table.pages _ _ i = some page at hpages
      rw [Function.update_apply] at hpages
      split_ifs at hpages
      · cases hpages
        cases hn
      · exact h.slot i j n ⟨page, hpages, hn⟩
    · refine h.own n ?_
      rw [howner]
      exact hn
    · exact (h.held r n hn).mono fun _ => rfl
  | @noPage mem node howner hmem =>
    have hnone : Copies [] 0 s.table.nextAddr [] := ⟨List.forall_mem_nil _, List.forall_mem_nil _⟩
    exact h.abandon [node] hnone (hown node (by rw [howner]; rfl))
  | @noCopy mem node copies howner hcopies hmem =>
    exact h.abandon [node] hcopies (hown node (by rw [howner]; rfl))
  | @links mem node page copies replaced howner hpage hcopies hall =>
    exact h.publish [node] _ hpage hcopies (hown node (by rw [howner]; rfl))
  | notRemoved howner hcopies => exact h.abandon [] hcopies (List.forall_mem_nil _)
  | unlinks howner hpage hcopies hall =>
    exact h.publish [] s.published hpage hcopies (List.forall_mem_nil _)
  | nothing howner =>
    exact ⟨place, h.change (List.forall_mem_nil _) (List.forall_mem_nil _)
      fun r n hn => (h.held r n hn).mono fun _ => rfl⟩
  | unread howner hcount =>
    -- the count is zero, so no lookup holds a node of the old chain
    have hinside := hcounted.inside_eq_nil hbound hcount
    refine ⟨place, h.change (fun n hn => ?_) (List.forall_mem_nil _) fun r n hn => ?_⟩
    · rw [howner]
      exact hn
    · exact absurd hn (hcounted.not_held hinside n)
  | read howner hcount =>
    refine ⟨place, h.change (fun n hn => ?_) (List.forall_mem_nil _) fun r n hn => ?_⟩
    · rw [howner]
      exact hn
    · exact (h.held r n hn).mono fun _ => rfl
  | @frees old one procId howner =>
    have hfrees : s.frees = true := by rw [Shared.frees, howner]; rfl
    refine ⟨movePlace .hand .freed place, fun i j n hn => ?_, fun record hrecord n hn => ?_,
      List.forall_mem_nil _, List.forall_mem_nil _, fun a ha => ?_, fun a ha => ?_, fun r n hn => ?_⟩
    · exact movePlace_of_ne (h.slot i j n hn) Place.noConfusion
    · exact movePlace_of_ne (h.retired record hrecord n hn) Place.noConfusion
    · change a ∈ s.table.freed ++ old.map Node.addr at ha
      rcases List.mem_append.mp ha with ha | ha
      · exact movePlace_of_ne (h.freed a ha) Place.noConfusion
      · obtain ⟨n, hn, rfl⟩ := List.mem_map.mp ha
        refine movePlace_of_eq (h.hand n ?_)
        rw [howner]
        exact hn
    · exact movePlace_of_ne (h.fresh a ha) Place.noConfusion
    · exact (h.held r n hn).movePlace hfrees fun _ _ => Place.noConfusion
  | @pushes mem old one procId howner =>
    refine ⟨movePlace .hand .retired place, fun i j n hn => ?_, fun record hrecord n hn => ?_,
      List.forall_mem_nil _, List.forall_mem_nil _, fun a ha => ?_, fun a ha => ?_, fun r n hn => ?_⟩
    · exact movePlace_of_ne (h.slot i j n hn) Place.noConfusion
    · rcases List.mem_cons.mp hrecord with rfl | hrecord
      · refine movePlace_of_eq (h.hand n ?_)
        rw [howner]
        exact hn
      · exact movePlace_of_ne (h.retired record hrecord n hn) Place.noConfusion
    · exact movePlace_of_ne (h.freed a ha) Place.noConfusion
    · exact movePlace_of_ne (h.fresh a ha) Place.noConfusion
    · rcases h.held r n hn with ⟨i, j, hslot⟩ | ⟨-, hplace | hplace⟩
      · exact .inl ⟨i, j, movePlace_of_ne hslot Place.noConfusion⟩
      · exact .inr ⟨rfl, .inr (movePlace_of_eq hplace)⟩
      · exact .inr ⟨rfl, .inr (movePlace_of_ne hplace Place.noConfusion)⟩
  | leaks howner hmem =>
    exact ⟨place, h.change (List.forall_mem_nil _) (List.forall_mem_nil _)
      fun r n hn => (h.held r n hn).mono fun _ => rfl⟩
  | skips howner hcount =>
    exact ⟨place, h.change (List.forall_mem_nil _) (List.forall_mem_nil _)
      fun r n hn => (h.held r n hn).mono fun _ => rfl⟩
  | clears howner hcount =>
    have hinside := hcounted.inside_eq_nil hbound hcount
    exact ⟨place, h.change (List.forall_mem_nil _) (List.forall_mem_nil _)
      fun r n hn => absurd hn (hcounted.not_held hinside n)⟩
  | reclaims howner =>
    have hfrees : s.frees = true := by rw [Shared.frees, howner]; rfl
    exact ⟨_, h.reclaim hfrees fun r n hn => ⟨r, hn⟩⟩

/-- **Every step but the destruction of the table leaves every node in one place.** -/
theorem Custody.step {label : RouteStep} (h : Custody s place) (hcounted : Counted s)
    (hbound : s.inside.length < 2 ^ 32) (hstep : SharedSteps s label s')
    (hdestroyed : s'.destroyed = false) : ∃ place', Custody s' place' := by
  cases hstep with
  | begins hl hl' => exact ⟨place, h.put (List.forall_mem_nil _) (Shared.frees_put rfl)⟩
  | lookup hstep => exact h.lookup hcounted hbound hstep
  | adds howner =>
    -- the address of the new node was not in use
    have hsame {a : ℕ} {z : Place} (ha : place a = z) (hz : z ≠ .unused) :
        Function.update place s.table.nextAddr .own a = z := by
      refine (Function.update_of_ne (fun heq => hz ?_) _ _).trans ha
      rw [← ha, heq]
      exact h.fresh _ le_rfl
    refine ⟨Function.update place s.table.nextAddr .own, fun i j n hn => ?_,
      fun record hrecord n hn => ?_, List.forall_mem_nil _, fun n hn => ?_, fun a ha => ?_,
      fun a ha => ?_, fun r n hn => ?_⟩
    · exact hsame (h.slot i j n hn) Place.noConfusion
    · exact hsame (h.retired record hrecord n hn) Place.noConfusion
    · rw [List.mem_singleton.mp hn]
      exact Function.update_self _ _ _
    · exact hsame (h.freed a ha) Place.noConfusion
    · change s.table.nextAddr + 1 ≤ a at ha
      exact (Function.update_of_ne (by omega) _ _).trans (h.fresh a (by omega))
    · have hheld := h.held r n hn
      rw [hsame rfl hheld.ne.1]
      exact hheld.mono fun _ => rfl
  | notAdded => exact ⟨place, h⟩
  | removes howner =>
    exact ⟨place, h.change (List.forall_mem_nil _) (List.forall_mem_nil _)
      fun r n hn => (h.held r n hn).mono fun _ => rfl⟩
  | mutator hstep => exact h.mutator hcounted hbound hstep
  | destroys howner => cases hdestroyed

theorem custody_init : Custody Shared.init fun _ => .unused :=
  ⟨fun _ _ _ h => (by cases h.choose_spec.1), List.forall_mem_nil _, List.forall_mem_nil _,
    List.forall_mem_nil _, List.forall_mem_nil _, fun _ _ => rfl, fun _ => List.forall_mem_nil _⟩

end Custody

/-! ## What lookups return -/

/-- The search of a lookup, from where it is, ends at the entry it saw. -/
def Lookup.Faithful : Lookup → Prop
  | .walking procId seen rest =>
    (rest.map Node.route).find? (fun route => route.procId == procId) = seen
  | .matching _ seen node => some node.route = seen
  | .found _ seen result => result.map Node.route = seen
  | .last _ seen result => result.map Node.route = seen
  | .checking _ seen result => result.map Node.route = seen
  | .freeing _ seen result => result.map Node.route = seen
  | .returned _ seen result => result.map Node.route = seen
  | _ => True

section Faithful

variable {s s' : Shared} {r : ℕ} {l l' : Lookup}

theorem Lookup.Faithful.moves {table : Routes} (h : l.Faithful) (hmoves : l.Moves table l') :
    l'.Faithful := by
  cases hmoves with
  | @noPage procId hpage =>
    change none = table.entry procId
    rw [Routes.entry, Routes.chainOf, hpage]
    rfl
  | page => trivial
  | head => rfl
  | ends => exact h
  | next hne =>
    refine Eq.trans ?_ h
    rw [List.map_cons, List.find?_cons_of_neg (by simpa using hne)]
  | hit heq =>
    refine Eq.trans ?_ h
    rw [List.map_cons, List.find?_cons_of_pos (by simpa using heq)]
  | copy => exact h

theorem Shared.faithful_put (h : ∀ r, (s.lookups r).Faithful) (hl : l.Faithful) (r' : ℕ) :
    ((s.put r l).lookups r').Faithful := by
  by_cases hr : r' = r
  · rw [hr, Shared.put_self]
    exact hl
  · rw [Shared.put_of_ne _ _ hr]
    exact h r'

/-- **Every step keeps the lookups faithful.** -/
theorem Faithful.step {label : RouteStep} (h : ∀ r, (s.lookups r).Faithful)
    (hstep : SharedSteps s label s') : ∀ r, (s'.lookups r).Faithful := by
  cases hstep with
  | begins hl hl' => exact Shared.faithful_put h trivial
  | @lookup r s' hstep =>
    have hr := h r
    cases hstep with
    | moves hmoves => exact Shared.faithful_put h (hr.moves hmoves)
    | leaves hl =>
      rw [hl] at hr
      refine Shared.faithful_put h ?_
      split_ifs <;> exact hr
    | locks hl howner =>
      rw [hl] at hr
      exact Shared.faithful_put h hr
    | skips hl hcount =>
      rw [hl] at hr
      exact Shared.faithful_put h hr
    | clears hl hcount =>
      rw [hl] at hr
      exact Shared.faithful_put h hr
    | frees hl =>
      rw [hl] at hr
      exact Shared.faithful_put h hr
  | adds howner => exact h
  | notAdded => exact h
  | removes howner => exact h
  | mutator hstep => cases hstep <;> exact h
  | destroys howner => exact h

end Faithful

/-! ## Safety -/

/-- What holds in every run with fewer than `2 ^ 32` lookups inside at a time. -/
theorem custody_of_exec {labels : List RouteStep} {s : Shared}
    (hexec : Machine.exec Shared.step Shared.init labels = some s)
    (hmeets : Machine.Meets Shared.step (fun s _ => s.inside.length < 2 ^ 32) Shared.init labels) :
    Counted s ∧ (∀ r, (s.lookups r).Faithful) ∧
      (s.destroyed = false → ∃ place, Custody s place) := by
  refine Machine.exec_invariant (P := fun s => Counted s ∧ (∀ r, (s.lookups r).Faithful) ∧
    (s.destroyed = false → ∃ place, Custody s place)) ?_
    ⟨counted_init, fun _ => trivial, fun _ => ⟨_, custody_init⟩⟩ hmeets hexec
  rintro s label s' ⟨hcounted, hfaithful, hcustody⟩ hbound hstep
  obtain ⟨hlive, hsteps⟩ := Shared.step_cases hstep
  refine ⟨hcounted.step hsteps, Faithful.step hfaithful hsteps, fun hlive' => ?_⟩
  obtain ⟨place, hplace⟩ := hcustody hlive
  exact hplace.step hcounted hbound hsteps hlive'

/-- **Deferred reclamation is safe**: in every run with fewer than `2 ^ 32` lookups inside at a
time, no lookup holds a node that was freed, and each returns the entry of its id at the moment it
loaded the slot head. -/
theorem reclamation_safe {labels : List RouteStep} {s : Shared}
    (hexec : Machine.exec Shared.step Shared.init labels = some s)
    (hmeets : Machine.Meets Shared.step (fun s _ => s.inside.length < 2 ^ 32) Shared.init labels)
    (hdestroyed : s.destroyed = false) :
    (∀ r, ∀ n ∈ (s.lookups r).held, n.addr ∉ s.table.freed) ∧
      ∀ r procId seen result, s.lookups r = .returned procId seen result →
        result.map Node.route = seen := by
  obtain ⟨-, hfaithful, hcustody⟩ := custody_of_exec hexec hmeets
  obtain ⟨place, hplace⟩ := hcustody hdestroyed
  refine ⟨fun r n hn hfreed => ?_, fun r procId seen result hl => ?_⟩
  · exact (hplace.held r n hn).ne.2.2 (hplace.freed _ hfreed)
  · have hr := hfaithful r
    rwa [hl] at hr

/-- The addition of a route for the id 7, from the lock to its release. -/
def addSeven : List RouteStep :=
  [.startMutation .granting (.add (callRoute 7 1 0 none false)), .mutator, .mutator, .mutator]

/-- The removal of that route, up to where its chain is freed or retired. -/
def removeSeven : List RouteStep :=
  [.startMutation .granting (.remove 7), .mutator, .mutator, .mutator]

/-- A lookup loads the slot head, the route is removed, and the lookup goes on. -/
def lookupAcrossRemoval : List RouteStep :=
  addSeven ++ [.beginLookup 0 7, .lookup 0, .lookup 0] ++ removeSeven ++ [.mutator] ++
    List.replicate 6 (.lookup 0)

/-- The lookup returns the route it saw, and its chain is freed afterwards. -/
theorem reclamation_safe_seven : ∃ s procId seen result,
    Machine.exec Shared.step Shared.init lookupAcrossRemoval = some s ∧
      s.lookups 0 = .returned procId seen result ∧ s.table.freed = [0] ∧ seen.isSome ∧
      result.map Node.route = seen := by
  have hmeets : Machine.Meets Shared.step (fun s _ => s.inside.length < 2 ^ 32) Shared.init
      lookupAcrossRemoval := by decide +kernel
  have hrun : (Machine.exec Shared.step Shared.init lookupAcrossRemoval).any (fun s =>
      decide (s.destroyed = false ∧ s.lookups 0 = .returned 7 (some (callRoute 7 1 0 none false))
        (some ⟨0, 0, callRoute 7 1 0 none false⟩) ∧ s.table.freed = [0])) = true := by
    decide +kernel
  obtain ⟨s, hexec, hs⟩ := Machine.exists_of_any hrun
  obtain ⟨hdestroyed, hl, hfreed⟩ := of_decide_eq_true hs
  exact ⟨s, _, _, _, hexec, hl, hfreed, rfl,
    (reclamation_safe hexec hmeets hdestroyed).2 0 _ _ _ hl⟩

/-! ## A count that wraps -/

/-- The first `n` lookups have started on a fresh table. -/
def crowd (n : ℕ) : Shared where
  table := { routesInit with activeReaders := UInt32.ofNat n }
  owner := .nobody
  lookups := fun r => if r < n then .entered 7 else .idle
  inside := (List.range n).reverse
  published := []
  destroyed := false

theorem exec_crowd (n : ℕ) : Machine.exec Shared.step Shared.init
    ((List.range n).map fun r => RouteStep.beginLookup r 7) = some (crowd n) := by
  induction n with
  | zero => rfl
  | succ n ih =>
    rw [List.range_succ, List.map_append, Machine.exec_append, ih, Option.bind_some, List.map_singleton,
      Machine.exec]
    have hidle : (crowd n).lookups n = .idle := if_neg (Nat.lt_irrefl n)
    have hstep : (crowd n).step (.beginLookup n 7) = some (crowd (n + 1)) := by
      change beginLookup (crowd n) n 7 = _
      rw [beginLookup, hidle]
      simp only [crowd, Shared.put, Option.some.injEq, Shared.mk.injEq, and_true, true_and]
      refine ⟨?_, ?_, ?_⟩
      · rw [UInt32.ofNat_add]
        rfl
      · funext r
        rw [Function.update_apply]
        split_ifs with h₁ h₂ h₃ h₄ <;> first | rfl | omega
      · rw [List.range_succ, List.reverse_append]
        rfl
    rw [hstep]
    rfl

/-- With `2 ^ 32` lookups inside the count is zero, and a removal frees the chain that one of them
holds. -/
theorem count_wraps : ∃ labels s r n,
    Machine.exec Shared.step Shared.init labels = some s ∧ s.destroyed = false ∧
      n ∈ (s.lookups r).held ∧ n.addr ∈ s.table.freed := by
  have hrun : (Machine.exec Shared.step (crowd (2 ^ 32))
      (addSeven ++ [.lookup 0, .lookup 0] ++ removeSeven)).any (fun s =>
        decide (s.destroyed = false ∧ ∃ n ∈ (s.lookups 0).held, n.addr ∈ s.table.freed)) = true := by
    decide +kernel
  obtain ⟨s, hexec, hs⟩ := Machine.exists_of_any hrun
  obtain ⟨hdestroyed, n, hn, hfreed⟩ := of_decide_eq_true hs
  refine ⟨(List.range (2 ^ 32)).map (fun r => RouteStep.beginLookup r 7) ++
    (addSeven ++ [.lookup 0, .lookup 0] ++ removeSeven), s, 0, n, ?_, hdestroyed, hn, hfreed⟩
  rw [Machine.exec_append, exec_crowd]
  exact hexec

end Wirecall

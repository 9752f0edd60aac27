import Wirecall.Routes.Reclamation

/-!
# Finalizers

A route is copied into every chain that is rebuilt for another id of its slot, so its nodes are
freed many times. Its finalizer is called from one of these chains only: the one that a mutation of
its own id took out of the table. Every route that was published is therefore in the table, or on
account: its finalizer is due from a retired chain or from the chain a mutation holds, or was
called.

The count of the readers decides when a retired chain is freed, and nothing here depends on it
being right. Only that the retired list does not stay behind does: the last lookup to leave reads a
count of one.

## Main definitions

* `account`: the finalizer calls made, and those that are due
* `Books`: what a step does to the slots and to the account
* `Separate`: a route in the table is not on account, and none is on account twice
* `Complete`: with memory granted, a route that left the table is on account
* `Attended`: someone is going to look at the retired list

## Main results

* `SharedSteps.books`: every step is one of these
* `Separate.step`, `Complete.step`, `Attended.step`: every step keeps them
* `finalizers_exactly_once`: **finalizers run exactly once**
-/

namespace Wirecall

/-! ## The account -/

/-- The finalizers due from the chain that a mutation took out of the table. -/
def Owner.due : Owner → List Node
  | .mutator (.retiring _ old one procId) => finalizable false one procId old
  | .mutator (.freeing old one procId) => finalizable false one procId old
  | .mutator (.pushing _ old one procId) => finalizable false one procId old
  | _ => []

/-- The finalizer calls made, and those that are due. -/
def account (table : Routes) (owner : Owner) : List Node :=
  table.finalized ++ (table.retired.flatMap Retired.due ++ owner.due)

/-- The memory of a mutation in progress is granted. -/
def Owner.Granting : Owner → Prop
  | .mutator (.adding mem _) => mem = .granting
  | .mutator (.linking mem _) => mem = .granting
  | .mutator (.removing mem _) => mem = .granting
  | .mutator (.retiring mem _ _ _) => mem = .granting
  | .mutator (.pushing mem _ _ _) => mem = .granting
  | _ => True

/-- The node goes back to a route that was published. -/
def Published (published : List Node) (n : Node) : Prop :=
  ∃ m ∈ published, m.added = n.added ∧ m.route = n.route

/-- The id whose route a mutation is about to drop from its chain. -/
def Owner.drops : Owner → Option UInt64
  | .mutator (.linking _ node) => some node.route.procId
  | .mutator (.removing _ procId) => some procId
  | _ => none

/-- The slots of two tables hold the same nodes. -/
structure SameSlots (table table' : Routes) : Prop where
  wellFormed : table.WellFormed → table'.WellFormed
  inSlot : ∀ i j n, table'.InSlot i j n ↔ table.InSlot i j n

theorem SameSlots.of_pages {table table' : Routes} (h : table'.pages = table.pages) :
    SameSlots table table' :=
  ⟨fun hwf => hwf.congr h, fun i j n => by rw [Routes.InSlot, Routes.InSlot, h]⟩

/-- The table with a new page. -/
def Routes.addPage (table : Routes) (i : UInt32) : Routes :=
  { table with pages := Function.update table.pages i (some fun _ => []) }

theorem Routes.inSlot_addPage {table : Routes} {i₀ i j : UInt32} {n : Node}
    (hpage : table.pages i₀ = none) : (table.addPage i₀).InSlot i j n ↔ table.InSlot i j n := by
  unfold Routes.InSlot Routes.addPage
  by_cases hi : i = i₀
  · subst hi
    simp [hpage]
  · simp only [Function.update_of_ne hi]

theorem Routes.WellFormed.addPage {table : Routes} (h : table.WellFormed) (i₀ : UInt32) :
    (table.addPage i₀).WellFormed := by
  have hold (i : UInt32) (page : UInt32 → List Node) (hi : (table.addPage i₀).pages i = some page) :
      page = (fun _ => []) ∨ table.pages i = some page := by
    change Function.update table.pages i₀ _ i = some page at hi
    rw [Function.update_apply] at hi
    split_ifs at hi
    · exact .inl (Option.some.inj hi).symm
    · exact .inr hi
  constructor
  · intro i page j hi
    rcases hold i page hi with rfl | hi
    · exact List.nodup_nil
    · exact h.nodup i page j hi
  · intro i page j hi n hn
    rcases hold i page hi with rfl | hi
    · cases hn
    · exact h.indexed i page j hi n hn

/-- A new page is empty. -/
theorem SameSlots.addPage {table : Routes} {i₀ : UInt32} (hpage : table.pages i₀ = none) :
    SameSlots table (table.addPage i₀) :=
  ⟨fun hwf => hwf.addPage i₀, fun _ _ _ => Routes.inSlot_addPage hpage⟩

/-- **What a step does to the slots, to the node of an addition and to the account.** -/
inductive Books (s s' : Shared) : Prop
  | keeps (hslots : SameSlots s.table s'.table) (hnext : s'.table.nextAdded = s.table.nextAdded)
      (hown : s'.owner.own = s.owner.own) (hpublished : s'.published = s.published)
      (haccount : (account s'.table s'.owner).Perm (account s.table s.owner))
  /-- Without memory an addition is given up, or a chain is lost with its finalizer. -/
  | loses (hslots : SameSlots s.table s'.table) (hnext : s'.table.nextAdded = s.table.nextAdded)
      (hown : s'.owner.own = []) (hpublished : s'.published = s.published)
      (haccount : (account s'.table s'.owner).Sublist (account s.table s.owner))
      (hmem : ¬ s.owner.Granting)
  | adds {node} (hslots : SameSlots s.table s'.table)
      (hnext : s'.table.nextAdded = s.table.nextAdded + 1) (hown : s.owner.own = [])
      (hown' : s'.owner.own = [node]) (hnode : node.added = s.table.nextAdded)
      (hpublished : s'.published = s.published)
      (haccount : account s'.table s'.owner = account s.table s.owner)
  | publishes {mem procId page copies one} (hdrops : s.owner.drops = some procId)
      (hpage : (s.table.pages (pageIdx procId)).getD (fun _ => []) = page)
      (hcopies : Copies (s.table.chainOf procId) procId s.table.nextAddr copies)
      (hall : CopiesAll (s.table.chainOf procId) procId copies one)
      (hown : ∀ n ∈ s.owner.own, n.route.procId = procId) (hdue : s.owner.due = [])
      (htable : s'.table = { s.table.publish procId page (s.owner.own ++ copies) with
        nextAddr := s.table.nextAddr + copies.length })
      (howner : s'.owner = .mutator (.retiring mem (s.table.chainOf procId) one procId))
      (hpublished : s'.published = s.owner.own ++ s.published)
  | destroys (howner : s.owner = .nobody)
      (hs' : s' = { s with table := routesDestroy s.table, destroyed := true })

section Books

variable {s s' : Shared} {r : ℕ} {label : RouteStep}

/-- The finalizers due from the retired list are called. -/
theorem Books.reclaims (hown : s.owner.own = []) (hdue : s.owner.due = []) {lookups : ℕ → Lookup} :
    Books s { s with
      table := reclaimRetired s.table
      owner := .nobody
      lookups := lookups } := by
  rw [reclaimRetired_eq]
  refine .keeps (.of_pages rfl) rfl hown.symm rfl ?_
  rw [account, account, hdue, List.append_nil]
  exact List.Perm.of_eq (List.append_nil _)

/-- Changes that leave the slots and move no finalizer. -/
theorem Books.moves {table : Routes} {owner : Owner} {lookups : ℕ → Lookup} {inside : List ℕ}
    (hslots : SameSlots s.table table) (hnext : table.nextAdded = s.table.nextAdded)
    (hown : owner.own = s.owner.own)
    (haccount : account table owner = account s.table s.owner) :
    Books s { s with table := table, owner := owner, lookups := lookups, inside := inside } :=
  .keeps hslots hnext hown rfl (.of_eq haccount)

theorem LookupSteps.books (h : LookupSteps s r s') (hcounted : Counted s) : Books s s' := by
  cases h with
  | moves hmoves => exact .moves (.of_pages rfl) rfl rfl rfl
  | leaves hl => exact .moves (.of_pages rfl) rfl rfl rfl
  | locks hl howner =>
    refine .moves (.of_pages rfl) rfl ?_ ?_ <;> rw [howner]
    · rfl
    · rfl
  | skips hl hcount =>
    have howner := hcounted.owner r _ _ _ (.inl hl)
    refine .moves (.of_pages rfl) rfl ?_ ?_ <;> rw [howner]
    · rfl
    · rfl
  | clears hl hcount => exact .moves (.of_pages rfl) rfl rfl rfl
  | frees hl =>
    have howner := hcounted.owner r _ _ _ (.inr hl)
    exact .reclaims (by rw [howner]; rfl) (by rw [howner]; rfl)

/-- Nodes freed without finalizers change nothing on account. -/
theorem account_chainFree (table : Routes) (nodes : List Node) (owner : Owner) :
    account (chainFree table nodes false false 0) owner = account table owner := by
  simp [account, chainFree, finalizable]

theorem MutatorSteps.books (h : MutatorSteps s s') : Books s s' := by
  cases h with
  | hasPage howner =>
    refine .moves (.of_pages rfl) rfl ?_ ?_ <;> rw [howner]
    · rfl
    · rfl
  | @newPage mem node howner hpage =>
    refine .moves (.addPage hpage) rfl ?_ ?_ <;> rw [howner]
    · rfl
    · rfl
  | @noPage mem node howner hmem =>
    refine .loses (.of_pages rfl) rfl rfl rfl ?_ fun hgranting => ?_ <;> rw [howner] at *
    · change List.Sublist (account (chainFree s.table [node] false false 0) .nobody) _
      rw [account_chainFree]
      exact List.Sublist.refl _
    · rw [hgranting] at hmem
      cases hmem
  | @noCopy mem node copies howner hcopies hmem =>
    refine .loses (.of_pages rfl) rfl rfl rfl ?_ fun hgranting => ?_ <;> rw [howner] at *
    · change List.Sublist (account (chainFree (s.allocate copies.length).table (node :: copies)
        false false 0) .nobody) _
      rw [account_chainFree]
      exact List.Sublist.refl _
    · exact hmem hgranting
  | @links mem node page copies replaced howner hpage hcopies hall =>
    have hown : s.owner.own = [node] := by rw [howner]; rfl
    refine .publishes (by rw [howner]; rfl) hpage hcopies hall ?_ (by rw [howner]; rfl) ?_ rfl ?_ <;>
      rw [hown]
    · exact List.forall_mem_singleton.mpr rfl
    · rfl
    · rfl
  | @notRemoved mem procId copies howner hcopies =>
    refine .moves (.of_pages rfl) rfl ?_ ?_ <;> rw [howner]
    · rfl
    · exact account_chainFree (s.allocate copies.length).table copies .nobody
  | unlinks howner hpage hcopies hall =>
    have hown : s.owner.own = [] := by rw [howner]; rfl
    refine .publishes (by rw [howner]; rfl) hpage hcopies hall ?_ (by rw [howner]; rfl) ?_ rfl ?_ <;>
      rw [hown]
    · exact List.forall_mem_nil _
    · rfl
    · rfl
  | nothing howner =>
    refine .moves (.of_pages rfl) rfl ?_ ?_ <;> rw [howner]
    · rfl
    · rfl
  | unread howner hcount =>
    refine .moves (.of_pages rfl) rfl ?_ ?_ <;> rw [howner]
    · rfl
    · rfl
  | read howner hcount =>
    refine .moves (.of_pages rfl) rfl ?_ ?_ <;> rw [howner]
    · rfl
    · rfl
  | frees howner =>
    refine .keeps (.of_pages rfl) rfl ?_ rfl ?_ <;> rw [howner]
    · rfl
    · change ((_ ++ _) ++ (_ ++ [])).Perm (_ ++ (_ ++ _))
      rw [List.append_nil, List.append_assoc]
      exact List.Perm.append_left _ List.perm_append_comm
  | pushes howner =>
    refine .keeps (.of_pages rfl) rfl ?_ rfl ?_ <;> rw [howner]
    · rfl
    · rw [account, account]
      refine List.Perm.append_left _ ?_
      rw [List.flatMap_cons]
      change ((_ ++ _) ++ []).Perm (_ ++ _)
      rw [List.append_nil]
      exact List.perm_append_comm
  | leaks howner hmem =>
    refine .loses (.of_pages rfl) rfl rfl rfl ?_ fun hgranting => ?_ <;> rw [howner] at *
    · exact List.Sublist.append_left (List.Sublist.append_left (List.nil_sublist _) _) _
    · rw [hgranting] at hmem
      cases hmem
  | skips howner hcount =>
    refine .moves (.of_pages rfl) rfl ?_ ?_ <;> rw [howner]
    · rfl
    · rfl
  | clears howner hcount =>
    refine .moves (.of_pages rfl) rfl ?_ ?_ <;> rw [howner]
    · rfl
    · rfl
  | reclaims howner => exact .reclaims (by rw [howner]; rfl) (by rw [howner]; rfl)

/-- **What any step does to the slots and to the account.** -/
theorem SharedSteps.books (h : SharedSteps s label s') (hcounted : Counted s) : Books s s' := by
  cases h with
  | begins hl hl' => exact .moves (.of_pages rfl) rfl rfl rfl
  | lookup hstep => exact hstep.books hcounted
  | adds howner =>
    refine .adds (.of_pages rfl) rfl ?_ rfl rfl rfl ?_ <;> rw [howner]
    · rfl
    · rfl
  | notAdded => exact .moves (.of_pages rfl) rfl rfl rfl
  | removes howner =>
    refine .moves (.of_pages rfl) rfl ?_ ?_ <;> rw [howner]
    · rfl
    · rfl
  | mutator hstep => exact hstep.books
  | destroys howner => exact .destroys howner rfl

end Books

/-! ## Publishing a chain -/

section Publish

variable {table : Routes} {procId : UInt64} {old copies head : List Node}
  {page : UInt32 → List Node} {one : Bool} {i j : UInt32} {n : Node}

/-- The nodes a mutation takes out for good are those of its id, and there is a record of it. -/
theorem mem_finalizable_of_copiesAll (hall : CopiesAll old procId copies one) :
    n ∈ finalizable false one procId old ↔
      n ∈ old ∧ n.route.procId = procId ∧ n.route.finalizer.isSome := by
  rw [finalizable, List.mem_filter, hall.dropped]
  refine and_congr_right fun hn => ?_
  simp only [Bool.false_or, Bool.and_eq_true, beq_iff_eq, List.any_eq_true]
  constructor
  · rintro ⟨⟨-, hid⟩, hfinalizer⟩
    exact ⟨hid, hfinalizer⟩
  · rintro ⟨hid, hfinalizer⟩
    exact ⟨⟨⟨n, hn, hid⟩, hid⟩, hfinalizer⟩

/-- What is in another slot stays there. -/
theorem Routes.InSlot.publish (hpage : (table.pages (pageIdx procId)).getD (fun _ => []) = page)
    (hne : ¬ (i = pageIdx procId ∧ j = slotIdx procId)) (h : table.InSlot i j n) :
    (table.publish procId page head).InSlot i j n := by
  obtain ⟨old, hold, hn⟩ := h
  by_cases hi : i = pageIdx procId
  · subst hi
    rw [hold, Option.getD_some] at hpage
    subst hpage
    refine ⟨_, Function.update_self _ _ _, ?_⟩
    rw [Function.update_of_ne fun hj => hne ⟨rfl, hj⟩]
    exact hn
  · exact ⟨old, (Function.update_of_ne hi _ _).trans hold, hn⟩

theorem Routes.InSlot.publish_self (h : n ∈ head) :
    (table.publish procId page head).InSlot (pageIdx procId) (slotIdx procId) n := by
  refine ⟨_, Function.update_self _ _ _, ?_⟩
  rw [Function.update_self]
  exact h

theorem Owner.own_nodup {α : Type} (owner : Owner) (f : Node → α) : (owner.own.map f).Nodup := by
  unfold Owner.own
  split
  · exact List.nodup_singleton _
  · exact List.nodup_singleton _
  · exact List.nodup_nil

/-- A node of the slot is in the chain of the id. -/
theorem Routes.InSlot.mem_chainOf (h : table.InSlot (pageIdx procId) (slotIdx procId) n) :
    n ∈ table.chainOf procId := by
  obtain ⟨page, hpage, hn⟩ := h
  rw [Routes.chainOf, hpage]
  exact hn

/-- A node that is copied was in the slot before. -/
theorem Copies.inSlot {addr : ℕ} (hcopies : Copies (table.chainOf procId) procId addr copies)
    (hn : n ∈ copies) : ∃ m, table.InSlot (pageIdx procId) (slotIdx procId) m ∧
      m.route.procId ≠ procId ∧ n.added = m.added ∧ n.route = m.route := by
  obtain ⟨m, hm, hne, hadded, hroute⟩ := hcopies.source n hn
  exact ⟨m, Routes.inSlot_of_mem_chainOf hm, hne, hadded, hroute⟩

/-- A route of another id stays in the table, maybe as a copy. -/
theorem CopiesAll.publish (new : List Node)
    (hpage : (table.pages (pageIdx procId)).getD (fun _ => []) = page)
    (hall : CopiesAll (table.chainOf procId) procId copies one) (h : table.InSlot i j n)
    (hid : n.route.procId ≠ procId) : ∃ i' j' m,
      (table.publish procId page (new ++ copies)).InSlot i' j' m ∧ m.added = n.added ∧
        m.route = n.route := by
  by_cases hslot : i = pageIdx procId ∧ j = slotIdx procId
  · obtain ⟨rfl, rfl⟩ := hslot
    obtain ⟨c, hc, hcopy⟩ := hall.complete n h.mem_chainOf hid
    exact ⟨_, _, c, Routes.InSlot.publish_self (List.mem_append_right _ hc), hcopy⟩
  · exact ⟨i, j, n, h.publish hpage hslot, rfl, rfl⟩

end Publish

/-! ## A route is in the table or on account -/

/-- **A route in the table is not on account, and none is on account twice.** -/
structure Separate (s : Shared) : Prop where
  wellFormed : s.table.WellFormed
  fresh : ∀ m ∈ s.published, m.added < s.table.nextAdded
  own : ∀ n ∈ s.owner.own, n.added < s.table.nextAdded ∧ n.added ∉ s.published.map Node.added
  added : (s.published.map Node.added).Nodup
  published : ∀ i j n, s.table.InSlot i j n → Published s.published n
  table : ∀ i j n, s.table.InSlot i j n → n.added ∉ (account s.table s.owner).map Node.added
  source : ∀ n ∈ account s.table s.owner, Published s.published n
  nodup : ((account s.table s.owner).map Node.added).Nodup

/-- **With memory granted, every addition is published or in progress, and a published route is in
the table or on account.** -/
structure Complete (s : Shared) : Prop where
  all : ∀ k < s.table.nextAdded, k ∈ (s.owner.own ++ s.published).map Node.added
  complete : ∀ m ∈ s.published, m.route.finalizer.isSome →
    (∃ i j n, s.table.InSlot i j n ∧ n.added = m.added) ∨
      m.added ∈ (account s.table s.owner).map Node.added

section Separate

variable {s s' : Shared} {procId : UInt64} {published copies : List Node}
  {page : UInt32 → List Node} {one : Bool}

/-- The number of an addition decides the route. -/
theorem Published.route_eq (hadded : (published.map Node.added).Nodup) {n n' : Node}
    (h : Published published n) (h' : Published published n') (heq : n.added = n'.added) :
    n.route = n'.route := by
  obtain ⟨m, hm, hma, hmr⟩ := h
  obtain ⟨m', hm', hma', hmr'⟩ := h'
  have hmm : m = m' := List.inj_on_of_nodup_map hadded hm hm' (by rw [hma, hma', heq])
  rw [← hmr, ← hmr', hmm]

theorem Published.mono {more : List Node} {n : Node} (h : Published published n) :
    Published (more ++ published) n := by
  obtain ⟨m, hm, hmn⟩ := h
  exact ⟨m, List.mem_append_right _ hm, hmn⟩

/-- The slots stay, and what is on account was on account before. -/
theorem Separate.congr (h : Separate s) (hslots : SameSlots s.table s'.table)
    (hnext : s'.table.nextAdded = s.table.nextAdded)
    (hown : ∀ n ∈ s'.owner.own, n ∈ s.owner.own) (hpublished : s'.published = s.published)
    (haccount : (account s'.table s'.owner).Subperm (account s.table s.owner)) : Separate s' := by
  obtain ⟨l, hperm, hsub⟩ := haccount
  refine ⟨hslots.wellFormed h.wellFormed, ?_, fun n hn => ?_, ?_, fun i j n hn => ?_,
    fun i j n hn hmem => ?_, fun n hn => ?_, ?_⟩
  · rw [hpublished, hnext]
    exact h.fresh
  · rw [hpublished, hnext]
    exact h.own n (hown n hn)
  · rw [hpublished]
    exact h.added
  · rw [hpublished]
    exact h.published i j n ((hslots.inSlot i j n).mp hn)
  · refine h.table i j n ((hslots.inSlot i j n).mp hn) ?_
    exact (hsub.map Node.added).subset (((hperm.map Node.added).mem_iff).mpr hmem)
  · rw [hpublished]
    exact h.source n (hsub.subset (hperm.mem_iff.mpr hn))
  · exact ((hperm.map Node.added).nodup_iff).mp (h.nodup.sublist (hsub.map _))

/-- The new chain of a mutation is well formed. -/
theorem Separate.wellFormed_publish (h : Separate s)
    (hpage : (s.table.pages (pageIdx procId)).getD (fun _ => []) = page)
    (hall : CopiesAll (s.table.chainOf procId) procId copies one)
    (hown : ∀ n ∈ s.owner.own, n.route.procId = procId) :
    (s.table.publish procId page (s.owner.own ++ copies)).WellFormed := by
  obtain ⟨hnodup, hindexed⟩ := copies_wellFormed h.wellFormed hall.routes
  refine h.wellFormed.publish hpage ?_ fun n hn => ?_
  · rw [List.map_append]
    refine (s.owner.own_nodup _).append hnodup fun id hnew hold => ?_
    obtain ⟨n, hn, rfl⟩ := List.mem_map.mp hnew
    obtain ⟨m, hm, heq⟩ := List.mem_map.mp hold
    exact (hindexed m hm).1 (heq.trans (hown n hn))
  · rcases List.mem_append.mp hn with hn | hn
    · rw [hown n hn]
      exact ⟨rfl, rfl⟩
    · exact (hindexed n hn).2

/-- What a mutation of an id puts on account. -/
theorem account_publish (table : Routes) {owner : Owner} (hdue : owner.due = []) (procId : UInt64)
    (page : UInt32 → List Node) (head : List Node) (mem : RouteMem) (addr : ℕ) (one : Bool) :
    account { table.publish procId page head with nextAddr := addr }
        (.mutator (.retiring mem (table.chainOf procId) one procId)) =
      account table owner ++ finalizable false one procId (table.chainOf procId) := by
  rw [account, account, hdue, List.append_nil, List.append_assoc]
  rfl

/-- A node of the table with the number of a dropped one is in the same slot, under the same id. -/
theorem Separate.eq_of_dropped (h : Separate s)
    (hall : CopiesAll (s.table.chainOf procId) procId copies one) {i j : UInt32} {n : Node}
    (hn : s.table.InSlot i j n)
    (hk : n.added ∈ (finalizable false one procId (s.table.chainOf procId)).map Node.added) :
    n.route.procId = procId ∧ i = pageIdx procId ∧ j = slotIdx procId := by
  obtain ⟨d, hd, heq⟩ := List.mem_map.mp hk
  obtain ⟨hchain, hd, -⟩ := (mem_finalizable_of_copiesAll hall).mp hd
  have hroute := (h.published _ _ _ (Routes.inSlot_of_mem_chainOf hchain)).route_eq h.added
    (h.published i j n hn) heq
  have hid : n.route.procId = procId := hroute ▸ hd
  obtain ⟨page', hpage', hn'⟩ := hn
  obtain ⟨hi, hj⟩ := h.wellFormed.indexed i page' j hpage' n hn'
  exact ⟨hid, hid ▸ hi.symm, hid ▸ hj.symm⟩

/-- The chain holds the id once, so one route is dropped at most. -/
theorem Separate.dropped_nodup (h : Separate s)
    (hall : CopiesAll (s.table.chainOf procId) procId copies one) :
    ((finalizable false one procId (s.table.chainOf procId)).map Node.added).Nodup := by
  have hids : ((finalizable false one procId (s.table.chainOf procId)).map
      fun n => n.route.procId).Nodup :=
    (h.wellFormed.chainOf procId).1.sublist (List.filter_sublist.map _)
  refine List.Nodup.map_on (fun n hn m hm _ => ?_) hids.of_map
  have hn' := ((mem_finalizable_of_copiesAll hall).mp hn).2.1
  have hm' := ((mem_finalizable_of_copiesAll hall).mp hm).2.1
  exact List.inj_on_of_nodup_map hids hn hm (hn'.trans hm'.symm)

/-- The number of a new node is on no list of published routes. -/
theorem Separate.not_mem_of_own (h : Separate s) {n : Node} (hn : n ∈ s.owner.own) {l : List Node}
    (hl : ∀ m ∈ l, Published s.published m) : n.added ∉ l.map Node.added := by
  intro hk
  obtain ⟨m, hm, heq⟩ := List.mem_map.mp hk
  obtain ⟨m', hm', hadded, -⟩ := hl m hm
  exact (h.own n hn).2 (List.mem_map.mpr ⟨m', hm', hadded.trans heq⟩)

/-- **A mutation puts the route it drops on account**, and that one only. -/
theorem Separate.publish (h : Separate s) {mem : RouteMem} {addr : ℕ}
    (hpage : (s.table.pages (pageIdx procId)).getD (fun _ => []) = page)
    (hcopies : Copies (s.table.chainOf procId) procId s.table.nextAddr copies)
    (hall : CopiesAll (s.table.chainOf procId) procId copies one)
    (hown : ∀ n ∈ s.owner.own, n.route.procId = procId) (hdue : s.owner.due = [])
    (htable : s'.table = { s.table.publish procId page (s.owner.own ++ copies) with
      nextAddr := addr })
    (howner : s'.owner = .mutator (.retiring mem (s.table.chainOf procId) one procId))
    (hpublished : s'.published = s.owner.own ++ s.published) : Separate s' := by
  have hdropped (m : Node) (hm : m ∈ finalizable false one procId (s.table.chainOf procId)) :
      s.table.InSlot (pageIdx procId) (slotIdx procId) m :=
    Routes.inSlot_of_mem_chainOf ((mem_finalizable_of_copiesAll hall).mp hm).1
  have haccount := account_publish s.table hdue procId page (s.owner.own ++ copies) mem addr one
  rw [← htable, ← howner] at haccount
  have hslot {i j : UInt32} {n : Node} (hn : s'.table.InSlot i j n) :
      (n ∈ s.owner.own ++ copies) ∨
        ¬ (i = pageIdx procId ∧ j = slotIdx procId) ∧ s.table.InSlot i j n := by
    rw [htable] at hn
    rcases Routes.InSlot.of_publish hpage hn with ⟨-, -, hn⟩ | hn
    · exact .inl hn
    · exact .inr hn
  refine ⟨?_, ?_, ?_, ?_, fun i j n hn => ?_, fun i j n hn hk => ?_, fun n hn => ?_, ?_⟩
  · rw [htable]
    exact (h.wellFormed_publish hpage hall hown).congr rfl
  · intro m hm
    rw [hpublished] at hm
    rw [htable]
    rcases List.mem_append.mp hm with hm | hm
    · exact (h.own m hm).1
    · exact h.fresh m hm
  · rw [howner]
    exact List.forall_mem_nil _
  · rw [hpublished, List.map_append]
    refine (s.owner.own_nodup _).append h.added fun k hk => ?_
    obtain ⟨n, hn, rfl⟩ := List.mem_map.mp hk
    exact (h.own n hn).2
  · -- a new node is published now, a copy and an untouched node were
    rw [hpublished]
    rcases hslot hn with hn | ⟨-, hn⟩
    · rcases List.mem_append.mp hn with hn | hn
      · exact ⟨n, List.mem_append_left _ hn, rfl, rfl⟩
      · obtain ⟨m, hm, -, hadded, hroute⟩ := hcopies.inSlot hn
        obtain ⟨p, hp, hpa, hpr⟩ := h.published _ _ _ hm
        exact Published.mono ⟨p, hp, hpa.trans hadded.symm, hpr.trans hroute.symm⟩
    · exact (h.published i j n hn).mono
  · -- neither of them has the number of a dropped route
    rw [haccount, List.map_append, List.mem_append] at hk
    rcases hslot hn with hn | ⟨hne, hn⟩
    · rcases List.mem_append.mp hn with hn | hn
      · rcases hk with hk | hk
        · exact h.not_mem_of_own hn h.source hk
        · exact h.not_mem_of_own hn (fun m hm => h.published _ _ _ (hdropped m hm)) hk
      · obtain ⟨m, hm, hid, hadded, -⟩ := hcopies.inSlot hn
        rw [hadded] at hk
        rcases hk with hk | hk
        · exact h.table _ _ _ hm hk
        · exact hid (h.eq_of_dropped hall hm hk).1
    · rcases hk with hk | hk
      · exact h.table i j n hn hk
      · exact hne (h.eq_of_dropped hall hn hk).2
  · rw [haccount] at hn
    rw [hpublished]
    rcases List.mem_append.mp hn with hn | hn
    · exact (h.source n hn).mono
    · exact (h.published _ _ _ (hdropped n hn)).mono
  · rw [haccount, List.map_append]
    refine h.nodup.append (h.dropped_nodup hall) fun k hk hk' => ?_
    obtain ⟨d, hd, rfl⟩ := List.mem_map.mp hk'
    exact h.table _ _ _ (hdropped d hd) hk

/-- What a mutation drops is on account, and the rest is still in the table. -/
theorem Complete.publish (hcomplete : Complete s) (h : Separate s) {mem : RouteMem} {addr : ℕ}
    (hpage : (s.table.pages (pageIdx procId)).getD (fun _ => []) = page)
    (hall : CopiesAll (s.table.chainOf procId) procId copies one) (hdue : s.owner.due = [])
    (htable : s'.table = { s.table.publish procId page (s.owner.own ++ copies) with
      nextAddr := addr })
    (howner : s'.owner = .mutator (.retiring mem (s.table.chainOf procId) one procId))
    (hpublished : s'.published = s.owner.own ++ s.published) : Complete s' := by
  have haccount := account_publish s.table hdue procId page (s.owner.own ++ copies) mem addr one
  rw [← htable, ← howner] at haccount
  refine ⟨?_, fun m hm hfinalizer => ?_⟩
  · rw [howner, htable, hpublished]
    exact hcomplete.all
  · rw [haccount, List.map_append, List.mem_append, htable]
    rw [hpublished] at hm
    rcases List.mem_append.mp hm with hm | hm
    · exact .inl ⟨_, _, m, Routes.InSlot.publish_self (List.mem_append_left _ hm), rfl⟩
    · rcases hcomplete.complete m hm hfinalizer with ⟨i, j, n, hn, hadded⟩ | hk
      · by_cases hid : n.route.procId = procId
        · -- it is the one that is dropped
          have hroute : n.route = m.route :=
            (h.published _ _ _ hn).route_eq h.added ⟨m, hm, rfl, rfl⟩ hadded
          obtain ⟨page', hpage', hn'⟩ := hn
          obtain ⟨hi, hj⟩ := h.wellFormed.indexed i page' j hpage' n hn'
          have hchain : n ∈ s.table.chainOf procId :=
            Routes.InSlot.mem_chainOf
              ⟨page', by rw [← hid, hi]; exact hpage', by rw [← hid, hj]; exact hn'⟩
          refine .inr (.inr (List.mem_map.mpr ⟨n, ?_, hadded⟩))
          exact (mem_finalizable_of_copiesAll hall).mpr ⟨hchain, hid, hroute ▸ hfinalizer⟩
        · obtain ⟨i', j', c, hc, hca, -⟩ := hall.publish s.owner.own hpage hn hid
          exact .inl ⟨i', j', c, hc, hca.trans hadded⟩
      · exact .inr (.inl hk)

end Separate

/-! ## Destroying the table -/

theorem pageIdx_lt (procId : UInt64) : (pageIdx procId).toNat < 65536 := by
  unfold pageIdx
  rw [UInt32.toNat_shiftRight, Nat.shiftRight_eq_div_pow]
  have := (routeIndex procId).toNat_lt
  exact Nat.div_lt_of_lt_mul this

theorem slotIdx_lt (procId : UInt64) : (slotIdx procId).toNat < 65536 := by
  unfold slotIdx
  rw [UInt32.toNat_and]
  exact Nat.lt_succ_of_le Nat.and_le_right

/-- The loops over the pages and the slots visit every node. -/
theorem Routes.WellFormed.mem_chains {table : Routes} (h : table.WellFormed) {n : Node} :
    n ∈ table.chains.flatten ↔ ∃ i j, table.InSlot i j n := by
  simp only [Routes.chains, List.mem_flatten, List.mem_flatMap, List.mem_range]
  constructor
  · rintro ⟨chain, ⟨i, -, hchain⟩, hn⟩
    cases hpage : table.pages (UInt32.ofNat i) with
    | none =>
      rw [hpage] at hchain
      cases hchain
    | some page =>
      rw [hpage] at hchain
      obtain ⟨j, -, rfl⟩ := List.mem_map.mp hchain
      exact ⟨_, _, page, hpage, hn⟩
  · rintro ⟨i, j, page, hpage, hn⟩
    obtain ⟨hi, hj⟩ := h.indexed i page j hpage n hn
    refine ⟨page j, ⟨i.toNat, hi ▸ pageIdx_lt _, ?_⟩, hn⟩
    rw [UInt32.ofNat_toNat, hpage]
    refine List.mem_map.mpr ⟨j.toNat, List.mem_range.mpr (hj ▸ slotIdx_lt _), ?_⟩
    rw [UInt32.ofNat_toNat]

theorem ofNat_ne_of_range {i i' : ℕ} (hi : i ∈ List.range 65536) (hi' : i' ∈ List.range 65536)
    (hne : i ≠ i') : UInt32.ofNat i ≠ UInt32.ofNat i' := by
  intro heq
  have := congrArg UInt32.toNat heq
  rw [UInt32.toNat_ofNat_of_lt' ((List.mem_range.mp hi).trans (by decide)),
    UInt32.toNat_ofNat_of_lt' ((List.mem_range.mp hi').trans (by decide))] at this
  exact hne this

/-- They visit every id once. -/
theorem Routes.WellFormed.chains_pairwise {table : Routes} (h : table.WellFormed) :
    table.chains.flatten.Pairwise fun n n' => n.route.procId ≠ n'.route.procId := by
  rw [List.pairwise_flatten]
  constructor
  · intro chain hchain
    obtain ⟨i, -, hchain⟩ := List.mem_flatMap.mp hchain
    cases hpage : table.pages (UInt32.ofNat i) with
    | none =>
      rw [hpage] at hchain
      cases hchain
    | some page =>
      rw [hpage] at hchain
      obtain ⟨j, -, rfl⟩ := List.mem_map.mp hchain
      exact List.pairwise_map.mp (h.nodup _ _ _ hpage)
  · rw [Routes.chains, List.pairwise_flatMap]
    constructor
    · intro i _
      cases hpage : table.pages (UInt32.ofNat i) with
      | none => exact List.Pairwise.nil
      | some page =>
        -- two slots of a page
        refine List.pairwise_map.mpr (List.nodup_range.imp_of_mem fun hj hj' hne n hn n' hn' heq => ?_)
        refine ofNat_ne_of_range hj hj' hne ?_
        rw [← (h.indexed _ _ _ hpage n hn).2, ← (h.indexed _ _ _ hpage n' hn').2, heq]
    · -- two pages
      refine List.nodup_range.imp_of_mem fun {i i'} hi hi' hne chain hchain chain' hchain' n hn n' hn'
        heq => ?_
      cases hpage : table.pages (UInt32.ofNat i) with
      | none =>
        rw [hpage] at hchain
        cases hchain
      | some page =>
        cases hpage' : table.pages (UInt32.ofNat i') with
        | none =>
          rw [hpage'] at hchain'
          cases hchain'
        | some page' =>
          rw [hpage] at hchain
          rw [hpage'] at hchain'
          obtain ⟨j, -, rfl⟩ := List.mem_map.mp hchain
          obtain ⟨j', -, rfl⟩ := List.mem_map.mp hchain'
          refine ofNat_ne_of_range hi hi' hne ?_
          rw [← (h.indexed _ _ _ hpage n hn).1, ← (h.indexed _ _ _ hpage' n' hn').1, heq]

/-- The finalizers that `wirecall_routes_destroy` calls on the table. -/
def Routes.live (table : Routes) : List Node :=
  table.chains.flatten.filter fun n => n.route.finalizer.isSome

theorem Routes.WellFormed.mem_live {table : Routes} (h : table.WellFormed) {n : Node} :
    n ∈ table.live ↔ (∃ i j, table.InSlot i j n) ∧ n.route.finalizer.isSome := by
  rw [Routes.live, List.mem_filter, h.mem_chains]

theorem Routes.WellFormed.live_pairwise {table : Routes} (h : table.WellFormed) :
    table.live.Pairwise fun n n' => n.route.procId ≠ n'.route.procId := by
  rw [Routes.live]
  exact h.chains_pairwise.filter _

theorem flatMap_due_eq (chains : List (List Node)) :
    (chains.map fun chain : List Node => (⟨chain, 0, true, false⟩ : Retired)).flatMap Retired.due =
      chains.flatten.filter fun n => n.route.finalizer.isSome := by
  induction chains with
  | nil => rfl
  | cons chain chains ih =>
    rw [List.map_cons, List.flatMap_cons, List.flatten_cons, List.filter_append, ih]
    simp [Retired.due, finalizable]

theorem routesDestroy_eq (table : Routes) : ∃ freed, routesDestroy table = { table with
    pages := fun _ => none
    retired := []
    freed := freed
    finalized := table.finalized ++ table.live ++ table.retired.flatMap Retired.due } := by
  simp only [routesDestroy, freeAll_eq, flatMap_due_eq]
  exact ⟨_, rfl⟩

section Destroy

variable {s s' : Shared}

/-- What is on account of a table that was destroyed. -/
theorem account_destroy (howner : s.owner = .nobody) :
    (account (routesDestroy s.table) s.owner).Perm (account s.table s.owner ++ s.table.live) := by
  obtain ⟨freed, htable⟩ := routesDestroy_eq s.table
  rw [htable, account, account, howner]
  change ((_ ++ _ ++ _) ++ []).Perm ((_ ++ (_ ++ [])) ++ _)
  rw [List.append_nil, List.append_nil, List.append_assoc, List.append_assoc]
  exact List.Perm.append_left _ List.perm_append_comm

theorem not_inSlot_destroy (table : Routes) (i j : UInt32) (n : Node) :
    ¬ (routesDestroy table).InSlot i j n := by
  obtain ⟨freed, htable⟩ := routesDestroy_eq table
  rw [htable]
  rintro ⟨page, hpage, -⟩
  cases hpage

/-- Two nodes of the table with one number have one id, and the ids are different. -/
theorem Separate.live_nodup (h : Separate s) : (s.table.live.map Node.added).Nodup := by
  refine List.pairwise_map.mpr ?_
  refine h.wellFormed.live_pairwise.imp_of_mem fun {n m} hn hm hne heq => ?_
  obtain ⟨i, j, hslot⟩ := (h.wellFormed.mem_live.mp hn).1
  obtain ⟨i', j', hslot'⟩ := (h.wellFormed.mem_live.mp hm).1
  refine hne ?_
  rw [(h.published _ _ _ hslot).route_eq h.added (h.published _ _ _ hslot') heq]

/-- **Destroying the table calls the finalizers of the routes in it**, and those that are due. -/
theorem Separate.destroy (h : Separate s) (howner : s.owner = .nobody) :
    Separate { s with table := routesDestroy s.table, destroyed := true } := by
  have hperm := account_destroy howner
  obtain ⟨freed, htable⟩ := routesDestroy_eq s.table
  have hwf : (routesDestroy s.table).WellFormed := by
    rw [htable]
    exact ⟨fun i page j hi => (by cases hi), fun i page j hi => (by cases hi)⟩
  have hnext : (routesDestroy s.table).nextAdded = s.table.nextAdded := by rw [htable]
  refine ⟨hwf, fun m hm => ?_, fun n hn => ?_, h.added,
    fun i j n hn => absurd hn (not_inSlot_destroy _ i j n),
    fun i j n hn => absurd hn (not_inSlot_destroy _ i j n), fun n hn => ?_, ?_⟩
  · exact hnext ▸ h.fresh m hm
  · exact hnext ▸ h.own n hn
  · rcases List.mem_append.mp (hperm.mem_iff.mp hn) with hn | hn
    · exact h.source n hn
    · obtain ⟨i, j, hslot⟩ := (h.wellFormed.mem_live.mp hn).1
      exact h.published i j n hslot
  · refine ((hperm.map Node.added).nodup_iff).mpr ?_
    rw [List.map_append]
    refine h.nodup.append h.live_nodup fun k hk hk' => ?_
    obtain ⟨n, hn, rfl⟩ := List.mem_map.mp hk'
    obtain ⟨i, j, hslot⟩ := (h.wellFormed.mem_live.mp hn).1
    exact h.table i j n hslot hk

theorem Complete.destroy (hcomplete : Complete s) (h : Separate s) (howner : s.owner = .nobody) :
    Complete { s with table := routesDestroy s.table, destroyed := true } := by
  have hmem {k : ℕ} (hk : k ∈ (account s.table s.owner ++ s.table.live).map Node.added) :=
    (((account_destroy howner).map Node.added).mem_iff).mpr hk
  obtain ⟨freed, htable⟩ := routesDestroy_eq s.table
  have hnext : (routesDestroy s.table).nextAdded = s.table.nextAdded := by rw [htable]
  refine ⟨fun k hk => hcomplete.all k (hnext ▸ hk), fun m hm hfinalizer => .inr (hmem ?_)⟩
  rw [List.map_append, List.mem_append]
  rcases hcomplete.complete m hm hfinalizer with ⟨i, j, n, hn, hadded⟩ | hk
  · have hroute : n.route = m.route :=
      (h.published _ _ _ hn).route_eq h.added ⟨m, hm, rfl, rfl⟩ hadded
    refine .inr (List.mem_map.mpr ⟨n, ?_, hadded⟩)
    exact h.wellFormed.mem_live.mpr ⟨⟨i, j, hn⟩, hroute ▸ hfinalizer⟩
  · exact .inl hk

/-! ## Steps -/

/-- **Every step keeps the table and the account separate.** -/
theorem Separate.step (h : Separate s) (hbooks : Books s s') : Separate s' := by
  cases hbooks with
  | keeps hslots hnext hown hpublished haccount =>
    exact h.congr hslots hnext (fun n hn => hown ▸ hn) hpublished haccount.subperm
  | loses hslots hnext hown hpublished haccount hmem =>
    refine h.congr hslots hnext ?_ hpublished haccount.subperm
    rw [hown]
    exact List.forall_mem_nil _
  | @adds node hslots hnext hown hown' hnode hpublished haccount =>
    -- no route that was published has the new number
    refine ⟨hslots.wellFormed h.wellFormed, fun m hm => ?_, fun n hn => ?_, ?_, fun i j n hn => ?_,
      fun i j n hn => ?_, ?_, ?_⟩
    · rw [hpublished] at hm
      rw [hnext]
      exact (h.fresh m hm).trans (Nat.lt_succ_self _)
    · rw [hown'] at hn
      rw [List.mem_singleton.mp hn, hnode, hnext, hpublished]
      refine ⟨Nat.lt_succ_self _, fun hmem => ?_⟩
      obtain ⟨m, hm, heq⟩ := List.mem_map.mp hmem
      exact absurd heq (h.fresh m hm).ne
    · rw [hpublished]
      exact h.added
    · rw [hpublished]
      exact h.published i j n ((hslots.inSlot i j n).mp hn)
    · rw [haccount]
      exact h.table i j n ((hslots.inSlot i j n).mp hn)
    · rw [haccount, hpublished]
      exact h.source
    · rw [haccount]
      exact h.nodup
  | publishes hdrops hpage hcopies hall hown hdue htable howner hpublished =>
    exact h.publish hpage hcopies hall hown hdue htable howner hpublished
  | destroys howner hs' =>
    rw [hs']
    exact h.destroy howner

/-- **With memory granted, every step keeps the account complete.** -/
theorem Complete.step (hcomplete : Complete s) (h : Separate s) (hgranting : s.owner.Granting)
    (hbooks : Books s s') : Complete s' := by
  cases hbooks with
  | keeps hslots hnext hown hpublished haccount =>
    refine ⟨?_, fun m hm hfinalizer => ?_⟩
    · rw [hnext, hown, hpublished]
      exact hcomplete.all
    · rw [hpublished] at hm
      rcases hcomplete.complete m hm hfinalizer with ⟨i, j, n, hn, hadded⟩ | hk
      · exact .inl ⟨i, j, n, (hslots.inSlot i j n).mpr hn, hadded⟩
      · exact .inr (((haccount.map Node.added).mem_iff).mpr hk)
  | loses hslots hnext hown hpublished haccount hmem => exact absurd hgranting hmem
  | @adds node hslots hnext hown hown' hnode hpublished haccount =>
    refine ⟨fun k hk => ?_, fun m hm hfinalizer => ?_⟩
    · rw [hown', hpublished]
      rw [hnext] at hk
      rcases Nat.lt_succ_iff_lt_or_eq.mp hk with hk | rfl
      · have hall := hcomplete.all k hk
        rw [hown] at hall
        exact List.mem_cons_of_mem _ hall
      · rw [← hnode]
        exact List.mem_cons_self
    · rw [hpublished] at hm
      rw [haccount]
      rcases hcomplete.complete m hm hfinalizer with ⟨i, j, n, hn, hadded⟩ | hk
      · exact .inl ⟨i, j, n, (hslots.inSlot i j n).mpr hn, hadded⟩
      · exact .inr hk
  | publishes hdrops hpage hcopies hall hown hdue htable howner hpublished =>
    exact hcomplete.publish h hpage hall hdue htable howner hpublished
  | destroys howner hs' =>
    rw [hs']
    exact hcomplete.destroy h howner

end Destroy

/-- A mutation is started with its memory granted. -/
def RouteStep.Granting : RouteStep → Prop
  | .startMutation mem _ => mem = .granting
  | _ => True

/-- A mutation keeps its memory. -/
theorem Owner.Granting.step {s s' : Shared} {label : RouteStep} (h : s.owner.Granting)
    (hlabel : label.Granting) (hstep : SharedSteps s label s') : s'.owner.Granting := by
  cases hstep with
  | begins hl hl' => exact h
  | lookup hstep => cases hstep <;> first | exact h | trivial
  | adds howner => exact hlabel
  | notAdded => exact h
  | removes howner => exact hlabel
  | mutator hstep =>
    cases hstep with
    | hasPage howner => rwa [howner] at h
    | newPage howner hpage => rwa [howner] at h
    | links howner hpage hcopies hall => rwa [howner] at h
    | unlinks howner hpage hcopies hall => rwa [howner] at h
    | read howner hcount => rwa [howner] at h
    | _ => trivial
  | destroys howner => exact h

theorem separate_init : Separate Shared.init := by
  have hempty (i j : UInt32) (n : Node) : ¬ Shared.init.table.InSlot i j n := by
    rintro ⟨page, hpage, -⟩
    cases hpage
  exact ⟨⟨fun i page j hi => (by cases hi), fun i page j hi => (by cases hi)⟩,
    List.forall_mem_nil _, List.forall_mem_nil _, List.nodup_nil,
    fun i j n hn => absurd hn (hempty i j n), fun i j n hn => absurd hn (hempty i j n),
    List.forall_mem_nil _, List.nodup_nil⟩

theorem complete_init : Complete Shared.init :=
  ⟨fun k hk => absurd hk (Nat.not_lt_zero k), List.forall_mem_nil _⟩

/-! ## The retired list -/

/-- The holder of the lock is going to run `free_retired` to its end. -/
def Owner.reclaims : Owner → Bool
  | .mutator .checking => true
  | .mutator .reclaiming => true
  | _ => false

/-- **Someone is going to look at the retired list**: a lookup that has not left, one that left as
the last, or a mutation. -/
def Attended (s : Shared) : Prop :=
  s.table.retired = [] ∨ s.inside ≠ [] ∨ (∃ r, (s.lookups r).isPending = true) ∨
    s.owner.reclaims = true

section Attended

variable {s s' : Shared} {r : ℕ} {l : Lookup}

/-- A lookup that is not pending before the step does not take the attention away. -/
theorem Shared.isPending_put (hl : (s.lookups r).isPending = true → l.isPending = true)
    (h : ∃ r, (s.lookups r).isPending = true) : ∃ r', ((s.put r l).lookups r').isPending = true := by
  obtain ⟨r', hr'⟩ := h
  refine ⟨r', ?_⟩
  by_cases hr : r' = r
  · subst hr
    rw [Shared.put_self]
    exact hl hr'
  · rwa [Shared.put_of_ne _ _ hr]

theorem Lookup.Moves.isPending {table : Routes} {l l' : Lookup} (h : l.Moves table l') :
    l.isPending = false := by
  cases h <;> rfl

/-- A count that is not zero counts someone. -/
theorem Counted.inside_ne_nil (h : Counted s) (hcount : s.table.activeReaders ≠ 0) :
    s.inside ≠ [] := by
  intro hnil
  rw [h.count, hnil] at hcount
  exact hcount rfl

theorem Attended.lookup (h : Attended s) (hcounted : Counted s) (hstep : LookupSteps s r s') :
    Attended s' := by
  cases hstep with
  | moves hmoves =>
    refine h.imp_right (Or.imp_right (Or.imp_left (Shared.isPending_put fun hpending => ?_)))
    rw [hmoves.isPending] at hpending
    cases hpending
  | @leaves procId seen result hl =>
    -- the last one inside reads a count of one
    by_cases hlast : s.inside.erase r = []
    · have hmem : r ∈ s.inside := (hcounted.mem_iff r).mpr (by rw [hl]; rfl)
      have hlen : s.inside.length = 1 := by
        have herase := List.length_erase_of_mem hmem
        rw [hlast, List.length_nil] at herase
        have := List.length_pos_of_mem hmem
        omega
      have hcount : s.table.activeReaders = 1 := by
        rw [hcounted.count, hlen]
        rfl
      refine .inr (.inr (.inl ⟨r, ?_⟩))
      change ((s.put r _).lookups r).isPending = true
      rw [Shared.put_self, if_pos hcount]
      rfl
    · exact .inr (.inl hlast)
  | locks hl howner =>
    refine .inr (.inr (.inl ⟨r, ?_⟩))
    change ((s.put r _).lookups r).isPending = true
    rw [Shared.put_self]
    rfl
  | skips hl hcount => exact .inr (.inl (hcounted.inside_ne_nil hcount))
  | clears hl hcount =>
    refine .inr (.inr (.inl ⟨r, ?_⟩))
    rw [Shared.put_self]
    rfl
  | frees hl =>
    rw [reclaimRetired_eq]
    exact .inl rfl

/-- A mutation in another phase leaves the attention to the lookups. -/
theorem Attended.owner (h : Attended s) (howner : s.owner.reclaims = false) {table : Routes}
    {owner : Owner} {published : List Node} (hretired : table.retired = s.table.retired) :
    Attended { s with table := table, owner := owner, published := published } := by
  rcases h with h | h | h | h
  · exact .inl (hretired.trans h)
  · exact .inr (.inl h)
  · exact .inr (.inr (.inl h))
  · rw [howner] at h
    cases h

theorem Attended.mutator (h : Attended s) (hcounted : Counted s) (hstep : MutatorSteps s s') :
    Attended s' := by
  cases hstep with
  | hasPage howner => exact h.owner (by rw [howner]; rfl) rfl
  | newPage howner => exact h.owner (by rw [howner]; rfl) rfl
  | noPage howner => exact h.owner (by rw [howner]; rfl) rfl
  | noCopy howner => exact h.owner (by rw [howner]; rfl) rfl
  | links howner => exact h.owner (by rw [howner]; rfl) rfl
  | notRemoved howner => exact h.owner (by rw [howner]; rfl) rfl
  | unlinks howner => exact h.owner (by rw [howner]; rfl) rfl
  | nothing howner => exact h.owner (by rw [howner]; rfl) rfl
  | unread howner => exact h.owner (by rw [howner]; rfl) rfl
  | read howner => exact h.owner (by rw [howner]; rfl) rfl
  | frees howner => exact h.owner (by rw [howner]; rfl) rfl
  | pushes howner => exact .inr (.inr (.inr rfl))
  | leaks howner => exact h.owner (by rw [howner]; rfl) rfl
  | skips howner hcount => exact .inr (.inl (hcounted.inside_ne_nil hcount))
  | clears howner hcount => exact .inr (.inr (.inr rfl))
  | reclaims howner =>
    rw [reclaimRetired_eq]
    exact .inl rfl

/-- **Every step leaves the retired list attended.** -/
theorem Attended.step {label : RouteStep} (h : Attended s) (hcounted : Counted s)
    (hstep : SharedSteps s label s') : Attended s' := by
  cases hstep with
  | begins hl hl' => exact .inr (.inl (List.cons_ne_nil _ _))
  | lookup hstep => exact h.lookup hcounted hstep
  | adds howner => exact h.owner (by rw [howner]; rfl) rfl
  | notAdded => exact h
  | removes howner => exact h.owner (by rw [howner]; rfl) rfl
  | mutator hstep => exact h.mutator hcounted hstep
  | destroys howner =>
    obtain ⟨freed, htable⟩ := routesDestroy_eq s.table
    rw [htable]
    exact .inl rfl

end Attended

/-! ## Exactly once -/

/-- How often the finalizer of the route with this number was called. -/
def Shared.finalizations (s : Shared) (added : ℕ) : ℕ :=
  s.table.finalized.countP fun n => n.added == added

/-- No lookup and no mutation is in progress. -/
def Shared.Quiet (s : Shared) : Prop :=
  s.owner = .nobody ∧ ∀ r, (s.lookups r).isInside = false ∧ (s.lookups r).isPending = false

/-- The route with this number is in the table. -/
def Shared.InTable (s : Shared) (added : ℕ) : Prop :=
  ∃ i j n, s.table.InSlot i j n ∧ n.added = added

section Exactly

variable {s : Shared}

theorem Shared.finalizations_eq (s : Shared) (added : ℕ) :
    s.finalizations added = (s.table.finalized.map Node.added).count added := by
  rw [Shared.finalizations, List.count, List.countP_map]
  rfl

theorem Attended.retired_eq_nil (h : Attended s) (hcounted : Counted s) (hquiet : s.Quiet) :
    s.table.retired = [] := by
  rcases h with h | h | ⟨r, h⟩ | h
  · exact h
  · obtain ⟨r, hr⟩ := List.exists_mem_of_ne_nil _ h
    rw [hcounted.mem_iff, (hquiet.2 r).1] at hr
    cases hr
  · rw [(hquiet.2 r).2] at h
    cases h
  · rw [hquiet.1] at h
    cases h

/-- With nothing due, the account is what was called. -/
theorem account_eq_finalized (howner : s.owner = .nobody) (hretired : s.table.retired = []) :
    account s.table s.owner = s.table.finalized := by
  rw [account, howner, hretired]
  exact List.append_nil _

theorem Separate.finalizations_le_one (h : Separate s) (added : ℕ) : s.finalizations added ≤ 1 := by
  rw [Shared.finalizations_eq]
  refine List.nodup_iff_count_le_one.mp ?_ added
  refine h.nodup.sublist (List.Sublist.map _ ?_)
  rw [account]
  exact List.sublist_append_left _ _

theorem Complete.finalizations_eq_one (hcomplete : Complete s) (h : Separate s) {m : Node}
    (hm : m ∈ s.published)
    (hfinalizer : m.route.finalizer.isSome) (hout : ¬ s.InTable m.added)
    (haccount : account s.table s.owner = s.table.finalized) : s.finalizations m.added = 1 := by
  rcases hcomplete.complete m hm hfinalizer with hin | hdue
  · exact absurd hin hout
  · rw [haccount] at hdue
    refine le_antisymm (h.finalizations_le_one _) ?_
    rw [Shared.finalizations_eq]
    exact List.one_le_count_iff.mpr hdue

theorem LookupSteps.destroyed {s' : Shared} {r : ℕ} (h : LookupSteps s r s') :
    s'.destroyed = s.destroyed := by
  cases h <;> rfl

theorem MutatorSteps.destroyed {s' : Shared} (h : MutatorSteps s s') :
    s'.destroyed = s.destroyed := by
  cases h <;> rfl

/-- The table that was destroyed is empty, and nothing is due. -/
theorem SharedSteps.destroyed {s' : Shared} {label : RouteStep} (h : SharedSteps s label s')
    (hlive : s.destroyed = false) (hdestroyed : s'.destroyed = true) :
    (∀ added, ¬ s'.InTable added) ∧ account s'.table s'.owner = s'.table.finalized := by
  have hno : s.destroyed ≠ true := by
    rw [hlive]
    exact Bool.false_ne_true
  cases h with
  | begins hl hl' => exact absurd hdestroyed hno
  | lookup hstep => exact absurd (hstep.destroyed.symm.trans hdestroyed) hno
  | adds howner => exact absurd hdestroyed hno
  | notAdded => exact absurd hdestroyed hno
  | removes howner => exact absurd hdestroyed hno
  | mutator hstep => exact absurd (hstep.destroyed.symm.trans hdestroyed) hno
  | destroys howner =>
    obtain ⟨freed, htable⟩ := routesDestroy_eq s.table
    rw [htable]
    refine ⟨?_, account_eq_finalized howner rfl⟩
    rintro added ⟨i, j, n, ⟨page, hpage, -⟩, -⟩
    cases hpage

end Exactly

/-- **Finalizers run exactly once**: in every interleaving in which allocations succeed, a finalizer
is called on a route that was published, not while it is in the table and at most once; when no
lookup and no mutation is in progress, every addition was published, the retired list is empty and
every route that is not in the table any more was finalized exactly once; and after
`wirecall_routes_destroy` every route was. -/
theorem finalizers_exactly_once {labels : List RouteStep} {s : Shared}
    (hexec : Machine.exec Shared.step Shared.init labels = some s)
    (hgranting : Machine.Meets Shared.step (fun _ l => l.Granting) Shared.init labels) :
    (∀ n ∈ s.table.finalized, Published s.published n) ∧
      (∀ added, s.InTable added → s.finalizations added = 0) ∧
      (∀ added, s.finalizations added ≤ 1) ∧
      (s.owner = .nobody → ∀ added < s.table.nextAdded, added ∈ s.published.map Node.added) ∧
      (s.Quiet → s.table.retired = [] ∧ ∀ m ∈ s.published, m.route.finalizer.isSome →
        ¬ s.InTable m.added → s.finalizations m.added = 1) ∧
      (s.destroyed = true → ∀ m ∈ s.published, m.route.finalizer.isSome →
        s.finalizations m.added = 1) := by
  obtain ⟨hcounted, hseparate, ⟨hcomplete, -⟩, hattended, hdestroyed⟩ :=
    Machine.exec_invariant (P := fun s => Counted s ∧ Separate s ∧
      (Complete s ∧ s.owner.Granting) ∧ Attended s ∧
      (s.destroyed = true → (∀ added, ¬ s.InTable added) ∧
        account s.table s.owner = s.table.finalized))
      (by
        rintro s label s' ⟨hcounted, hseparate, ⟨hcomplete, hgranting⟩, hattended, -⟩ hlabel hstep
        obtain ⟨hlive, hsteps⟩ := Shared.step_cases hstep
        have hbooks := hsteps.books hcounted
        exact ⟨hcounted.step hsteps, hseparate.step hbooks,
          ⟨hcomplete.step hseparate hgranting hbooks, hgranting.step hlabel hsteps⟩,
          hattended.step hcounted hsteps, hsteps.destroyed hlive⟩)
      ⟨counted_init, separate_init, ⟨complete_init, trivial⟩, .inl rfl, fun h => (by cases h)⟩
      hgranting hexec
  refine ⟨fun n hn => ?_, ?_, hseparate.finalizations_le_one, fun howner added hadded => ?_,
    fun hquiet => ?_, fun hgone m hm => ?_⟩
  · refine hseparate.source n ?_
    rw [account]
    exact List.mem_append_left _ hn
  · rintro added ⟨i, j, n, hn, rfl⟩
    rw [Shared.finalizations_eq, List.count_eq_zero]
    intro hmem
    refine hseparate.table i j n hn ?_
    rw [account, List.map_append]
    exact List.mem_append_left _ hmem
  · have hall := hcomplete.all added hadded
    rwa [howner] at hall
  · have hretired := hattended.retired_eq_nil hcounted hquiet
    refine ⟨hretired, fun m hm hfinalizer hout => ?_⟩
    exact hcomplete.finalizations_eq_one hseparate hm hfinalizer hout
      (account_eq_finalized hquiet.1 hretired)
  · obtain ⟨hout, haccount⟩ := hdestroyed hgone
    exact fun hfinalizer => hcomplete.finalizations_eq_one hseparate hm hfinalizer (hout _) haccount

/-- A route with a finalizer is replaced by another while a lookup holds its chain. -/
def replaceAcrossLookup : List RouteStep :=
  [.startMutation .granting (.add (callRoute 7 1 10 (some 1) false)), .mutator, .mutator, .mutator,
    .beginLookup 0 7, .lookup 0, .lookup 0,
    .startMutation .granting (.add (callRoute 7 2 20 (some 2) false)), .mutator, .mutator, .mutator,
    .mutator, .mutator, .lookup 0, .lookup 0, .lookup 0, .lookup 0, .lookup 0, .lookup 0]

def Owner.isNobody : Owner → Bool
  | .nobody => true
  | .lookup _ => false
  | .mutator _ => false

theorem Owner.eq_nobody {owner : Owner} (h : owner.isNobody = true) : owner = .nobody := by
  cases owner with
  | nobody => rfl
  | lookup r => cases h
  | mutator m => cases h

/-- The first route is finalized by the lookup, and the second one when the table is destroyed. -/
theorem finalizers_exactly_once_replaced : ∃ s,
    Machine.exec Shared.step Shared.init (replaceAcrossLookup ++ [.destroy]) = some s ∧
      s.finalizations 0 = 1 ∧ s.finalizations 1 = 1 := by
  have hrun : (Machine.exec Shared.step Shared.init replaceAcrossLookup).any (fun s =>
      s.owner.isNobody && decide (s.destroyed = false ∧
        s.published.map Node.added = [1, 0] ∧
          ∀ m ∈ s.published, m.route.finalizer.isSome = true)) = true := by
    decide +kernel
  have hgranting : Machine.Meets Shared.step (fun _ l => l.Granting) Shared.init
      (replaceAcrossLookup ++ [.destroy]) := by
    refine Machine.Meets.of_forall fun _ => ?_
    simp [replaceAcrossLookup, RouteStep.Granting]
  obtain ⟨s, hexec, hs⟩ := Machine.exists_of_any hrun
  obtain ⟨howner, hs⟩ := Bool.and_eq_true_iff.mp hs
  obtain ⟨hlive, hpublished, hfinalizer⟩ := of_decide_eq_true hs
  have hstep : s.step .destroy = some { s with
      table := routesDestroy s.table
      destroyed := true } := by
    rw [Shared.step, hlive]
    simp only [Owner.eq_nobody howner]
    rfl
  have hexec' : Machine.exec Shared.step Shared.init (replaceAcrossLookup ++ [.destroy]) =
      some { s with table := routesDestroy s.table, destroyed := true } := by
    rw [Machine.exec_append, hexec, Option.bind_some, Machine.exec, hstep]
    rfl
  have honce := (finalizers_exactly_once hexec' hgranting).2.2.2.2.2 rfl
  refine ⟨_, hexec', ?_, ?_⟩
  · obtain ⟨m, hm, hadded⟩ :=
      List.mem_map.mp (hpublished ▸ (by decide) : 0 ∈ s.published.map Node.added)
    exact hadded ▸ honce m hm (hfinalizer m hm)
  · obtain ⟨m, hm, hadded⟩ :=
      List.mem_map.mp (hpublished ▸ (by decide) : 1 ∈ s.published.map Node.added)
    exact hadded ▸ honce m hm (hfinalizer m hm)

end Wirecall

import Wirecall.Routes.Reclamation

/-!
# Mutations that fail

An addition or a removal gives up when an allocation fails, and a removal also when there is no
route to remove. Up to the store of the new chain it frees what it has built, and the table is as it
was. One allocation comes later: with a lookup in progress the old chain is to be retired, and the
record for it may be refused. Then `-1` is returned although the new chain is published, and the
old chain is neither freed nor retired. A call that gives up earlier never gets there, so what
decides is whether all that it asks for before is granted and the record is not.

## Main definitions

* `Routes.Reaches`, `Routes.Accounts`: a chain that can be reached, and one that is not lost
* `Untouched`: what a caller that sees `-1` relies on
* `RouteMem.Retires`: the old chain of an id can be freed or retired
* `RouteMem.Strands`: it cannot, and the call gets as far as that
* `Routes.Owns`: the chain of an id hangs in its slot only, and is not freed
* `CleanUnless`: a call that fails changes nothing, unless it strands the old chain

## Main results

* `owns_of_exec`: every table in use owns its chains
* `failed_mutation_untouched`: **a mutation that fails changes nothing, unless it strands the old
  chain of its id**, and then it does change something
* `failed_addition_published`: such an addition
-/

namespace Wirecall

/-- The chain can be reached from the table: it hangs in a slot or waits on the retired list. -/
def Routes.Reaches (r : Routes) (chain : List Node) : Prop :=
  (∃ i page s, r.pages i = some page ∧ page s = chain) ∨ ∃ record ∈ r.retired, record.chain = chain

/-- The chain is not lost: it can still be reached, or it was freed. -/
def Routes.Accounts (r : Routes) (chain : List Node) : Prop :=
  r.Reaches chain ∨ ∀ n ∈ chain, n.addr ∈ r.freed

/-- **What a caller that sees `-1` relies on**: lookups find what they found, no finalizer was
called, and no chain is lost. -/
structure Untouched (r r' : Routes) : Prop where
  lookups : ∀ p, (routesLookup r' p).1 = (routesLookup r p).1
  finalizers : r'.finalized = r.finalized
  chains : ∀ chain, r.Reaches chain → r'.Accounts chain

/-- The old chain of an id can be freed at once, or there is memory to retire it. -/
def RouteMem.Retires (mem : RouteMem) (r : Routes) (procId : UInt64) : Prop :=
  r.chainOf procId = [] ∨ r.activeReaders = 0 ∨ mem.retired = true

/-- The chain of an id can be copied: there is memory for each route of another id. -/
def RouteMem.CopiesOthers (mem : RouteMem) (r : Routes) (procId : UInt64) : Prop :=
  ∀ i < (r.chainOf procId).countP (fun n => n.route.procId != procId), mem.copy i = true

/-- The chain of an id can be copied, and the old one can be neither freed nor retired. -/
def RouteMem.Strands (mem : RouteMem) (r : Routes) (procId : UInt64) : Prop :=
  mem.CopiesOthers r procId ∧
    r.chainOf procId ≠ [] ∧ r.activeReaders ≠ 0 ∧ mem.retired = false

/-- The chain of an id hangs in the slot of the id and nowhere else, its nodes were handed out
before, and none of them was freed. -/
structure Routes.Owns (r : Routes) (procId : UInt64) : Prop where
  older : ∀ n ∈ r.chainOf procId, n.addr < r.nextAddr
  kept : ∀ n ∈ r.chainOf procId, n.addr ∉ r.freed
  slot : ∀ i j, ∀ n ∈ r.chainOf procId, r.InSlot i j n → i = pageIdx procId ∧ j = slotIdx procId
  unretired : ∀ record ∈ r.retired, ∀ n ∈ record.chain, n ∉ r.chainOf procId

/-- **A call that fails changes nothing, unless it strands the old chain.** The chain counts as lost
only in a table that owned it. -/
def CleanUnless (r : Routes) (procId : UInt64) (strands : Prop) (call : Rc × Routes) : Prop :=
  (¬ strands → call.1 = .err → Untouched r call.2) ∧
    (r.Owns procId → ((call.1 = .err → Untouched r call.2) ↔ ¬ strands))

section Failures

variable {mem : RouteMem} {r r' : Routes} {q : UInt64} {node : Node}

/-- `retire_route` fails exactly if a chain is to be retired and there is no memory for it. -/
theorem retireRoute_fst_eq_err {chain : List Node} {one : Bool} :
    (retireRoute mem r chain one q).1 = .err ↔
      chain ≠ [] ∧ r.activeReaders ≠ 0 ∧ mem.retired = false := by
  unfold retireRoute
  split_ifs with hnil hreaders hmem
  · simp [hnil]
  · simp [hreaders]
  · simp [hmem]
  · simp [hnil, hreaders, hmem]

theorem finalizable_false (procId : UInt64) (chain : List Node) :
    finalizable false false procId chain = [] := by
  simp [finalizable]

/-- A page that was missing is stored: the slots of the others are kept. -/
theorem withPage_slot {i s : UInt32} {page : UInt32 → List Node} (h : r.pages i = some page) :
    ∃ page', (r.withPage q).pages i = some page' ∧ page' s = page s := by
  rw [Routes.withPage, publish_pages]
  by_cases hi : i = pageIdx q
  · subst hi
    refine ⟨_, Function.update_self _ _ _, ?_⟩
    rw [← getD_pages_slotIdx, Function.update_eq_self, h, Option.getD_some]
  · exact ⟨page, by rw [Function.update_of_ne hi, h], rfl⟩

/-- Slots that are kept, and a retired list that is kept, are all that a caller sees. -/
theorem Untouched.of_slots (hchain : ∀ p, r'.chainOf p = r.chainOf p)
    (hslots : ∀ i page s, r.pages i = some page →
      ∃ page', r'.pages i = some page' ∧ page' s = page s)
    (hretired : r'.retired = r.retired) (hfinalized : r'.finalized = r.finalized) :
    Untouched r r' := by
  refine ⟨fun p => ?_, hfinalized, fun chain hreach => .inl ?_⟩
  · rw [routesLookup_fst, routesLookup_fst, Routes.entry, Routes.entry, hchain]
  · rcases hreach with ⟨i, page, s, hpage, rfl⟩ | ⟨record, hmem, rfl⟩
    · obtain ⟨page', hpage', hslot⟩ := hslots i page s hpage
      exact .inl ⟨i, page', s, hpage', hslot⟩
    · exact .inr ⟨record, hretired ▸ hmem, rfl⟩

/-- New nodes that are freed again leave nothing behind. -/
theorem untouched_chainFree (next : ℕ) (nodes : List Node) :
    Untouched r (chainFree { r with nextAddr := next } nodes false false 0) := by
  refine .of_slots (fun p => rfl) (fun i page s hpage => ⟨page, hpage, rfl⟩) rfl ?_
  show r.finalized ++ _ = r.finalized
  rw [finalizable_false, List.append_nil]

/-- The same after a page was stored for them. -/
theorem untouched_withPage (q : UInt64) (next : ℕ) (nodes : List Node) :
    Untouched r (chainFree { r.withPage q with nextAddr := next } nodes false false 0) := by
  refine .of_slots (fun p => chainOf_withPage r q p) (fun i page s hpage => withPage_slot hpage)
    rfl ?_
  show r.finalized ++ _ = r.finalized
  rw [finalizable_false, List.append_nil]

/-! ## Calls that fail before the store -/

theorem RouteMem.copiesOthers_iff {addr : ℕ} :
    mem.CopiesOthers r q ↔ (copyChain mem.copy q addr (r.chainOf q) [] false).1 = .ok := by
  rw [copyChain_fst_eq_ok, RouteMem.CopiesOthers, List.length_nil]
  simp only [Nat.zero_add]

/-- If the copies are made and the old chain is not stranded, it can be freed or retired. -/
theorem RouteMem.retires_of_copyChain (h : ¬ mem.Strands r q) {addr : ℕ}
    (hcopy : (copyChain mem.copy q addr (r.chainOf q) [] false).1 = .ok) : mem.Retires r q := by
  by_contra hret
  simp only [RouteMem.Retires, not_or, Bool.not_eq_true] at hret
  exact h ⟨RouteMem.copiesOthers_iff.mpr hcopy, hret⟩

theorem RouteMem.Retires.not_strands (h : mem.Retires r q) : ¬ mem.Strands r q := by
  rintro ⟨-, hchain, hactive, hmem⟩
  rcases h with h | h | h
  · exact hchain h
  · exact hactive h
  · exact absurd h (by simp [hmem])

/-- A retirement that is asked for does not fail. -/
theorem RouteMem.Retires.ok (h : mem.Retires r q) {r' : Routes} {one : Bool}
    (hreaders : r'.activeReaders = r.activeReaders) :
    (retireRoute mem r' (r.chainOf q) one q).1 = .ok := by
  cases hrc : (retireRoute mem r' (r.chainOf q) one q).1 with
  | ok => rfl
  | err =>
    rw [retireRoute_fst_eq_err, hreaders] at hrc
    rcases h with h | h | h
    · exact absurd h hrc.1
    · exact absurd h hrc.2.1
    · exact absurd h (by simp [hrc.2.2])

/-- **An addition that fails changes nothing.** Only the last of its allocations comes after the
store of the new chain. -/
theorem untouched_routesAddRoute (h : ¬ mem.Strands r node.route.procId)
    (herr : (routesAddRoute mem r node).1 = .err) : Untouched r (routesAddRoute mem r node).2 := by
  by_cases hpage : r.pages (pageIdx node.route.procId) = none ∧ mem.page = false
  · -- there is no page
    have hadd : routesAddRoute mem r node = (.err, chainFree r [node] false false 0) := by
      unfold routesAddRoute
      exact if_pos hpage
    rw [hadd]
    exact untouched_chainFree r.nextAddr [node]
  rw [routesAddRoute_eq hpage] at herr ⊢
  rcases hcopy : copyChain mem.copy node.route.procId r.nextAddr (r.chainOf node.route.procId) []
    false with ⟨rc, copies, replaced⟩
  rw [hcopy] at herr
  cases rc with
  | err => exact untouched_withPage _ _ _
  | ok =>
    -- the store is done, and what is left to fail is the retirement
    have hret := RouteMem.retires_of_copyChain h (congrArg Prod.fst hcopy)
    exact absurd (herr.symm.trans (hret.ok (by rfl))) (by decide)

/-- An addition that cannot even allocate its route, or whose route fails to be added. -/
theorem untouched_addAllocated {route : Route}
    (h : ¬ (mem.route = true ∧ mem.Strands r route.procId))
    (herr : (addAllocated mem r route).1 = .err) : Untouched r (addAllocated mem r route).2 := by
  unfold addAllocated at herr ⊢
  split_ifs at herr ⊢ with hmem
  · have hadd : Untouched { r with nextAddr := r.nextAddr + 1, nextAdded := r.nextAdded + 1 }
        (routesAddRoute mem _ ⟨r.nextAddr, r.nextAdded, route⟩).2 :=
      untouched_routesAddRoute (fun hstrands => h ⟨hmem, hstrands⟩) herr
    exact ⟨hadd.lookups, hadd.finalizers, hadd.chains⟩
  · exact ⟨fun _ => rfl, rfl, fun _ => .inl⟩

/-- The copying loop drops a route exactly if there is one. -/
theorem any_procId_eq (r : Routes) (q : UInt64) :
    ((r.chainOf q).any fun n => n.route.procId == q) = (r.entry q).isSome := by
  rw [Routes.entry, Bool.eq_iff_iff]
  simp

/-- **A removal that fails changes nothing.** -/
theorem untouched_routesRemove (h : ¬ ((r.entry q).isSome = true ∧ mem.Strands r q))
    (herr : (routesRemove mem r q).1 = .err) : Untouched r (routesRemove mem r q).2 := by
  unfold routesRemove at herr ⊢
  rcases hcopy : copyChain mem.copy q r.nextAddr (r.chainOf q) [] false with ⟨rc, copies, removed⟩
  simp only [hcopy] at herr ⊢
  cases rc with
  | err => exact untouched_chainFree _ copies
  | ok =>
    -- the copies are published only if a route was dropped from them
    cases hpage : r.pages (pageIdx q) with
    | none => exact untouched_chainFree _ copies
    | some page =>
      cases removed with
      | false => exact untouched_chainFree _ copies
      | true =>
        have hentry : (r.entry q).isSome = true := by
          rw [← any_procId_eq, ← Bool.false_or (List.any _ _), ← (copyChain_eq_ok hcopy).2]
        have hret := RouteMem.retires_of_copyChain (fun hstrands => h ⟨hentry, hstrands⟩)
          (congrArg Prod.fst hcopy)
        simp only [hpage] at herr
        exact absurd (herr.symm.trans (hret.ok (by rfl))) (by decide)

/-! ## Calls that strand the old chain -/

/-- The new chain is in the slot of the id, with new nodes only, and nothing was done about the old
one. -/
structure Stranded (r : Routes) (q : UInt64) (head : List Node) (r' : Routes) : Prop where
  pages : r'.pages = (r.publish q ((r.pages (pageIdx q)).getD fun _ => []) head).pages
  new : ∀ n ∈ head, r.nextAddr ≤ n.addr
  freed : r'.freed = r.freed
  retired : r'.retired = r.retired

/-- The copies are made, and the retirement fails. -/
theorem RouteMem.Strands.copyChain (h : mem.Strands r q) (addr : ℕ) :
    ∃ copies, copyChain mem.copy q addr (r.chainOf q) [] false =
        (.ok, copies, (r.entry q).isSome) ∧ ∀ n ∈ copies, addr ≤ n.addr := by
  rcases hcopy : Wirecall.copyChain mem.copy q addr (r.chainOf q) [] false with
    ⟨rc, copies, dropped⟩
  have hok := (@RouteMem.copiesOthers_iff mem r q addr).mp h.1
  rw [hcopy] at hok
  cases hok
  obtain ⟨hcopies, hall⟩ := copyChain_copies hcopy
  refine ⟨copies, ?_, fun n hn => (hcopies.addr n hn).1⟩
  rw [← any_procId_eq, (hall rfl).dropped]

theorem RouteMem.Strands.retireRoute (h : mem.Strands r q) {r' : Routes} {one : Bool}
    (hreaders : r'.activeReaders = r.activeReaders) :
    retireRoute mem r' (r.chainOf q) one q = (.err, r') := by
  obtain ⟨-, hchain, hactive, hmem⟩ := h
  unfold Wirecall.retireRoute
  rw [if_neg hchain, hreaders, if_neg hactive, hmem]
  rfl

/-- **An addition that strands the old chain** returns `-1` and is in force all the same. -/
theorem stranded_addAllocated {route : Route} (hmem : mem.route = true)
    (h : mem.Strands r route.procId) :
    ∃ head r', addAllocated mem r route = (.err, r') ∧ Stranded r route.procId head r' := by
  -- a chain that is not empty has a page, so none is asked for
  have hpage : ¬ (r.pages (pageIdx route.procId) = none ∧ mem.page = false) := by
    rintro ⟨hnone, -⟩
    exact h.2.1 (by rw [Routes.chainOf, hnone]; rfl)
  obtain ⟨copies, hcopy, hnew⟩ := h.copyChain (r.nextAddr + 1)
  have hadd := @routesAddRoute_eq
    { r with nextAddr := r.nextAddr + 1, nextAdded := r.nextAdded + 1 } mem
    ⟨r.nextAddr, r.nextAdded, route⟩ hpage
  have hchain : Routes.chainOf
      { r with nextAddr := r.nextAddr + 1, nextAdded := r.nextAdded + 1 } route.procId =
        r.chainOf route.procId := rfl
  simp only [hchain, hcopy] at hadd
  have hcall : addAllocated mem r route = (.err, _) :=
    (if_pos hmem).trans (hadd.trans (h.retireRoute (by rfl)))
  refine ⟨⟨r.nextAddr, r.nextAdded, route⟩ :: copies, _, hcall, ?_, ?_, rfl, rfl⟩
  · -- the page was stored twice
    simp only [Routes.publish, Routes.withPage, Function.update_idem]
  · refine List.forall_mem_cons.mpr ⟨le_rfl, fun n hn => ?_⟩
    exact Nat.le_of_succ_le (hnew n hn)

/-- **A removal that strands the old chain** returns `-1` and has removed the route. -/
theorem stranded_routesRemove (hentry : (r.entry q).isSome = true) (h : mem.Strands r q) :
    ∃ head r', routesRemove mem r q = (.err, r') ∧ Stranded r q head r' := by
  obtain ⟨copies, hcopy, hnew⟩ := h.copyChain r.nextAddr
  obtain ⟨page, hpage⟩ : ∃ page, r.pages (pageIdx q) = some page := by
    refine Option.ne_none_iff_exists'.mp fun hnone => h.2.1 ?_
    rw [Routes.chainOf, hnone]
    rfl
  have hremove : routesRemove mem r q = retireRoute mem (Routes.publish
      { r with nextAddr := r.nextAddr + copies.length } q page copies) (r.chainOf q) true q := by
    unfold routesRemove
    simp only [hcopy, hentry, hpage]
  refine ⟨copies, _, hremove.trans (h.retireRoute (by rfl)), ?_, hnew, rfl, rfl⟩
  rw [hpage]
  rfl

/-- **A chain that is stranded is lost**: it was in its slot, which holds new nodes now. -/
theorem Stranded.not_untouched {head : List Node} (h : Stranded r q head r') (howns : r.Owns q)
    (hchain : r.chainOf q ≠ []) : ¬ Untouched r r' := by
  intro hsame
  obtain ⟨n, hn⟩ := List.exists_mem_of_ne_nil _ hchain
  obtain ⟨page, hpage, -⟩ := Routes.inSlot_of_mem_chainOf hn
  have hslot : page (slotIdx q) = r.chainOf q := by rw [Routes.chainOf, hpage]; rfl
  rcases hsame.chains _ (.inl ⟨_, page, _, hpage, hslot⟩) with hreach | hfreed
  · -- nothing holds the old chain: its slot has new nodes, and the other places never had it
    rcases hreach with ⟨i, page', j, hpage', hold⟩ | ⟨record, hrecord, hold⟩
    · have hin : (r.publish q ((r.pages (pageIdx q)).getD fun _ => []) head).InSlot i j n :=
        ⟨page', h.pages ▸ hpage', hold ▸ hn⟩
      rcases hin.of_publish rfl with ⟨-, -, hhead⟩ | ⟨hne, hin⟩
      · exact absurd (howns.older n hn) (by simpa using h.new n hhead)
      · exact hne (howns.slot i j n hn hin)
    · rw [h.retired] at hrecord
      exact howns.unretired record hrecord n (hold ▸ hn) hn
  · rw [h.freed] at hfreed
    exact howns.kept n hn (hfreed n hn)

/-- What is to be shown of a call. -/
theorem CleanUnless.of_stranded {strands : Prop} {call : Rc × Routes}
    (hclean : ¬ strands → call.1 = .err → Untouched r call.2)
    (hstrands : strands → r.chainOf q ≠ [] ∧
      ∃ head r', call = (.err, r') ∧ Stranded r q head r') : CleanUnless r q strands call := by
  refine ⟨hclean, fun howns => ⟨fun hsame hstrand => ?_, hclean⟩⟩
  obtain ⟨hchain, head, r', rfl, hlost⟩ := hstrands hstrand
  exact hlost.not_untouched howns hchain (hsame rfl)

theorem cleanUnless_addAllocated {route : Route} :
    CleanUnless r route.procId (mem.route = true ∧ mem.Strands r route.procId)
      (addAllocated mem r route) := by
  refine .of_stranded untouched_addAllocated ?_
  rintro ⟨hmem, hstrands⟩
  exact ⟨hstrands.2.1, stranded_addAllocated hmem hstrands⟩

/-- A call that is refused on its first line. -/
theorem CleanUnless.refused {strands : Prop} (h : ¬ strands) :
    CleanUnless r q strands (.err, r) :=
  .of_stranded (fun _ _ => ⟨fun _ => rfl, rfl, fun _ => .inl⟩) fun hstrands => absurd hstrands h

end Failures

/-- **Every table in use owns its chains**: in every run of lookups and mutations with fewer than
`2 ^ 32` lookups inside at a time, until the table is destroyed. -/
theorem owns_of_exec {labels : List RouteStep} {s : Shared}
    (hexec : Machine.exec Shared.step Shared.init labels = some s)
    (hmeets : Machine.Meets Shared.step (fun s _ => s.inside.length < 2 ^ 32) Shared.init labels)
    (hdestroyed : s.destroyed = false) (procId : UInt64) : s.table.Owns procId := by
  obtain ⟨-, -, hcustody⟩ := custody_of_exec hexec hmeets
  obtain ⟨place, hplace⟩ := hcustody hdestroyed
  -- a node has one place, and for a node of the chain it is the slot of the id
  have hslot (n : Node) (hn : n ∈ s.table.chainOf procId) :
      place n.addr = .slot (pageIdx procId) (slotIdx procId) :=
    hplace.slot _ _ n (Routes.inSlot_of_mem_chainOf hn)
  refine ⟨fun n hn => ?_, fun n hn hfreed => ?_, fun i j n hn hin => ?_,
    fun record hrecord n hmem hn => ?_⟩
  · by_contra hle
    have := hplace.fresh n.addr (by omega)
    rw [hslot n hn] at this
    cases this
  · have := hplace.freed _ hfreed
    rw [hslot n hn] at this
    cases this
  · have := hplace.slot i j n hin
    rw [hslot n hn] at this
    cases this
    exact ⟨rfl, rfl⟩
  · have := hplace.retired record hrecord n hmem
    rw [hslot n hn] at this
    cases this

/-- **A mutation that fails changes nothing, unless it strands the old chain of its id**: it was
called with a handler, or for a route that is there, all it asks for before the store is granted,
and the old chain can be neither freed nor retired. -/
theorem failed_mutation_untouched (mem : RouteMem) (r : Routes) (procId : UInt64) :
    (∀ handler userData finalizer isAsync,
      CleanUnless r procId
        (handler.isSome = true ∧ mem.route = true ∧ mem.Strands r procId)
        (routesAddEx mem r procId handler userData finalizer isAsync)) ∧
    (∀ handler userData finalizer,
      CleanUnless r procId
        (handler.isSome = true ∧ mem.route = true ∧ mem.Strands r procId)
        (routesAddDeferredEx mem r procId handler userData finalizer)) ∧
    CleanUnless r procId ((r.entry procId).isSome = true ∧ mem.Strands r procId)
      (routesRemove mem r procId) := by
  refine ⟨fun handler userData finalizer isAsync => ?_, fun handler userData finalizer => ?_, ?_⟩
  · cases handler with
    | none => exact .refused fun h => Bool.false_ne_true h.1
    | some handler =>
      rw [Option.isSome_some, eq_self, true_and]
      exact @cleanUnless_addAllocated mem r (callRoute procId handler userData finalizer isAsync)
  · cases handler with
    | none => exact .refused fun h => Bool.false_ne_true h.1
    | some handler =>
      rw [Option.isSome_some, eq_self, true_and]
      exact @cleanUnless_addAllocated mem r (deferredRoute procId handler userData finalizer)
  · refine .of_stranded untouched_routesRemove ?_
    rintro ⟨hentry, hstrands⟩
    exact ⟨hstrands.2.1, stranded_routesRemove hentry hstrands⟩

/-- A table in which id 7 has a route with a finalizer, while a lookup is in progress. -/
def watchedTable : Routes :=
  { runRoutes [.addEx 7 (some 1) 10 (some 3) false] with activeReaders := 1 }

/-- Two additions that fail early, while a lookup is in progress and the record is refused as well:
one finds no memory for its page, the other none for its route. -/
theorem failed_mutation_untouched_early :
    (routesAddEx ⟨true, false, fun _ => true, false⟩ watchedTable 8 (some 2) 20 none
        false).1 = .err ∧
      Untouched watchedTable (routesAddEx ⟨true, false, fun _ => true, false⟩ watchedTable 8
        (some 2) 20 none false).2 ∧
      (routesAddEx ⟨false, true, fun _ => true, false⟩ watchedTable 7 (some 2) 20 none
        false).1 = .err ∧
      Untouched watchedTable (routesAddEx ⟨false, true, fun _ => true, false⟩ watchedTable 7
        (some 2) 20 none false).2 := by
  have hpage : (routesAddEx ⟨true, false, fun _ => true, false⟩ watchedTable 8 (some 2) 20 none
      false).1 = .err := by
    decide +kernel
  have hroute : (routesAddEx ⟨false, true, fun _ => true, false⟩ watchedTable 7 (some 2) 20 none
      false).1 = .err := by
    decide +kernel
  have hempty : watchedTable.chainOf 8 = [] := by decide +kernel
  refine ⟨hpage, ?_, hroute, ?_⟩
  · exact ((failed_mutation_untouched _ _ _).1 _ _ _ _).1 (fun h => h.2.2.2.1 hempty) hpage
  · exact ((failed_mutation_untouched _ _ _).1 _ _ _ _).1 (fun h => Bool.false_ne_true h.2.1) hroute

/-- The route is replaced, and the record for the old chain is refused. -/
def refusedAddition : Rc × Routes :=
  routesAddEx { RouteMem.granting with retired := false } watchedTable 7 (some 2) 20 none false

/-- **An addition that returns `-1` and is in force**: lookups find its route, and the old chain is
neither in its slot nor on the retired list nor freed. -/
theorem failed_addition_published :
    refusedAddition.1 = .err ∧
      (routesLookup watchedTable 7).1 = some (callRoute 7 1 10 (some 3) false) ∧
      (routesLookup refusedAddition.2 7).1 = some (callRoute 7 2 20 none false) ∧
      (∃ n ∈ watchedTable.chainOf 7, n ∉ refusedAddition.2.chainOf 7 ∧
        n.addr ∉ refusedAddition.2.freed) ∧
      refusedAddition.2.retired = [] := by
  refine ⟨by decide +kernel, by decide +kernel, by decide +kernel, ?_, by decide +kernel⟩
  exact ⟨⟨0, 0, callRoute 7 1 10 (some 3) false⟩, by decide +kernel, by decide +kernel,
    by decide +kernel⟩

end Wirecall

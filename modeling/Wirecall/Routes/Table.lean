import Wirecall.Memory.Growth

/-!
# The route table

`routes.c`: a root of lazily allocated pages of slots, each slot the head of a chain of routes
whose ids share an index. A mutation copies the chain without the route it drops, publishes the
copy, and frees the old chain or, while a lookup is in progress, retires it. Handlers, finalizers
and user data are the numbers of the pointers. Freed nodes and finalizer calls are kept as a
record of what happened.

## Main definitions

* `Route`, `Node`, `Retired`, `Routes`: the table
* `routeIndex`, `pageIdx`, `slotIdx`: where a `proc_id` is kept
* `copyChain`, `chainFree`, `freeRetired`, `retireRoute`: the parts of a mutation
* `routesAddEx`, `routesAddDeferredEx`, `routesRemove`, `routesLookup`: the functions
* `Routes.entry`: what a lookup of a `proc_id` finds

## Main results

* `entry_routesAddRoute`, `entry_routesRemove`: a mutation changes the entry of its own id only
* `routes_finite_map`: **the table is a finite map keyed by `proc_id`**
-/

namespace Wirecall

/-- `wirecall_route`, without the link to the next one. -/
structure Route where
  procId : UInt64
  handler : Option ℕ
  deferredHandler : Option ℕ
  userData : ℕ
  finalizer : Option ℕ
  isAsync : Bool
  isDeferred : Bool
  deriving DecidableEq, Repr

/-- An allocated `wirecall_route`. The number of the addition it goes back to is copied with the
route, so it names the route across all the copies of its node. -/
structure Node where
  addr : ℕ
  added : ℕ
  route : Route
  deriving DecidableEq, Repr

/-- `wirecall_retired_route`. -/
structure Retired where
  chain : List Node
  finalizeProcId : UInt64
  finalizeAll : Bool
  finalizeOne : Bool
  deriving DecidableEq, Repr

/-- `wirecall_routes`. A chain is the list of its nodes. The last four fields record the
addresses and additions handed out, the nodes freed and the routes whose finalizer was called. -/
structure Routes where
  pages : UInt32 → Option (UInt32 → List Node)
  activeReaders : UInt32
  retired : List Retired
  nextAddr : ℕ
  nextAdded : ℕ
  freed : List ℕ
  finalized : List Node

/-- `wirecall_routes_init`. -/
def routesInit : Routes where
  pages := fun _ => none
  activeReaders := 0
  retired := []
  nextAddr := 0
  nextAdded := 0
  freed := []
  finalized := []

/-- The answers of the allocator during one mutation: for the new route, for a page, for each
copy of a node and for the record of a retired chain. -/
structure RouteMem where
  route : Bool
  page : Bool
  copy : ℕ → Bool
  retired : Bool

/-- An allocator that grants every request. -/
def RouteMem.granting : RouteMem := ⟨true, true, fun _ => true, true⟩

/-! ## Where a route is kept -/

/-- `route_index`. -/
def routeIndex (procId : UInt64) : UInt32 :=
  let x := procId ^^^ (procId >>> 33)
  let x := x * 0xff51afd7ed558ccd
  let x := x ^^^ (x >>> 33)
  let x := x * 0xc4ceb9fe1a85ec53
  let x := x ^^^ (x >>> 33)
  x.toUInt32

/-- The page of a `proc_id`. -/
@[irreducible] def pageIdx (procId : UInt64) : UInt32 := routeIndex procId >>> 16

/-- The slot of a `proc_id` in its page. -/
@[irreducible] def slotIdx (procId : UInt64) : UInt32 := routeIndex procId &&& 0xffff

/-- The chain a `proc_id` is looked up in: a page that was never allocated has none. -/
def Routes.chainOf (r : Routes) (procId : UInt64) : List Node :=
  (r.pages (pageIdx procId)).elim [] fun page => page (slotIdx procId)

/-- The store of a new head into the slot of a `proc_id`. -/
def Routes.publish (r : Routes) (procId : UInt64) (page : UInt32 → List Node)
    (head : List Node) : Routes :=
  { r with
    pages := Function.update r.pages (pageIdx procId)
      (some (Function.update page (slotIdx procId) head)) }

/-! ## The parts of a mutation -/

/-- The nodes of a chain whose finalizer `route_chain_free` calls. -/
def finalizable (all one : Bool) (procId : UInt64) (chain : List Node) : List Node :=
  chain.filter fun n => (all || (one && n.route.procId == procId)) && n.route.finalizer.isSome

/-- `route_chain_free`. -/
def chainFree (r : Routes) (chain : List Node) (all one : Bool) (procId : UInt64) : Routes :=
  { r with
    freed := r.freed ++ chain.map Node.addr
    finalized := r.finalized ++ finalizable all one procId chain }

/-- `free_retired`: nothing happens while a lookup is in progress. -/
def freeRetired (r : Routes) : Routes :=
  if r.activeReaders ≠ 0 then r
  else
    r.retired.foldl (fun r node => chainFree r node.chain node.finalizeAll node.finalizeOne
      node.finalizeProcId) { r with retired := [] }

/-- `retire_route`. -/
def retireRoute (mem : RouteMem) (r : Routes) (chain : List Node) (finalizeOne : Bool)
    (procId : UInt64) : Rc × Routes :=
  if chain = [] then (.ok, r)
  else if r.activeReaders = 0 then (.ok, chainFree r chain false finalizeOne procId)
  else if mem.retired then
    let node : Retired := ⟨chain, procId, false, finalizeOne⟩
    (.ok, freeRetired { r with retired := node :: r.retired })
  else (.err, r)

/-- The copying loop both mutations run over the old chain, from the copies made so far and
whether a route was dropped. Copy number `i` is allocated at `addr + i`. -/
def copyChain (grant : ℕ → Bool) (procId : UInt64) (addr : ℕ) :
    List Node → List Node → Bool → Rc × List Node × Bool
  | [], copies, dropped => (.ok, copies, dropped)
  | it :: rest, copies, dropped =>
    if it.route.procId = procId then copyChain grant procId addr rest copies true
    else if grant copies.length then
      copyChain grant procId addr rest
        (copies ++ [{ it with addr := addr + copies.length }]) dropped
    else (.err, copies, dropped)

/-- `routes_add_route`, with the new route at the head of the chain. -/
def routesAddRoute (mem : RouteMem) (r : Routes) (node : Node) : Rc × Routes :=
  let procId := node.route.procId
  let page := (r.pages (pageIdx procId)).getD fun _ => []
  if r.pages (pageIdx procId) = none ∧ mem.page = false then
    (.err, chainFree r [node] false false 0)
  else
    let old := page (slotIdx procId)
    -- a page that was missing is stored before the chain is copied
    let r := r.publish procId page old
    match copyChain mem.copy procId r.nextAddr old [] false with
    | (.err, copies, _) =>
      (.err, chainFree { r with nextAddr := r.nextAddr + copies.length } (node :: copies)
        false false 0)
    | (.ok, copies, replaced) =>
      let r := { r with nextAddr := r.nextAddr + copies.length }
      retireRoute mem (r.publish procId page (node :: copies)) old replaced procId

/-- The allocation and initialisation of a route both ways of adding one start with. -/
def addAllocated (mem : RouteMem) (r : Routes) (route : Route) : Rc × Routes :=
  if mem.route then
    routesAddRoute mem { r with nextAddr := r.nextAddr + 1, nextAdded := r.nextAdded + 1 }
      ⟨r.nextAddr, r.nextAdded, route⟩
  else (.err, r)

/-- The route `wirecall_routes_add_ex` stores. -/
def callRoute (procId : UInt64) (handler : ℕ) (userData : ℕ) (finalizer : Option ℕ)
    (isAsync : Bool) : Route where
  procId := procId
  handler := some handler
  deferredHandler := none
  userData := userData
  finalizer := finalizer
  isAsync := isAsync
  isDeferred := false

/-- The route `wirecall_routes_add_deferred_ex` stores. -/
def deferredRoute (procId : UInt64) (handler : ℕ) (userData : ℕ) (finalizer : Option ℕ) :
    Route where
  procId := procId
  handler := none
  deferredHandler := some handler
  userData := userData
  finalizer := finalizer
  isAsync := false
  isDeferred := true

/-- `wirecall_routes_add_ex`. -/
def routesAddEx (mem : RouteMem) (r : Routes) (procId : UInt64) (handler : Option ℕ)
    (userData : ℕ) (finalizer : Option ℕ) (isAsync : Bool) : Rc × Routes :=
  match handler with
  | none => (.err, r)
  | some handler => addAllocated mem r (callRoute procId handler userData finalizer isAsync)

/-- `wirecall_routes_add_deferred_ex`. -/
def routesAddDeferredEx (mem : RouteMem) (r : Routes) (procId : UInt64) (handler : Option ℕ)
    (userData : ℕ) (finalizer : Option ℕ) : Rc × Routes :=
  match handler with
  | none => (.err, r)
  | some handler => addAllocated mem r (deferredRoute procId handler userData finalizer)

/-- `wirecall_routes_remove`. The chain is copied even when nothing is dropped from it. -/
def routesRemove (mem : RouteMem) (r : Routes) (procId : UInt64) : Rc × Routes :=
  let old := r.chainOf procId
  match copyChain mem.copy procId r.nextAddr old [] false with
  | (.err, copies, _) =>
    (.err, chainFree { r with nextAddr := r.nextAddr + copies.length } copies false false 0)
  | (.ok, copies, removed) =>
    let r := { r with nextAddr := r.nextAddr + copies.length }
    match r.pages (pageIdx procId), removed with
    | some page, true => retireRoute mem (r.publish procId page copies) old true procId
    | _, _ => (.err, chainFree r copies false false 0)

/-- `wirecall_routes_lookup`: the route is copied out between the two changes of the reader
count, and the last reader frees what was retired meanwhile. -/
def routesLookup (r : Routes) (procId : UInt64) : Option Route × Routes :=
  let r := { r with activeReaders := r.activeReaders + 1 }
  let found := (r.chainOf procId).find? fun n => n.route.procId == procId
  let old := r.activeReaders
  let r := { r with activeReaders := r.activeReaders - 1 }
  (found.map Node.route, if old = 1 then freeRetired r else r)

/-- What a lookup of a `proc_id` finds. -/
def Routes.entry (r : Routes) (procId : UInt64) : Option Route :=
  ((r.chainOf procId).map Node.route).find? fun route => route.procId == procId

/-! ## What freeing and retiring leaves alone -/

@[simp] theorem chainFree_pages (r : Routes) (chain : List Node) (all one : Bool)
    (procId : UInt64) : (chainFree r chain all one procId).pages = r.pages := rfl

@[simp] theorem chainFree_activeReaders (r : Routes) (chain : List Node) (all one : Bool)
    (procId : UInt64) : (chainFree r chain all one procId).activeReaders = r.activeReaders := rfl

@[simp] theorem freeRetired_pages (r : Routes) : (freeRetired r).pages = r.pages := by
  have hfold : ∀ (nodes : List Retired) (r : Routes),
      (nodes.foldl (fun r node => chainFree r node.chain node.finalizeAll node.finalizeOne
        node.finalizeProcId) r).pages = r.pages := by
    intro nodes
    induction nodes with
    | nil => exact fun _ => rfl
    | cons node nodes ih =>
      intro r
      rw [List.foldl_cons, ih, chainFree_pages]
  unfold freeRetired
  split
  · rfl
  · exact hfold _ _

@[simp] theorem retireRoute_pages (mem : RouteMem) (r : Routes) (chain : List Node)
    (one : Bool) (procId : UInt64) : (retireRoute mem r chain one procId).2.pages = r.pages := by
  unfold retireRoute
  split_ifs <;> simp

theorem retireRoute_granting (r : Routes) (chain : List Node) (one : Bool) (procId : UInt64) :
    (retireRoute .granting r chain one procId).1 = .ok := by
  unfold retireRoute
  split_ifs with hnil hreaders hmem
  · rfl
  · rfl
  · rfl
  · exact absurd rfl hmem

/-- A lookup finds the entry, and changes neither the table nor the number of readers. -/
theorem routesLookup_fst (r : Routes) (procId : UInt64) :
    (routesLookup r procId).1 = r.entry procId := by
  simp only [routesLookup, Routes.entry, List.find?_map]
  rfl

theorem routesLookup_pages (r : Routes) (procId : UInt64) :
    (routesLookup r procId).2.pages = r.pages := by
  simp only [routesLookup]
  split <;> simp

/-! ## Publishing a chain -/

theorem chainOf_congr {r r' : Routes} (h : r.pages = r'.pages) (procId : UInt64) :
    r.chainOf procId = r'.chainOf procId := by
  rw [Routes.chainOf, Routes.chainOf, h]

theorem entry_congr {r r' : Routes} (h : r.pages = r'.pages) (procId : UInt64) :
    r.entry procId = r'.entry procId := by
  rw [Routes.entry, Routes.entry, chainOf_congr h]

theorem publish_pages (r : Routes) (q : UInt64) (page : UInt32 → List Node) (head : List Node) :
    (r.publish q page head).pages = Function.update r.pages (pageIdx q)
      (some (Function.update page (slotIdx q) head)) := rfl

/-- The chain of `p` after a store into the slot of `q`. -/
theorem chainOf_publish {r : Routes} {q : UInt64} {page : UInt32 → List Node}
    (hpage : (r.pages (pageIdx q)).getD (fun _ => []) = page) (head : List Node) (p : UInt64) :
    (r.publish q page head).chainOf p =
      if pageIdx p = pageIdx q ∧ slotIdx p = slotIdx q then head else r.chainOf p := by
  rw [Routes.chainOf, Routes.chainOf, publish_pages]
  by_cases hp : pageIdx p = pageIdx q
  · rw [hp, Function.update_self, Option.elim_some]
    by_cases hs : slotIdx p = slotIdx q
    · rw [if_pos ⟨rfl, hs⟩, hs, Function.update_self]
    · rw [if_neg fun h => hs h.2, ← hpage, Function.update_of_ne hs]
      cases r.pages (pageIdx q) with
      | none => rfl
      | some page => rfl
  · rw [if_neg fun h => hp h.1, Function.update_of_ne hp]

/-- Every chain holds a `proc_id` at most once, and only ids that belong in its slot. -/
structure Routes.WellFormed (r : Routes) : Prop where
  nodup : ∀ i page s, r.pages i = some page → ((page s).map fun n => n.route.procId).Nodup
  indexed : ∀ i page s, r.pages i = some page → ∀ n ∈ page s,
    pageIdx n.route.procId = i ∧ slotIdx n.route.procId = s

theorem Routes.WellFormed.congr {r r' : Routes} (h : r.WellFormed) (hp : r'.pages = r.pages) :
    r'.WellFormed :=
  ⟨by rw [hp]; exact h.nodup, by rw [hp]; exact h.indexed⟩

/-- The chain of an id holds each id at most once, and only ids of the same slot. -/
theorem Routes.WellFormed.chainOf {r : Routes} (h : r.WellFormed) (q : UInt64) :
    ((r.chainOf q).map fun n => n.route.procId).Nodup ∧ ∀ n ∈ r.chainOf q,
      pageIdx n.route.procId = pageIdx q ∧ slotIdx n.route.procId = slotIdx q := by
  unfold Routes.chainOf
  cases hpage : r.pages (pageIdx q) with
  | none => simp
  | some page => exact ⟨h.nodup _ _ _ hpage, h.indexed _ _ _ hpage⟩

theorem Routes.WellFormed.publish {r : Routes} (h : r.WellFormed) {q : UInt64}
    {page : UInt32 → List Node} (hpage : (r.pages (pageIdx q)).getD (fun _ => []) = page)
    {head : List Node} (hnodup : (head.map fun n => n.route.procId).Nodup)
    (hindexed : ∀ n ∈ head,
      pageIdx n.route.procId = pageIdx q ∧ slotIdx n.route.procId = slotIdx q) :
    (r.publish q page head).WellFormed := by
  -- a slot of the new table holds the new head, a chain of the old page, or is untouched
  have key : ∀ i page' s, (r.publish q page head).pages i = some page' →
      ((page' s).map fun n => n.route.procId).Nodup ∧ ∀ n ∈ page' s,
        pageIdx n.route.procId = i ∧ slotIdx n.route.procId = s := by
    intro i page' s hi
    by_cases hp : i = pageIdx q
    · subst hp
      rw [publish_pages, Function.update_self, Option.some.injEq] at hi
      subst hi
      by_cases hs : s = slotIdx q
      · subst hs
        simpa using ⟨hnodup, hindexed⟩
      · rw [Function.update_of_ne hs]
        cases hold : r.pages (pageIdx q) with
        | none =>
          rw [hold] at hpage
          simp [← hpage]
        | some old =>
          rw [hold, Option.getD_some] at hpage
          subst hpage
          exact ⟨h.nodup _ _ _ hold, h.indexed _ _ _ hold⟩
    · rw [publish_pages, Function.update_of_ne hp] at hi
      exact ⟨h.nodup _ _ _ hi, h.indexed _ _ _ hi⟩
  exact ⟨fun i page' s hi => (key i page' s hi).1, fun i page' s hi => (key i page' s hi).2⟩

/-! ## Copying a chain -/

/-- A copying loop that succeeds keeps the routes of every other id, in order. -/
theorem copyChain_eq_ok {grant : ℕ → Bool} {q : UInt64} {addr : ℕ} {old copies copies' : List Node}
    {dropped dropped' : Bool}
    (h : copyChain grant q addr old copies dropped = (.ok, copies', dropped')) :
    copies'.map Node.route = copies.map Node.route ++
        (old.map Node.route).filter (fun route => route.procId != q) ∧
      dropped' = (dropped || old.any fun n => n.route.procId == q) := by
  induction old generalizing copies dropped with
  | nil =>
    cases h
    simp
  | cons it rest ih =>
    rw [copyChain] at h
    by_cases hq : it.route.procId = q
    · rw [if_pos hq] at h
      obtain ⟨hcopies, hdropped⟩ := ih h
      exact ⟨by simp [hcopies, hq], by simp [hdropped, hq]⟩
    · have hbeq : (it.route.procId == q) = false := beq_eq_false_iff_ne.mpr hq
      rw [if_neg hq] at h
      split at h
      · obtain ⟨hcopies, hdropped⟩ := ih h
        exact ⟨by simp [hcopies, hq], by simp [hdropped, hbeq]⟩
      · cases h

/-- The copying loop succeeds exactly if every copy it makes is granted: one for each route of
another id. -/
theorem copyChain_fst_eq_ok {grant : ℕ → Bool} {q : UInt64} {addr : ℕ} {old copies : List Node}
    {dropped : Bool} :
    (copyChain grant q addr old copies dropped).1 = .ok ↔
      ∀ i < old.countP (fun n => n.route.procId != q), grant (copies.length + i) = true := by
  induction old generalizing copies dropped with
  | nil => simp [copyChain]
  | cons it rest ih =>
    rw [copyChain]
    by_cases hq : it.route.procId = q
    · rw [if_pos hq, ih, List.countP_cons_of_neg (by simp [hq])]
    · rw [if_neg hq, List.countP_cons_of_pos (by simp [hq])]
      split_ifs with hgrant
      · -- this copy is granted, and the loop goes on with the next number
        rw [ih, List.length_append, List.length_singleton]
        constructor
        · rintro hrest (_ | i) hi
          · exact hgrant
          · rw [← Nat.add_assoc, Nat.add_right_comm]
            exact hrest i (by omega)
        · intro hall i hi
          rw [Nat.add_assoc, Nat.add_comm 1 i]
          exact hall (i + 1) (by omega)
      · refine iff_of_false (fun h => by cases h) fun hall => hgrant (hall 0 (by omega))

theorem copyChain_granting (q : UInt64) (addr : ℕ) (old copies : List Node) (dropped : Bool) :
    (copyChain RouteMem.granting.copy q addr old copies dropped).1 = .ok :=
  copyChain_fst_eq_ok.mpr fun _ _ => rfl

/-! ## The mutations -/

section Mutations

variable {r : Routes}

/-- The chain of `q` is what the slot of `q` holds in the page of `q`. -/
theorem getD_pages_slotIdx (r : Routes) (q : UInt64) :
    (r.pages (pageIdx q)).getD (fun _ => []) (slotIdx q) = r.chainOf q := by
  rw [Routes.chainOf]
  cases r.pages (pageIdx q) with
  | none => rfl
  | some page => rfl

/-- The table in which a new node is linked: a page that was missing is stored. -/
def Routes.withPage (r : Routes) (q : UInt64) : Routes :=
  r.publish q ((r.pages (pageIdx q)).getD fun _ => []) (r.chainOf q)

theorem chainOf_withPage (r : Routes) (q p : UInt64) : (r.withPage q).chainOf p = r.chainOf p := by
  rw [Routes.withPage, chainOf_publish rfl]
  split_ifs with hslot
  · rw [Routes.chainOf, Routes.chainOf, hslot.1, hslot.2]
  · rfl

theorem getD_withPage (r : Routes) (q : UInt64) :
    ((r.withPage q).pages (pageIdx q)).getD (fun _ => []) =
      (r.pages (pageIdx q)).getD fun _ => [] := by
  rw [Routes.withPage, publish_pages, Function.update_self, Option.getD_some,
    ← getD_pages_slotIdx, Function.update_eq_self]

/-- `routesAddRoute` once there is a page, by the result of the copying loop. -/
theorem routesAddRoute_eq {mem : RouteMem} {node : Node}
    (hpage : ¬ (r.pages (pageIdx node.route.procId) = none ∧ mem.page = false)) :
    routesAddRoute mem r node =
      match copyChain mem.copy node.route.procId r.nextAddr (r.chainOf node.route.procId) []
        false with
      | (.err, copies, _) =>
        (.err, chainFree { r.withPage node.route.procId with nextAddr := r.nextAddr + copies.length }
          (node :: copies) false false 0)
      | (.ok, copies, replaced) =>
        retireRoute mem (Routes.publish
          { r.withPage node.route.procId with nextAddr := r.nextAddr + copies.length }
          node.route.procId ((r.pages (pageIdx node.route.procId)).getD fun _ => [])
          (node :: copies)) (r.chainOf node.route.procId) replaced node.route.procId := by
  unfold routesAddRoute
  rw [if_neg hpage]
  simp only [getD_pages_slotIdx]
  rfl

/-- With memory granted, the copying loop ends with the routes of the other ids. -/
theorem exists_copyChain (q : UInt64) (addr : ℕ) (old : List Node) :
    ∃ copies, copyChain RouteMem.granting.copy q addr old [] false =
        (.ok, copies, old.any fun n => n.route.procId == q) ∧
      copies.map Node.route = (old.map Node.route).filter fun route => route.procId != q := by
  obtain ⟨⟨rc, copies, dropped⟩, hcopy⟩ :
      ∃ result, copyChain RouteMem.granting.copy q addr old [] false = result := ⟨_, rfl⟩
  have hrc := copyChain_granting q addr old [] false
  rw [hcopy] at hrc
  cases hrc
  obtain ⟨hroutes, hdropped⟩ := copyChain_eq_ok hcopy
  exact ⟨copies, by rw [hcopy, hdropped]; rfl, by simpa using hroutes⟩

/-- A chain copied without the routes of `q` is as well formed as the old one, and has none of
`q`. -/
theorem copies_wellFormed (hr : r.WellFormed) {q : UInt64} {copies : List Node}
    (hcopies : copies.map Node.route =
      ((r.chainOf q).map Node.route).filter fun route => route.procId != q) :
    (copies.map fun n => n.route.procId).Nodup ∧ ∀ n ∈ copies,
      n.route.procId ≠ q ∧ pageIdx n.route.procId = pageIdx q ∧
        slotIdx n.route.procId = slotIdx q := by
  obtain ⟨hnodup, hindexed⟩ := hr.chainOf q
  refine ⟨?_, ?_⟩
  · have hids : (copies.map fun n => n.route.procId) =
        (((r.chainOf q).map Node.route).filter fun route => route.procId != q).map
          Route.procId := by
      rw [← hcopies, List.map_map]
      rfl
    rw [hids]
    refine List.Nodup.sublist (List.Sublist.map _ List.filter_sublist) ?_
    rw [List.map_map]
    exact hnodup
  · intro n hn
    have hmem : n.route ∈ ((r.chainOf q).map Node.route).filter fun route => route.procId != q := by
      rw [← hcopies]
      exact List.mem_map_of_mem hn
    obtain ⟨hold, hne⟩ := List.mem_filter.mp hmem
    obtain ⟨m, hm, hroute⟩ := List.mem_map.mp hold
    rw [← hroute] at hne ⊢
    exact ⟨by simpa using hne, hindexed m hm⟩

/-- Dropping the routes of `q` from a list changes no search for another id. -/
theorem find?_filter_ne {p q : UInt64} (hpq : p ≠ q) (routes : List Route) :
    (routes.filter fun route => route.procId != q).find? (fun route => route.procId == p) =
      routes.find? fun route => route.procId == p := by
  induction routes with
  | nil => rfl
  | cons route routes ih =>
    by_cases hq : route.procId = q
    · rw [List.filter_cons_of_neg (by simp [hq]), ih, List.find?_cons_of_neg]
      simp [hq, hpq.symm]
    · rw [List.filter_cons_of_pos (by simp [hq]), List.find?_cons, List.find?_cons, ih]

theorem find?_filter_self (q : UInt64) (routes : List Route) :
    (routes.filter fun route => route.procId != q).find? (fun route => route.procId == q) =
      none := by
  rw [List.find?_eq_none]
  intro route hroute
  simpa using (List.mem_filter.mp hroute).2

/-- What one lookup finds after the slot of `q` got a new chain: for an id of another slot, what
it found before. -/
theorem entry_publish {q : UInt64} {page : UInt32 → List Node}
    (hpage : (r.pages (pageIdx q)).getD (fun _ => []) = page) {head : List Node} (p : UInt64)
    {found : Option Route}
    (hfound : r.chainOf p = r.chainOf q →
      (head.map Node.route).find? (fun route => route.procId == p) = found)
    (hother : r.entry p = found ∨ p = q) : (r.publish q page head).entry p = found := by
  rw [Routes.entry, chainOf_publish hpage]
  by_cases hslot : pageIdx p = pageIdx q ∧ slotIdx p = slotIdx q
  · rw [if_pos hslot]
    exact hfound (by rw [Routes.chainOf, Routes.chainOf, hslot.1, hslot.2])
  · rw [if_neg hslot]
    rcases hother with hentry | rfl
    · exact hentry
    · exact absurd ⟨rfl, rfl⟩ hslot

/-- **An addition changes the entry of its own id**, and keeps the chains well formed. -/
theorem routesAddRoute_granting (hr : r.WellFormed) (node : Node) :
    (routesAddRoute .granting r node).2.WellFormed ∧
      ∀ p, (routesAddRoute .granting r node).2.entry p =
        if p = node.route.procId then some node.route else r.entry p := by
  have hadd : routesAddRoute .granting r node = _ := routesAddRoute_eq fun h => by cases h.2
  obtain ⟨q, hq⟩ : ∃ q, node.route.procId = q := ⟨_, rfl⟩
  obtain ⟨page, hpage⟩ : ∃ page, (r.pages (pageIdx q)).getD (fun _ => []) = page := ⟨_, rfl⟩
  obtain ⟨copies, hcopy, hroutes⟩ := exists_copyChain q r.nextAddr (r.chainOf q)
  -- storing a page that was missing changes nothing that a lookup sees
  have hchain₁ := chainOf_withPage r q
  have hpage₁ := (getD_withPage r q).trans hpage
  have hwf₁ : (r.withPage q).WellFormed := hr.publish rfl (hr.chainOf q).1 (hr.chainOf q).2
  have hpages : (routesAddRoute .granting r node).2.pages =
      ((r.withPage q).publish q page (node :: copies)).pages := by
    rw [hadd, hq, hcopy, hpage]
    exact retireRoute_pages _ _ _ _ _
  obtain ⟨hnodup, hindexed⟩ := copies_wellFormed hr hroutes
  refine ⟨Routes.WellFormed.congr (hwf₁.publish hpage₁ ?_ ?_) hpages, ?_⟩
  · rw [List.map_cons, List.nodup_cons, hq]
    refine ⟨?_, hnodup⟩
    intro hmem
    obtain ⟨n, hn, hnq⟩ := List.mem_map.mp hmem
    exact (hindexed n hn).1 hnq
  · intro n hn
    rcases List.mem_cons.mp hn with rfl | hn
    · rw [hq]
      exact ⟨rfl, rfl⟩
    · exact (hindexed n hn).2
  · intro p
    rw [entry_congr hpages, hq]
    by_cases hp : p = q
    · subst hp
      rw [if_pos rfl]
      refine entry_publish hpage₁ p ?_ (.inr rfl)
      intro _
      simp [hq]
    · rw [if_neg hp]
      refine entry_publish hpage₁ p ?_ (.inl ?_)
      · intro hsame
        rw [hchain₁, hchain₁] at hsame
        rw [List.map_cons, List.find?_cons_of_neg (by simp [hq, Ne.symm hp]), hroutes,
          find?_filter_ne hp, Routes.entry, hsame]
      · rw [Routes.entry, Routes.entry, hchain₁]

/-- **A removal clears the entry of its own id**, and returns `0` exactly when there is one. -/
theorem routesRemove_granting (hr : r.WellFormed) (q : UInt64) :
    ((routesRemove .granting r q).1 = .ok ↔ (r.entry q).isSome) ∧
      (routesRemove .granting r q).2.WellFormed ∧
      ∀ p, (routesRemove .granting r q).2.entry p = if p = q then none else r.entry p := by
  obtain ⟨copies, hcopy, hroutes⟩ := exists_copyChain q r.nextAddr (r.chainOf q)
  have hany : ((r.chainOf q).any fun n => n.route.procId == q) = (r.entry q).isSome := by
    rw [Routes.entry, Bool.eq_iff_iff, List.find?_isSome, List.any_eq_true]
    simp
  -- both ways of finding nothing free the copies and leave the table as it was
  have absent : ∀ result : Rc × Routes, result.1 = .err → result.2.pages = r.pages →
      r.entry q = none → (result.1 = .ok ↔ (r.entry q).isSome) ∧ result.2.WellFormed ∧
        ∀ p, result.2.entry p = if p = q then none else r.entry p := by
    intro result hrc hpages hentry
    refine ⟨by simp [hrc, hentry], hr.congr hpages, ?_⟩
    intro p
    rw [entry_congr hpages]
    split_ifs with hp
    · rw [hp, hentry]
    · rfl
  unfold routesRemove
  simp only [hcopy]
  cases hpage : r.pages (pageIdx q) with
  | none =>
    have hnil : r.chainOf q = [] := by rw [Routes.chainOf, hpage]; rfl
    exact absent _ rfl rfl (by rw [Routes.entry, hnil]; rfl)
  | some page =>
    have hgetD : (r.pages (pageIdx q)).getD (fun _ => []) = page := by rw [hpage]; rfl
    cases hpresent : (r.chainOf q).any fun n => n.route.procId == q with
    | false => exact absent _ rfl rfl (by simpa [hpresent] using hany)
    | true =>
      obtain ⟨hnodup, hindexed⟩ := copies_wellFormed hr hroutes
      simp only
      refine ⟨?_, ?_, ?_⟩
      · rw [retireRoute_granting, ← hany, hpresent]
        simp
      · refine Routes.WellFormed.congr
          (hr.publish hgetD hnodup fun n hn => (hindexed n hn).2) ?_
        exact retireRoute_pages _ _ _ _ _
      · intro p
        have hpages := retireRoute_pages .granting
          ({ r with nextAddr := r.nextAddr + copies.length }.publish q page copies)
          (r.chainOf q) true q
        refine (entry_congr (hpages.trans (b := (r.publish q page copies).pages) rfl) p).trans ?_
        by_cases hp : p = q
        · subst hp
          rw [if_pos rfl]
          refine entry_publish hgetD p ?_ (.inr rfl)
          intro _
          rw [hroutes, find?_filter_self]
        · rw [if_neg hp]
          refine entry_publish hgetD p ?_ (.inl rfl)
          intro hsame
          rw [hroutes, find?_filter_ne hp, Routes.entry, hsame]

end Mutations

/-! ## Sequences of calls -/

/-- A call on the table. -/
inductive RouteOp where
  | addEx (procId : UInt64) (handler : Option ℕ) (userData : ℕ) (finalizer : Option ℕ)
      (isAsync : Bool)
  | addDeferredEx (procId : UInt64) (handler : Option ℕ) (userData : ℕ) (finalizer : Option ℕ)
  | remove (procId : UInt64)
  | lookup (procId : UInt64)
  deriving DecidableEq, Repr

/-- The table after a call. -/
def RouteOp.apply (mem : RouteMem) (r : Routes) : RouteOp → Routes
  | .addEx procId handler userData finalizer isAsync =>
    (routesAddEx mem r procId handler userData finalizer isAsync).2
  | .addDeferredEx procId handler userData finalizer =>
    (routesAddDeferredEx mem r procId handler userData finalizer).2
  | .remove procId => (routesRemove mem r procId).2
  | .lookup procId => (routesLookup r procId).2

/-- The table after a sequence of calls on a fresh one. -/
def runRoutes (ops : List RouteOp) : Routes :=
  ops.foldl (fun r op => op.apply .granting r) routesInit

/-- The route a call adds, with what its caller passed. A call without a handler adds nothing. -/
def RouteOp.adds : RouteOp → Option Route
  | .addEx procId handler userData finalizer isAsync =>
    if handler.isSome then
      some
        { procId, handler, deferredHandler := none, userData, finalizer, isAsync,
          isDeferred := false }
    else none
  | .addDeferredEx procId handler userData finalizer =>
    if handler.isSome then
      some
        { procId, handler := none, deferredHandler := handler, userData, finalizer,
          isAsync := false, isDeferred := true }
    else none
  | .remove _ => none
  | .lookup _ => none

/-- The id whose entry a call decides. -/
def RouteOp.target (op : RouteOp) : Option UInt64 :=
  match op with
  | .remove procId => some procId
  | op => op.adds.map Route.procId

/-- `route` is what the last call of `ops` that decides the entry of `procId` added. -/
def LastAddition (ops : List RouteOp) (procId : UInt64) (route : Route) : Prop :=
  ∃ before op after, ops = before ++ op :: after ∧ op.adds = some route ∧
    route.procId = procId ∧ ∀ later ∈ after, later.target ≠ some procId

/-- **What one call does to the table**: it keeps the chains well formed, and decides the entry
of its target. -/
theorem RouteOp.apply_granting {r : Routes} (hr : r.WellFormed) (op : RouteOp) :
    (op.apply .granting r).WellFormed ∧
      ∀ p, (op.apply .granting r).entry p = if op.target = some p then op.adds else r.entry p := by
  -- an addition that has its memory is `routesAddRoute` on a state with the same pages
  have add : ∀ route : Route, (addAllocated .granting r route).2.WellFormed ∧ ∀ p,
      (addAllocated .granting r route).2.entry p =
        if some route.procId = some p then some route else r.entry p := by
    intro route
    obtain ⟨hwf, hentry⟩ := routesAddRoute_granting
      (r := { r with nextAddr := r.nextAddr + 1, nextAdded := r.nextAdded + 1 })
      (hr.congr rfl) ⟨r.nextAddr, r.nextAdded, route⟩
    refine ⟨hwf, fun p => (hentry p).trans ?_⟩
    by_cases hp : p = route.procId
    · rw [if_pos hp, if_pos (by rw [hp])]
    · rw [if_neg hp, if_neg (by simpa using Ne.symm hp)]
      rfl
  cases op with
  | addEx procId handler userData finalizer isAsync =>
    cases handler with
    | none => exact ⟨hr, fun p => by simp [RouteOp.apply, routesAddEx, RouteOp.target, RouteOp.adds]⟩
    | some handler => exact add (callRoute procId handler userData finalizer isAsync)
  | addDeferredEx procId handler userData finalizer =>
    cases handler with
    | none =>
      exact ⟨hr, fun p => by
        simp [RouteOp.apply, routesAddDeferredEx, RouteOp.target, RouteOp.adds]⟩
    | some handler => exact add (deferredRoute procId handler userData finalizer)
  | remove procId =>
    obtain ⟨-, hwf, hentry⟩ := routesRemove_granting hr procId
    refine ⟨hwf, fun p => (hentry p).trans ?_⟩
    by_cases hp : p = procId
    · rw [if_pos hp, if_pos (by rw [hp]; rfl)]
      rfl
    · rw [if_neg hp, if_neg (by simpa [RouteOp.target] using Ne.symm hp)]
  | lookup procId =>
    refine ⟨hr.congr (routesLookup_pages r procId), fun p => ?_⟩
    rw [if_neg (by simp [RouteOp.target, RouteOp.adds])]
    exact entry_congr (routesLookup_pages r procId) p

theorem runRoutes_append (ops : List RouteOp) (op : RouteOp) :
    runRoutes (ops ++ [op]) = op.apply .granting (runRoutes ops) := by
  rw [runRoutes, List.foldl_append]
  rfl

/-- The chains are well formed after any sequence of calls. -/
theorem runRoutes_wellFormed (ops : List RouteOp) : (runRoutes ops).WellFormed := by
  induction ops using List.reverseRecOn with
  | nil =>
    have hnone : ∀ i page, (runRoutes []).pages i ≠ some page := fun i page h => by cases h
    exact ⟨fun i page s h => absurd h (hnone i page), fun i page s h => absurd h (hnone i page)⟩
  | append_singleton ops op ih =>
    rw [runRoutes_append]
    exact (RouteOp.apply_granting ih op).1

theorem RouteOp.target_of_adds {op : RouteOp} {route : Route} (h : op.adds = some route) :
    op.target = some route.procId := by
  cases op with
  | remove => cases h
  | lookup => cases h
  | addEx => exact congrArg (Option.map Route.procId) h
  | addDeferredEx => exact congrArg (Option.map Route.procId) h

theorem lastAddition_append (ops : List RouteOp) (op : RouteOp) (p : UInt64) (route : Route) :
    LastAddition (ops ++ [op]) p route ↔
      if op.target = some p then op.adds = some route else LastAddition ops p route := by
  refine ⟨?_, ?_⟩
  · rintro ⟨before, add, after, hops, hadds, hp, hafter⟩
    rcases List.eq_nil_or_concat after with rfl | ⟨after, last, rfl⟩
    · -- the deciding call is the last one
      obtain ⟨rfl, hop⟩ := List.append_inj' hops rfl
      obtain rfl : op = add := by simpa using hop
      rw [if_pos ((RouteOp.target_of_adds hadds).trans (congrArg some hp))]
      exact hadds
    · rw [List.concat_eq_append] at hops hafter
      rw [← List.cons_append, ← List.append_assoc] at hops
      obtain ⟨rfl, hop⟩ := List.append_inj' hops rfl
      obtain rfl : op = last := by simpa using hop
      rw [if_neg (hafter op (by simp))]
      exact ⟨before, add, after, rfl, hadds, hp, fun later hl => hafter later (by simp [hl])⟩
  · intro h
    split_ifs at h with htarget
    · rw [RouteOp.target_of_adds h] at htarget
      exact ⟨ops, op, [], rfl, h, Option.some.inj htarget, by simp⟩
    · obtain ⟨before, add, after, rfl, hadds, hp, hafter⟩ := h
      refine ⟨before, add, after ++ [op], by simp, hadds, hp, ?_⟩
      intro later hlater
      rcases List.mem_append.mp hlater with hlater | hlater
      · exact hafter later hlater
      · rw [List.mem_singleton.mp hlater]
        exact htarget

/-- The entry of an id is the route of its last addition. -/
theorem entry_runRoutes (ops : List RouteOp) (p : UInt64) (route : Route) :
    (runRoutes ops).entry p = some route ↔ LastAddition ops p route := by
  induction ops using List.reverseRecOn with
  | nil =>
    refine ⟨?_, ?_⟩
    · intro h
      cases h
    · rintro ⟨before, add, after, hops, -⟩
      simp at hops
  | append_singleton ops op ih =>
    rw [runRoutes_append, (RouteOp.apply_granting (runRoutes_wellFormed ops) op).2,
      lastAddition_append, ← ih]
    split_ifs <;> rfl

/-- **The route table is a finite map keyed by `proc_id`**: after any sequence of calls a lookup
finds the route of the last addition, a removal returns `0` exactly when there is one, and each
chain holds an id at most once and only ids of its own slot. -/
theorem routes_finite_map (ops : List RouteOp) :
    (∀ p route, (routesLookup (runRoutes ops) p).1 = some route ↔ LastAddition ops p route) ∧
    (∀ p, (routesRemove .granting (runRoutes ops) p).1 = .ok ↔
      ∃ route, LastAddition ops p route) ∧
    ∀ i page s, (runRoutes ops).pages i = some page →
      ((page s).map fun n => n.route.procId).Nodup ∧ ∀ n ∈ page s,
        pageIdx n.route.procId = i ∧ slotIdx n.route.procId = s := by
  have hwf := runRoutes_wellFormed ops
  refine ⟨?_, ?_, fun i page s h => ⟨hwf.nodup i page s h, hwf.indexed i page s h⟩⟩
  · intro p route
    rw [routesLookup_fst, entry_runRoutes]
  · intro p
    rw [(routesRemove_granting hwf p).1, Option.isSome_iff_exists]
    exact exists_congr fun route => entry_runRoutes ops p route

end Wirecall

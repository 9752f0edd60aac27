import Wirecall.Machine.Run
import Wirecall.Protocol.Header
import Wirecall.Routes.Failures

/-!
# Routes by name

The public functions register and remove routes by name, and the table knows ids only. Two names
with one id are one procedure to it. For names with different ids the table is a map from names to
routes: a call that returns 0 decides what its own name is routed to, and a call that returns -1
decides nothing, whichever allocations fail. A removal copies the other routes of its slot, so it
needs memory for them even where there is a route to remove.

## Main definitions

* `serverAddRouteNameEx`, …, `serverRemoveRouteName`: the functions of `server.c`
* `Effect`: what a call on the table does, by what it returns
* `NamedServer`: the table, beside a map from names to routes

## Main results

* `effect_addAllocated`, `effect_routesRemove`: the effects of the two mutations, with any allocator
* `Named.step`: every call keeps the two in agreement
* `names_are_routed`: **the table is a map from names**, for names that have different ids
-/

namespace Wirecall

open Machine

/-! ## The public functions -/

/-- The names of procedures; a missing name is `NULL`. -/
abbrev ProcName := Option (List UInt8)

section Functions

variable (mem : RouteMem) (r : Routes)

/-- `server_add_route_id`. -/
def serverAddRouteId (id : UInt64) (handler : Option ℕ) (userData : ℕ) (finalizer : Option ℕ) :
    Rc × Routes :=
  routesAddEx mem r id handler userData finalizer false

/-- `wirecall_server_add_route_name_ex`; `wirecall_server_add_route_name` passes no finalizer. -/
def serverAddRouteNameEx (name : ProcName) (handler : Option ℕ) (userData : ℕ)
    (finalizer : Option ℕ) : Rc × Routes :=
  serverAddRouteId mem r (procId name) handler userData finalizer

/-- `server_add_async_route_id`; `scheduler` is `WIRECALL_ENABLE_SCHEDULER`. -/
def serverAddAsyncRouteId (scheduler : Bool) (id : UInt64) (handler : Option ℕ) (userData : ℕ)
    (finalizer : Option ℕ) : Rc × Routes :=
  if scheduler then routesAddEx mem r id handler userData finalizer true else (.err, r)

/-- `wirecall_server_add_async_route_name_ex`. -/
def serverAddAsyncRouteNameEx (scheduler : Bool) (name : ProcName) (handler : Option ℕ)
    (userData : ℕ) (finalizer : Option ℕ) : Rc × Routes :=
  serverAddAsyncRouteId mem r scheduler (procId name) handler userData finalizer

/-- `server_add_deferred_route_id`. -/
def serverAddDeferredRouteId (id : UInt64) (handler : Option ℕ) (userData : ℕ)
    (finalizer : Option ℕ) : Rc × Routes :=
  routesAddDeferredEx mem r id handler userData finalizer

/-- `wirecall_server_add_deferred_route_name_ex`. -/
def serverAddDeferredRouteNameEx (name : ProcName) (handler : Option ℕ) (userData : ℕ)
    (finalizer : Option ℕ) : Rc × Routes :=
  serverAddDeferredRouteId mem r (procId name) handler userData finalizer

/-- `wirecall_server_remove_route_name`, through `server_remove_route_id`. -/
def serverRemoveRouteName (name : ProcName) : Rc × Routes := routesRemove mem r (procId name)

end Functions

/-! ## What a call on the table does -/

/-- **The effect of a call** that is to set the entry of `q`: all of it if it returns 0, and nothing
that a lookup sees if it returns -1. -/
structure Effect (r : Routes) (q : UInt64) (value : Option Route) (out : Rc × Routes) : Prop where
  wellFormed : out.2.WellFormed
  readers : out.2.activeReaders = r.activeReaders
  done : out.1 = .ok → ∀ p, out.2.entry p = if p = q then value else r.entry p
  failed : out.1 = .err → ∀ p, out.2.entry p = r.entry p

section Effects

variable {mem : RouteMem} {r : Routes} {q : UInt64} {node : Node}

/-- A call that is refused at once. -/
theorem Effect.refused (hr : r.WellFormed) (q : UInt64) (value : Option Route) :
    Effect r q value (.err, r) :=
  ⟨hr, rfl, fun h => (by cases h), fun _ _ => rfl⟩

theorem Untouched.entry {r' : Routes} (h : Untouched r r') (p : UInt64) :
    r'.entry p = r.entry p := by
  have hlookup := h.lookups p
  rwa [routesLookup_fst, routesLookup_fst] at hlookup

theorem freeRetired_activeReaders (r : Routes) :
    (freeRetired r).activeReaders = r.activeReaders := by
  rw [freeRetired_eq]
  split_ifs
  · rfl
  · exact reclaimRetired_activeReaders r

theorem retireRoute_activeReaders (mem : RouteMem) (r : Routes) (chain : List Node) (one : Bool)
    (q : UInt64) : (retireRoute mem r chain one q).2.activeReaders = r.activeReaders := by
  unfold retireRoute
  split_ifs
  · rfl
  · rfl
  · exact freeRetired_activeReaders _
  · rfl

/-- A lookup that ran alone leaves the count as it was. -/
theorem routesLookup_activeReaders (r : Routes) (q : UInt64) :
    (routesLookup r q).2.activeReaders = r.activeReaders := by
  have hcount : r.activeReaders + 1 - 1 = r.activeReaders := UInt32.add_sub_cancel _ _
  simp only [routesLookup]
  split_ifs
  · exact (freeRetired_activeReaders _).trans hcount
  · exact hcount

/-- A copying loop that has its memory does the same with any allocator. -/
theorem copyChain_of_ok {grant : ℕ → Bool} {addr : ℕ} {old copies : List Node} {dropped : Bool}
    (h : (copyChain grant q addr old copies dropped).1 = .ok) :
    copyChain grant q addr old copies dropped =
      copyChain RouteMem.granting.copy q addr old copies dropped := by
  induction old generalizing copies dropped with
  | nil => rfl
  | cons it rest ih =>
    rw [copyChain] at h
    rw [copyChain, copyChain]
    by_cases hq : it.route.procId = q
    · rw [if_pos hq] at h
      rw [if_pos hq, if_pos hq]
      exact ih h
    · rw [if_neg hq] at h
      by_cases hgrant : grant copies.length = true
      · rw [if_pos hgrant] at h
        rw [if_neg hq, if_neg hq, if_pos hgrant, if_pos (by rfl)]
        exact ih h
      · rw [if_neg hgrant] at h
        cases h

theorem effect_routesAddRoute (hr : r.WellFormed) (hret : mem.Retires r node.route.procId) :
    Effect r node.route.procId (some node.route) (routesAddRoute mem r node) := by
  have hfailed : (routesAddRoute mem r node).1 = .err →
      ∀ p, (routesAddRoute mem r node).2.entry p = r.entry p :=
    fun herr => (untouched_routesAddRoute hret.not_strands herr).entry
  by_cases hpage : r.pages (pageIdx node.route.procId) = none ∧ mem.page = false
  · -- there is no page
    have hadd : routesAddRoute mem r node = (.err, chainFree r [node] false false 0) := by
      unfold routesAddRoute
      exact if_pos hpage
    refine ⟨?_, ?_, fun hok => ?_, hfailed⟩
    · rw [hadd]
      exact hr.congr rfl
    · rw [hadd]
      rfl
    · rw [hadd] at hok
      cases hok
  · have hadd : routesAddRoute mem r node = _ := routesAddRoute_eq hpage
    rcases hcopy : copyChain mem.copy node.route.procId r.nextAddr (r.chainOf node.route.procId) []
      false with ⟨rc, copies, replaced⟩
    rw [hcopy] at hadd
    cases rc with
    | err =>
      refine ⟨?_, ?_, fun hok => ?_, hfailed⟩
      · rw [hadd]
        have hwith : (r.withPage node.route.procId).WellFormed :=
          hr.publish rfl (hr.chainOf _).1 (hr.chainOf _).2
        exact hwith.congr rfl
      · rw [hadd]
        rfl
      · rw [hadd] at hok
        cases hok
    | ok =>
      -- the chain that is published is the one with all memory granted
      have hgranting : routesAddRoute .granting r node = _ :=
        routesAddRoute_eq fun h => by cases h.2
      have hsame := copyChain_of_ok (show (copyChain mem.copy node.route.procId r.nextAddr
        (r.chainOf node.route.procId) [] false).1 = .ok by rw [hcopy])
      rw [← hsame, hcopy] at hgranting
      have hpages : (routesAddRoute mem r node).2.pages =
          (routesAddRoute .granting r node).2.pages := by
        rw [hadd, hgranting]
        exact (retireRoute_pages _ _ _ _ _).trans (retireRoute_pages _ _ _ _ _).symm
      obtain ⟨hwf, hentry⟩ := routesAddRoute_granting hr node
      refine ⟨hwf.congr hpages, ?_, fun _ p => ?_, hfailed⟩
      · rw [hadd]
        exact retireRoute_activeReaders _ _ _ _ _
      · rw [entry_congr hpages]
        exact hentry p

theorem effect_addAllocated {route : Route} (hr : r.WellFormed)
    (hret : mem.Retires r route.procId) :
    Effect r route.procId (some route) (addAllocated mem r route) := by
  unfold addAllocated
  split_ifs
  · have hwf : Routes.WellFormed
        { r with nextAddr := r.nextAddr + 1, nextAdded := r.nextAdded + 1 } := hr.congr rfl
    have heffect := @effect_routesAddRoute mem _ ⟨r.nextAddr, r.nextAdded, route⟩ hwf hret
    exact ⟨heffect.wellFormed, heffect.readers, heffect.done, heffect.failed⟩
  · exact .refused hr _ _

theorem effect_routesRemove (hr : r.WellFormed) (hret : mem.Retires r q) :
    Effect r q none (routesRemove mem r q) := by
  have hfailed : (routesRemove mem r q).1 = .err →
      ∀ p, (routesRemove mem r q).2.entry p = r.entry p :=
    fun herr => (untouched_routesRemove (fun h => hret.not_strands h.2) herr).entry
  obtain ⟨-, hwf, hentry⟩ := routesRemove_granting hr q
  rcases hcopy : copyChain mem.copy q r.nextAddr (r.chainOf q) [] false with ⟨rc, copies, removed⟩
  cases rc with
  | err =>
    have hremove : routesRemove mem r q = (.err,
        chainFree { r with nextAddr := r.nextAddr + copies.length } copies false false 0) := by
      simp only [routesRemove, hcopy]
    refine ⟨?_, ?_, fun hok => ?_, hfailed⟩
    · rw [hremove]
      exact hr.congr rfl
    · rw [hremove]
      rfl
    · rw [hremove] at hok
      cases hok
  | ok =>
    have hsame := copyChain_of_ok (show (copyChain mem.copy q r.nextAddr (r.chainOf q) []
      false).1 = .ok by rw [hcopy])
    rw [hcopy] at hsame
    have hpages : (routesRemove mem r q).2.pages = (routesRemove .granting r q).2.pages ∧
        (routesRemove mem r q).2.activeReaders = r.activeReaders := by
      simp only [routesRemove, hcopy, ← hsame]
      cases r.pages (pageIdx q) with
      | none => exact ⟨rfl, rfl⟩
      | some page =>
        cases removed with
        | false => exact ⟨rfl, rfl⟩
        | true =>
          exact ⟨(retireRoute_pages _ _ _ _ _).trans (retireRoute_pages _ _ _ _ _).symm,
            retireRoute_activeReaders _ _ _ _ _⟩
    refine ⟨hwf.congr hpages.1, hpages.2, fun _ p => ?_, hfailed⟩
    rw [entry_congr hpages.1]
    exact hentry p

/-- **A removal succeeds exactly if there is a route to remove and memory to copy the others.** -/
theorem routesRemove_fst_eq_ok (hret : mem.Retires r q) :
    (routesRemove mem r q).1 = .ok ↔ (r.entry q).isSome = true ∧ mem.CopiesOthers r q := by
  rw [@RouteMem.copiesOthers_iff mem r q r.nextAddr, ← any_procId_eq]
  rcases hcopy : copyChain mem.copy q r.nextAddr (r.chainOf q) [] false with ⟨rc, copies, removed⟩
  cases rc with
  | err =>
    simp only [routesRemove, hcopy]
    exact iff_of_false (fun h => by cases h) fun h => by cases h.2
  | ok =>
    rw [and_iff_left rfl, ← Bool.false_or (List.any _ _), ← (copyChain_eq_ok hcopy).2]
    simp only [routesRemove, hcopy]
    cases hpage : r.pages (pageIdx q) with
    | none =>
      -- without a page there is nothing to drop
      have hempty : r.chainOf q = [] := by rw [Routes.chainOf, hpage]; rfl
      rw [hempty] at hcopy
      cases hcopy
      simp
    | some page =>
      cases removed with
      | false => simp
      | true => exact iff_of_true (hret.ok rfl) rfl

end Effects

/-! ## The table and a map from names -/

/-- A call of a public function, or a lookup by a worker. -/
inductive NameOp where
  | add (name : ProcName) (handler : Option ℕ) (userData : ℕ) (finalizer : Option ℕ)
  | addAsync (name : ProcName) (handler : Option ℕ) (userData : ℕ) (finalizer : Option ℕ)
  | addDeferred (name : ProcName) (handler : Option ℕ) (userData : ℕ) (finalizer : Option ℕ)
  | remove (name : ProcName)
  | lookup (id : UInt64)
  deriving DecidableEq, Repr

def NameOp.apply (scheduler : Bool) (mem : RouteMem) (r : Routes) : NameOp → Rc × Routes
  | .add name handler userData finalizer =>
    serverAddRouteNameEx mem r name handler userData finalizer
  | .addAsync name handler userData finalizer =>
    serverAddAsyncRouteNameEx mem r scheduler name handler userData finalizer
  | .addDeferred name handler userData finalizer =>
    serverAddDeferredRouteNameEx mem r name handler userData finalizer
  | .remove name => serverRemoveRouteName mem r name
  | .lookup id => (.ok, (routesLookup r id).2)

/-- The name a call is about, and what it is to be routed to: a route with what the caller
passed. -/
def NameOp.decides : NameOp → Option (ProcName × Option Route)
  | .add name handler userData finalizer =>
    some (name, some
      { procId := procId name, handler, deferredHandler := none, userData, finalizer,
        isAsync := false, isDeferred := false })
  | .addAsync name handler userData finalizer =>
    some (name, some
      { procId := procId name, handler, deferredHandler := none, userData, finalizer,
        isAsync := true, isDeferred := false })
  | .addDeferred name handler userData finalizer =>
    some (name, some
      { procId := procId name, handler := none, deferredHandler := handler, userData, finalizer,
        isAsync := false, isDeferred := true })
  | .remove name => some (name, none)
  | .lookup _ => none

/-- The table of a server, and the map from names that it stands for. -/
structure NamedServer where
  table : Routes
  map : ProcName → Option Route

def NamedServer.init : NamedServer := ⟨routesInit, fun _ => none⟩

/-- One call, with the answers of the allocator. The map follows what the call returns. -/
def NamedServer.step (scheduler : Bool) (s : NamedServer) (l : RouteMem × NameOp) :
    Option NamedServer :=
  let out := l.2.apply scheduler l.1 s.table
  some ⟨out.2, l.2.decides.elim s.map fun decision =>
    if out.1 = .ok then Function.update s.map decision.1 decision.2 else s.map⟩

/-- The call is about one of the names. -/
def Within (names : Set ProcName) (_ : NamedServer) (l : RouteMem × NameOp) : Prop :=
  ∀ decision, l.2.decides = some decision → decision.1 ∈ names

/-- **The table and the map agree** on the names, and no lookup is in progress. -/
structure Named (names : Set ProcName) (s : NamedServer) : Prop where
  wellFormed : s.table.WellFormed
  quiet : s.table.activeReaders = 0
  agrees : ∀ name ∈ names, s.table.entry (procId name) = s.map name

section Steps

variable {names : Set ProcName} {scheduler : Bool} {mem : RouteMem} {r : Routes}

theorem effect_routesAddEx (hr : r.WellFormed) {id : UInt64} (hret : mem.Retires r id)
    (handler : Option ℕ) (userData : ℕ) (finalizer : Option ℕ) (isAsync : Bool) :
    Effect r id
      (some
        { procId := id, handler, deferredHandler := none, userData, finalizer, isAsync,
          isDeferred := false })
      (routesAddEx mem r id handler userData finalizer isAsync) := by
  cases handler with
  | none => exact .refused hr _ _
  | some handler =>
    exact @effect_addAllocated _ _ (callRoute id handler userData finalizer isAsync) hr hret

theorem effect_routesAddDeferredEx (hr : r.WellFormed) {id : UInt64} (hret : mem.Retires r id)
    (handler : Option ℕ) (userData : ℕ) (finalizer : Option ℕ) :
    Effect r id
      (some
        { procId := id, handler := none, deferredHandler := handler, userData, finalizer,
          isAsync := false, isDeferred := true })
      (routesAddDeferredEx mem r id handler userData finalizer) := by
  cases handler with
  | none => exact .refused hr _ _
  | some handler =>
    exact @effect_addAllocated _ _ (deferredRoute id handler userData finalizer) hr hret

/-- **Every public function has the effect on its name that it reports.** -/
theorem NameOp.effect {op : NameOp} {decision : ProcName × Option Route} (hr : r.WellFormed)
    (hdecides : op.decides = some decision) (hret : mem.Retires r (procId decision.1)) :
    Effect r (procId decision.1) decision.2 (op.apply scheduler mem r) := by
  cases op with
  | add name handler userData finalizer =>
    cases hdecides
    exact effect_routesAddEx hr hret handler userData finalizer false
  | addAsync name handler userData finalizer =>
    cases hdecides
    unfold NameOp.apply serverAddAsyncRouteNameEx serverAddAsyncRouteId
    split_ifs
    · exact effect_routesAddEx hr hret handler userData finalizer true
    · exact .refused hr _ _
  | addDeferred name handler userData finalizer =>
    cases hdecides
    exact effect_routesAddDeferredEx hr hret handler userData finalizer
  | remove name =>
    cases hdecides
    exact effect_routesRemove hr hret
  | lookup id => cases hdecides

/-- The map follows a call that is about a name of its own id. -/
theorem Named.follow {s : NamedServer} (h : Named names s) (hinj : Set.InjOn procId names)
    {decision : ProcName × Option Route} (hname : decision.1 ∈ names) {out : Rc × Routes}
    (heffect : Effect s.table (procId decision.1) decision.2 out) :
    Named names ⟨out.2,
      if out.1 = .ok then Function.update s.map decision.1 decision.2 else s.map⟩ := by
  refine ⟨heffect.wellFormed, heffect.readers.trans h.quiet, fun name hmem => ?_⟩
  dsimp only
  cases hrc : out.1 with
  | err =>
    rw [if_neg (by decide), heffect.failed hrc]
    exact h.agrees name hmem
  | ok =>
    rw [if_pos rfl, heffect.done hrc]
    by_cases heq : name = decision.1
    · rw [heq, if_pos rfl, Function.update_self]
    · -- another name has another id
      have hne : procId name ≠ procId decision.1 := fun hid => heq (hinj hmem hname hid)
      rw [if_neg hne, Function.update_of_ne heq]
      exact h.agrees name hmem

theorem Named.step {s s' : NamedServer} {l : RouteMem × NameOp} (h : Named names s)
    (hinj : Set.InjOn procId names) (hwithin : Within names s l)
    (hstep : s.step scheduler l = some s') : Named names s' := by
  obtain ⟨mem, op⟩ := l
  cases hstep
  cases hdecides : op.decides with
  | some decision =>
    exact h.follow hinj (hwithin decision hdecides)
      (NameOp.effect h.wellFormed hdecides (.inr (.inl h.quiet)))
  | none =>
    -- only a lookup is about no name
    cases op with
    | lookup id =>
      refine ⟨h.wellFormed.congr (routesLookup_pages s.table id),
        (routesLookup_activeReaders s.table id).trans h.quiet, fun name hmem => ?_⟩
      exact (entry_congr (routesLookup_pages s.table id) _).trans (h.agrees name hmem)
    | _ => cases hdecides

end Steps

theorem named_init (names : Set ProcName) : Named names NamedServer.init :=
  ⟨runRoutes_wellFormed [], rfl, fun _ _ => rfl⟩

/-- Table and map agree in every run on names that have different ids. -/
theorem named_of_exec {names : Set ProcName} (hinj : Set.InjOn procId names) {scheduler : Bool}
    {ls : List (RouteMem × NameOp)} {s : NamedServer}
    (hmeets : Meets (NamedServer.step scheduler) (Within names) NamedServer.init ls)
    (hexec : exec (NamedServer.step scheduler) NamedServer.init ls = some s) : Named names s :=
  exec_invariant (fun _ _ _ h hwithin hstep => h.step hinj hwithin hstep) (named_init names)
    hmeets hexec

theorem Named.lookup {names : Set ProcName} {s : NamedServer} (h : Named names s)
    {name : ProcName} (hname : name ∈ names) :
    (routesLookup s.table (procId name)).1 = s.map name := by
  rw [routesLookup_fst, h.agrees name hname]

/-- **The table is a map from names** for names that have different ids: in every sequence of calls
of the public functions on these names, with lookups in between and whatever allocations fail, a
lookup by the id of a name finds what the calls that returned 0 made of this name. A removal returns
0 exactly if there is something to remove and memory to copy the other routes of its chain, so one
with its memory does exactly if there is something to remove. -/
theorem names_are_routed (names : Set ProcName) (hinj : Set.InjOn procId names) (scheduler : Bool)
    (ls : List (RouteMem × NameOp)) (s : NamedServer)
    (hmeets : Meets (NamedServer.step scheduler) (Within names) NamedServer.init ls)
    (hexec : exec (NamedServer.step scheduler) NamedServer.init ls = some s) :
    ∀ name ∈ names, (routesLookup s.table (procId name)).1 = s.map name ∧
      ((serverRemoveRouteName .granting s.table name).1 = .ok ↔ (s.map name).isSome = true) ∧
      ∀ mem, (serverRemoveRouteName mem s.table name).1 = .ok ↔
        (s.map name).isSome = true ∧ mem.CopiesOthers s.table (procId name) := by
  have h := named_of_exec hinj hmeets hexec
  intro name hmem
  have hremove (mem : RouteMem) : (serverRemoveRouteName mem s.table name).1 = .ok ↔
      (s.map name).isSome = true ∧ mem.CopiesOthers s.table (procId name) := by
    rw [serverRemoveRouteName, routesRemove_fst_eq_ok (.inr (.inl h.quiet)), h.agrees name hmem]
  refine ⟨h.lookup hmem, ?_, hremove⟩
  · exact (hremove .granting).trans (and_iff_left fun _ _ => rfl)

/-- Two names that differ in one byte. -/
def twoNames : Set ProcName := fun name => name = some (text "add1") ∨ name = some (text "add2")

theorem procId_injOn_twoNames : Set.InjOn procId twoNames := by
  have hne : procId (some (text "add1")) ≠ procId (some (text "add2")) := by decide +kernel
  rintro a (rfl | rfl) b (rfl | rfl) hid
  · rfl
  · exact absurd hid hne
  · exact absurd hid.symm hne
  · rfl

/-- The second name is registered, a registration of the first fails, and then one succeeds. -/
def twoRegistrations : List (RouteMem × NameOp) :=
  [(.granting, .addDeferred (some (text "add2")) (some 2) 20 none),
    (⟨true, false, fun _ => true, true⟩, .add (some (text "add1")) (some 1) 10 none),
    (.granting, .lookup 5), (.granting, .add (some (text "add1")) (some 3) 30 (some 4))]

theorem names_are_routed_two : ∃ s,
    exec (NamedServer.step true) NamedServer.init twoRegistrations = some s ∧
      (routesLookup s.table (procId (some (text "add1")))).1 =
        some (callRoute (procId (some (text "add1"))) 3 30 (some 4) false) := by
  have hmeets : Meets (NamedServer.step true) (Within twoNames) NamedServer.init
      twoRegistrations := by
    refine .of_forall fun s l hl => ?_
    simp only [twoRegistrations, List.mem_cons, List.not_mem_nil, or_false] at hl
    rcases hl with rfl | rfl | rfl | rfl
    · exact fun d hd => .inr (by cases hd; rfl)
    · exact fun d hd => .inl (by cases hd; rfl)
    · exact fun d hd => by cases hd
    · exact fun d hd => .inl (by cases hd; rfl)
  have hrun : (exec (NamedServer.step true) NamedServer.init twoRegistrations).any
      (fun s => decide (s.map (some (text "add1")) =
        some (callRoute (procId (some (text "add1"))) 3 30 (some 4) false))) = true := by
    decide +kernel
  obtain ⟨s, hexec, hmap⟩ := exists_of_any hrun
  obtain ⟨hlookup, -⟩ := names_are_routed twoNames procId_injOn_twoNames true _ s hmeets hexec
    (some (text "add1")) (.inl rfl)
  exact ⟨s, hexec, hlookup.trans (of_decide_eq_true hmap)⟩

end Wirecall

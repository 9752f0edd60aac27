import Wirecall.Machine.Run
import Wirecall.Routes.Table

/-!
# The route table under concurrent use

Any number of threads look routes up while others add and remove them. A step is one atomic
operation of one of them. A lookup takes no lock until it has decremented the reader count; a
mutation holds `mutate_lock` from its start to its end, and what it does on memory that no one else
sees is part of the step that publishes it.

## Main definitions

* `Lookup`: where a lookup is, with the entry of its id when it loaded the slot head
* `Mutator`, `Owner`: where the holder of the lock is
* `Shared`: the table, the lock and the lookups
* `beginLookup`, `lookupStep`, `startMutation`, `mutatorStep`, `routesDestroy`: the steps
* `Shared.step`: the steps as a labelled machine

## Main results

* `freeAll_eq`: what freeing a list of chains changes
* `copyChain_copies`: the copies of a chain are new nodes for routes of the old one
-/

namespace Wirecall

/-! ## Freeing chains -/

/-- The loop that `free_retired` and `wirecall_routes_destroy` run over the retired list. -/
def freeAll (records : List Retired) (r : Routes) : Routes :=
  records.foldl (fun r node => chainFree r node.chain node.finalizeAll node.finalizeOne
    node.finalizeProcId) r

/-- The part of `free_retired` behind the check. -/
def reclaimRetired (r : Routes) : Routes := freeAll r.retired { r with retired := [] }

theorem freeRetired_eq (r : Routes) :
    freeRetired r = if r.activeReaders ≠ 0 then r else reclaimRetired r := rfl

/-- The nodes of a retired chain whose finalizer is to be called. -/
def Retired.due (record : Retired) : List Node :=
  finalizable record.finalizeAll record.finalizeOne record.finalizeProcId record.chain

/-- **What freeing a list of chains changes.** -/
theorem freeAll_eq (records : List Retired) (r : Routes) :
    freeAll records r = { r with
      freed := r.freed ++ records.flatMap fun record => record.chain.map Node.addr
      finalized := r.finalized ++ records.flatMap Retired.due } := by
  induction records generalizing r with
  | nil => simp [freeAll]
  | cons record records ih =>
    have hstep : freeAll (record :: records) r = freeAll records (chainFree r record.chain
        record.finalizeAll record.finalizeOne record.finalizeProcId) := rfl
    rw [hstep, ih]
    simp [chainFree, Retired.due]

theorem reclaimRetired_eq (table : Routes) : reclaimRetired table = { table with
    retired := []
    freed := table.freed ++ table.retired.flatMap fun record => record.chain.map Node.addr
    finalized := table.finalized ++ table.retired.flatMap Retired.due } := by
  rw [reclaimRetired, freeAll_eq]

/-- The chains of a table, page by page and slot by slot. -/
def Routes.chains (r : Routes) : List (List Node) :=
  (List.range 65536).flatMap fun i =>
    match r.pages (UInt32.ofNat i) with
    | none => []
    | some page => (List.range 65536).map fun j => page (UInt32.ofNat j)

/-- `wirecall_routes_destroy`: every chain is freed with all its finalizers, and then the retired
chains. -/
def routesDestroy (r : Routes) : Routes :=
  let chains := r.chains.map fun chain : List Node => (⟨chain, 0, true, false⟩ : Retired)
  freeAll r.retired { freeAll chains r with pages := fun _ => none, retired := [] }

/-! ## Lookups and mutations in progress -/

/-- Where a lookup is. From the load of the slot head on, `seen` is the entry of its id at that
moment. -/
inductive Lookup where
  | idle
  /-- `active_readers` was incremented. -/
  | entered (procId : UInt64)
  /-- The page was loaded, and there is one. -/
  | paged (procId : UInt64)
  /-- The head was loaded; `rest` is the chain from the node that `route` points to. -/
  | walking (procId : UInt64) (seen : Option Route) (rest : List Node)
  /-- The loop has ended at a node. -/
  | matching (procId : UInt64) (seen : Option Route) (node : Node)
  /-- The node was copied out, if there is one. -/
  | found (procId : UInt64) (seen : Option Route) (result : Option Node)
  /-- The count was decremented from one, and the lock is waited for. -/
  | last (procId : UInt64) (seen : Option Route) (result : Option Node)
  /-- `free_retired` is about to read the count, under the lock. -/
  | checking (procId : UInt64) (seen : Option Route) (result : Option Node)
  /-- It has read zero. -/
  | freeing (procId : UInt64) (seen : Option Route) (result : Option Node)
  | returned (procId : UInt64) (seen : Option Route) (result : Option Node)
  deriving DecidableEq

/-- A call that changes the table. -/
inductive Mutation where
  | add (route : Route)
  | remove (procId : UInt64)

/-- Where a mutation is. -/
inductive Mutator where
  /-- The new node is allocated and the lock is taken. -/
  | adding (mem : RouteMem) (node : Node)
  /-- There is a page for it. -/
  | linking (mem : RouteMem) (node : Node)
  | removing (mem : RouteMem) (procId : UInt64)
  /-- The new head is published, and `retire_route` was called for the old chain. -/
  | retiring (mem : RouteMem) (old : List Node) (one : Bool) (procId : UInt64)
  /-- `retire_route` has read a count of zero. -/
  | freeing (old : List Node) (one : Bool) (procId : UInt64)
  /-- `retire_route` has read another count. -/
  | pushing (mem : RouteMem) (old : List Node) (one : Bool) (procId : UInt64)
  /-- `free_retired` is about to read the count. -/
  | checking
  /-- It has read zero. -/
  | reclaiming

/-- Who holds `mutate_lock`. -/
inductive Owner where
  | nobody
  | lookup (r : ℕ)
  | mutator (m : Mutator)

/-- The table and its users. The list holds the lookups between the two changes of the reader
count, and `published` the routes that were put into the table. -/
structure Shared where
  table : Routes
  owner : Owner
  lookups : ℕ → Lookup
  inside : List ℕ
  published : List Node
  destroyed : Bool

/-- A fresh table. -/
def Shared.init : Shared where
  table := routesInit
  owner := .nobody
  lookups := fun _ => .idle
  inside := []
  published := []
  destroyed := false

/-- A lookup moves on. -/
def Shared.put (s : Shared) (r : ℕ) (l : Lookup) : Shared :=
  { s with lookups := Function.update s.lookups r l }

theorem Shared.put_self (s : Shared) (r : ℕ) (l : Lookup) : (s.put r l).lookups r = l := by
  simp only [Shared.put, Function.update_self]

theorem Shared.put_of_ne (s : Shared) (l : Lookup) {r r' : ℕ} (h : r' ≠ r) :
    (s.put r l).lookups r' = s.lookups r' := by
  simp only [Shared.put, Function.update_of_ne h]

/-! ## The steps -/

/-- The increment that a lookup starts with. -/
def beginLookup (s : Shared) (r : ℕ) (procId : UInt64) : Option Shared :=
  let entered :=
    { s.put r (.entered procId) with
      table := { s.table with activeReaders := s.table.activeReaders + 1 }
      inside := r :: s.inside }
  match s.lookups r with
  | .idle => some entered
  | .returned _ _ _ => some entered
  | _ => none

/-- The decrement; the old count decides whether `free_retired` is called. -/
def leaveLookup (s : Shared) (r : ℕ) (procId : UInt64) (seen : Option Route)
    (result : Option Node) : Shared :=
  let old := s.table.activeReaders
  { s.put r (if old = 1 then .last procId seen result else .returned procId seen result) with
    table := { s.table with activeReaders := old - 1 }
    inside := s.inside.erase r }

/-- The next step of a lookup. -/
def lookupStep (s : Shared) (r : ℕ) : Option Shared :=
  match s.lookups r with
  | .idle => none
  | .returned _ _ _ => none
  | .entered procId =>
    match s.table.pages (pageIdx procId) with
    | none => some (s.put r (.found procId (s.table.entry procId) none))
    | some _ => some (s.put r (.paged procId))
  | .paged procId =>
    some (s.put r (.walking procId (s.table.entry procId) (s.table.chainOf procId)))
  | .walking procId seen [] => some (s.put r (.found procId seen none))
  | .walking procId seen (node :: rest) =>
    if node.route.procId ≠ procId then some (s.put r (.walking procId seen rest))
    else some (s.put r (.matching procId seen node))
  | .matching procId seen node => some (s.put r (.found procId seen (some node)))
  | .found procId seen result => some (leaveLookup s r procId seen result)
  | .last procId seen result =>
    match s.owner with
    | .nobody => some { s.put r (.checking procId seen result) with owner := .lookup r }
    | _ => none
  | .checking procId seen result =>
    if s.table.activeReaders ≠ 0 then
      some { s.put r (.returned procId seen result) with owner := .nobody }
    else some (s.put r (.freeing procId seen result))
  | .freeing procId seen result =>
    some { s.put r (.returned procId seen result) with
      table := reclaimRetired s.table
      owner := .nobody }

/-- The lock is taken for a mutation. -/
def startMutation (s : Shared) (mem : RouteMem) (mutation : Mutation) : Option Shared :=
  match s.owner, mutation with
  | .nobody, .add route =>
    if mem.route then
      some { s with
        table := { s.table with
          nextAddr := s.table.nextAddr + 1
          nextAdded := s.table.nextAdded + 1 }
        owner := .mutator (.adding mem ⟨s.table.nextAddr, s.table.nextAdded, route⟩) }
    else some s
  | .nobody, .remove procId => some { s with owner := .mutator (.removing mem procId) }
  | _, _ => none

/-- A mutation that gives up frees what it allocated. -/
def abandon (s : Shared) (nodes : List Node) : Shared :=
  { s with table := chainFree s.table nodes false false 0, owner := .nobody }

/-- A missing page is allocated and stored. -/
def storePage (s : Shared) (mem : RouteMem) (node : Node) : Shared :=
  let i := pageIdx node.route.procId
  match s.table.pages i with
  | some _ => { s with owner := .mutator (.linking mem node) }
  | none =>
    if mem.page then
      { s with
        table := { s.table with pages := Function.update s.table.pages i (some fun _ => []) }
        owner := .mutator (.linking mem node) }
    else abandon s [node]

/-- The new head is stored, and the old chain is in the hand of the mutation. -/
def publishHead (s : Shared) (mem : RouteMem) (procId : UInt64) (page : UInt32 → List Node)
    (head : List Node) (one : Bool) : Shared :=
  { s with
    table := s.table.publish procId page head
    owner := .mutator (.retiring mem (s.table.chainOf procId) one procId) }

/-- The copies of a chain are allocated. -/
def Shared.allocate (s : Shared) (n : ℕ) : Shared :=
  { s with table := { s.table with nextAddr := s.table.nextAddr + n } }

/-- `routes_add_route` from the copying loop to the store of the new head. -/
def linkNode (s : Shared) (mem : RouteMem) (node : Node) : Shared :=
  let procId := node.route.procId
  let page := (s.table.pages (pageIdx procId)).getD fun _ => []
  match copyChain mem.copy procId s.table.nextAddr (s.table.chainOf procId) [] false with
  | (.err, copies, _) => abandon (s.allocate copies.length) (node :: copies)
  | (.ok, copies, replaced) =>
    { publishHead (s.allocate copies.length) mem procId page (node :: copies) replaced with
      published := node :: s.published }

/-- `wirecall_routes_remove` from the copying loop to the store of the new head. -/
def unlinkNode (s : Shared) (mem : RouteMem) (procId : UInt64) : Shared :=
  match copyChain mem.copy procId s.table.nextAddr (s.table.chainOf procId) [] false with
  | (.err, copies, _) => abandon (s.allocate copies.length) copies
  | (.ok, copies, removed) =>
    match s.table.pages (pageIdx procId), removed with
    | some page, true => publishHead (s.allocate copies.length) mem procId page copies true
    | _, _ => abandon (s.allocate copies.length) copies

/-- The next step of the mutation that holds the lock. -/
def mutatorStep (s : Shared) : Option Shared :=
  match s.owner with
  | .mutator (.adding mem node) => some (storePage s mem node)
  | .mutator (.linking mem node) => some (linkNode s mem node)
  | .mutator (.removing mem procId) => some (unlinkNode s mem procId)
  | .mutator (.retiring mem old one procId) =>
    if old = [] then some { s with owner := .nobody }
    else if s.table.activeReaders = 0 then
      some { s with owner := .mutator (.freeing old one procId) }
    else some { s with owner := .mutator (.pushing mem old one procId) }
  | .mutator (.freeing old one procId) =>
    some { s with table := chainFree s.table old false one procId, owner := .nobody }
  | .mutator (.pushing mem old one procId) =>
    if mem.retired then
      some { s with
        table := { s.table with retired := ⟨old, procId, false, one⟩ :: s.table.retired }
        owner := .mutator .checking }
    else some { s with owner := .nobody }
  | .mutator .checking =>
    if s.table.activeReaders ≠ 0 then some { s with owner := .nobody }
    else some { s with owner := .mutator .reclaiming }
  | .mutator .reclaiming =>
    some { s with table := reclaimRetired s.table, owner := .nobody }
  | .nobody => none
  | .lookup _ => none

/-- A step of one of the threads. -/
inductive RouteStep where
  | beginLookup (r : ℕ) (procId : UInt64)
  | lookup (r : ℕ)
  | startMutation (mem : RouteMem) (mutation : Mutation)
  | mutator
  | destroy

/-- The steps of the table and its users. A table that was destroyed is not used any more. -/
def Shared.step (s : Shared) (l : RouteStep) : Option Shared :=
  if s.destroyed then none
  else match l with
    | .beginLookup r procId => beginLookup s r procId
    | .lookup r => lookupStep s r
    | .startMutation mem mutation => startMutation s mem mutation
    | .mutator => mutatorStep s
    | .destroy =>
      match s.owner with
      | .nobody => some { s with table := routesDestroy s.table, destroyed := true }
      | _ => none

/-! ## What a step can do -/

/-- The nodes a lookup may still visit. -/
def Lookup.held : Lookup → List Node
  | .walking _ _ rest => rest
  | .matching _ _ node => [node]
  | _ => []

/-- The lookup is between the two changes of the reader count. -/
def Lookup.isInside : Lookup → Bool
  | .entered _ => true
  | .paged _ => true
  | .walking _ _ _ => true
  | .matching _ _ _ => true
  | .found _ _ _ => true
  | _ => false

/-- The lookup is going to call `free_retired`, or is in it. -/
def Lookup.isPending : Lookup → Bool
  | .last _ _ _ => true
  | .checking _ _ _ => true
  | .freeing _ _ _ => true
  | _ => false

/-- The steps of a lookup that change nothing but the lookup. -/
inductive Lookup.Moves (table : Routes) : Lookup → Lookup → Prop
  | noPage {procId} (hpage : table.pages (pageIdx procId) = none) :
      Moves table (.entered procId) (.found procId (table.entry procId) none)
  | page {procId} : Moves table (.entered procId) (.paged procId)
  | head {procId} : Moves table (.paged procId)
      (.walking procId (table.entry procId) (table.chainOf procId))
  | ends {procId seen} : Moves table (.walking procId seen []) (.found procId seen none)
  | next {procId seen node rest} (hne : node.route.procId ≠ procId) :
      Moves table (.walking procId seen (node :: rest)) (.walking procId seen rest)
  | hit {procId seen node rest} (heq : node.route.procId = procId) :
      Moves table (.walking procId seen (node :: rest)) (.matching procId seen node)
  | copy {procId seen node} :
      Moves table (.matching procId seen node) (.found procId seen (some node))

/-- **What a step of a lookup can do.** -/
inductive LookupSteps (s : Shared) (r : ℕ) : Shared → Prop
  | moves {l : Lookup} (hmoves : (s.lookups r).Moves s.table l) : LookupSteps s r (s.put r l)
  | leaves {procId seen result} (hl : s.lookups r = .found procId seen result) :
      LookupSteps s r (leaveLookup s r procId seen result)
  | locks {procId seen result} (hl : s.lookups r = .last procId seen result)
      (howner : s.owner = .nobody) :
      LookupSteps s r { s.put r (.checking procId seen result) with owner := .lookup r }
  | skips {procId seen result} (hl : s.lookups r = .checking procId seen result)
      (hcount : s.table.activeReaders ≠ 0) :
      LookupSteps s r { s.put r (.returned procId seen result) with owner := .nobody }
  | clears {procId seen result} (hl : s.lookups r = .checking procId seen result)
      (hcount : s.table.activeReaders = 0) :
      LookupSteps s r (s.put r (.freeing procId seen result))
  | frees {procId seen result} (hl : s.lookups r = .freeing procId seen result) :
      LookupSteps s r { s.put r (.returned procId seen result) with
        table := reclaimRetired s.table
        owner := .nobody }

theorem lookupStep_cases {s s' : Shared} {r : ℕ} (h : lookupStep s r = some s') :
    LookupSteps s r s' := by
  unfold lookupStep at h
  split at h
  case h_1 => cases h
  case h_2 => cases h
  case h_3 procId hl =>
    split at h
    · rename_i hpage
      cases h
      exact .moves (hl ▸ .noPage hpage)
    · cases h
      exact .moves (hl ▸ .page)
  case h_4 procId hl =>
    cases h
    exact .moves (hl ▸ .head)
  case h_5 procId seen hl =>
    cases h
    exact .moves (hl ▸ .ends)
  case h_6 procId seen node rest hl =>
    split_ifs at h with hne
    · cases h
      exact .moves (hl ▸ .next hne)
    · cases h
      exact .moves (hl ▸ .hit (not_not.mp hne))
  case h_7 procId seen node hl =>
    cases h
    exact .moves (hl ▸ .copy)
  case h_8 procId seen result hl =>
    cases h
    exact .leaves hl
  case h_9 procId seen result hl =>
    split at h
    · rename_i howner
      cases h
      exact .locks hl howner
    · cases h
  case h_10 procId seen result hl =>
    split_ifs at h with hcount
    · cases h
      exact .skips hl hcount
    · cases h
      exact .clears hl (not_not.mp hcount)
  case h_11 procId seen result hl =>
    cases h
    exact .frees hl

/-- The copies of the chain of `procId`: new nodes, for the routes of the other ids. -/
structure Copies (old : List Node) (procId : UInt64) (addr : ℕ) (copies : List Node) : Prop where
  addr : ∀ n ∈ copies, addr ≤ n.addr ∧ n.addr < addr + copies.length
  source : ∀ n ∈ copies, ∃ m ∈ old, m.route.procId ≠ procId ∧ n.added = m.added ∧ n.route = m.route

/-- A copying loop that succeeds drops the routes of `procId` and copies all others. -/
structure CopiesAll (old : List Node) (procId : UInt64) (copies : List Node) (dropped : Bool) :
    Prop where
  complete : ∀ m ∈ old, m.route.procId ≠ procId →
    ∃ n ∈ copies, n.added = m.added ∧ n.route = m.route
  routes : copies.map Node.route =
    (old.map Node.route).filter fun route => route.procId != procId
  dropped : dropped = old.any fun n => n.route.procId == procId

/-- The copies a loop adds to those it has. -/
theorem copyChain_adds {grant : ℕ → Bool} {procId : UInt64} {addr : ℕ}
    {old copies copies' : List Node} {dropped dropped' : Bool} {rc : Rc}
    (h : copyChain grant procId addr old copies dropped = (rc, copies', dropped')) :
    ∃ more, copies' = copies ++ more ∧
      (∀ n ∈ more, addr + copies.length ≤ n.addr ∧ n.addr < addr + copies'.length ∧
        ∃ m ∈ old, m.route.procId ≠ procId ∧ n.added = m.added ∧ n.route = m.route) ∧
      (rc = .ok → ∀ m ∈ old, m.route.procId ≠ procId →
        ∃ n ∈ more, n.added = m.added ∧ n.route = m.route) := by
  -- along the old chain: a node is dropped, copied, or the loop ends
  induction old generalizing copies dropped with
  | nil =>
    cases h
    exact ⟨[], (List.append_nil _).symm, List.forall_mem_nil _, fun _ => List.forall_mem_nil _⟩
  | cons it rest ih =>
    rw [copyChain] at h
    split_ifs at h with hsame hgrant
    · obtain ⟨more, hcopies, hmore, hall⟩ := ih h
      refine ⟨more, hcopies, fun n hn => ?_, fun hok => ?_⟩
      · obtain ⟨hle, hlt, m, hm, hsource⟩ := hmore n hn
        exact ⟨hle, hlt, m, List.mem_cons_of_mem _ hm, hsource⟩
      · refine List.forall_mem_cons.mpr ⟨fun hne => absurd hsame hne, hall hok⟩
    · obtain ⟨more, hcopies, hmore, hall⟩ := ih h
      have hlen : copies'.length = copies.length + 1 + more.length := by
        rw [hcopies, List.length_append, List.length_append, List.length_singleton]
      refine ⟨{ it with addr := addr + copies.length } :: more, ?_, ?_, fun hok => ?_⟩
      · rw [hcopies, List.append_assoc]
        rfl
      · refine List.forall_mem_cons.mpr ⟨⟨le_rfl, ?_, it, List.mem_cons_self, hsame, rfl, rfl⟩, ?_⟩
        · simp only
          omega
        · intro n hn
          obtain ⟨hle, hlt, m, hm, hsource⟩ := hmore n hn
          rw [List.length_append, List.length_singleton] at hle
          exact ⟨by omega, hlt, m, List.mem_cons_of_mem _ hm, hsource⟩
      · refine List.forall_mem_cons.mpr ⟨fun _ => ⟨_, List.mem_cons_self, rfl, rfl⟩, ?_⟩
        intro m hm hne
        obtain ⟨n, hn, hcopy⟩ := hall hok m hm hne
        exact ⟨n, List.mem_cons_of_mem _ hn, hcopy⟩
    · cases h
      exact ⟨[], (List.append_nil _).symm, List.forall_mem_nil _, fun hok => by cases hok⟩

/-- **The copies of a chain are new nodes for routes of the old one.** -/
theorem copyChain_copies {grant : ℕ → Bool} {procId : UInt64} {addr : ℕ}
    {old copies : List Node} {dropped : Bool} {rc : Rc}
    (h : copyChain grant procId addr old [] false = (rc, copies, dropped)) :
    Copies old procId addr copies ∧ (rc = .ok → CopiesAll old procId copies dropped) := by
  obtain ⟨more, rfl, hmore, hall⟩ := copyChain_adds h
  refine ⟨⟨fun n hn => ?_, fun n hn => (hmore n hn).2.2⟩, ?_⟩
  · exact ⟨(hmore n hn).1, (hmore n hn).2.1⟩
  · rintro rfl
    obtain ⟨hroutes, hdropped⟩ := copyChain_eq_ok h
    exact ⟨hall rfl, hroutes, hdropped⟩

/-- **What a step of the mutation that holds the lock can do.** -/
inductive MutatorSteps (s : Shared) : Shared → Prop
  | hasPage {mem node} (howner : s.owner = .mutator (.adding mem node)) :
      MutatorSteps s { s with owner := .mutator (.linking mem node) }
  | newPage {mem node} (howner : s.owner = .mutator (.adding mem node))
      (hpage : s.table.pages (pageIdx node.route.procId) = none) :
      MutatorSteps s { s with
        table := { s.table with
          pages := Function.update s.table.pages (pageIdx node.route.procId) (some fun _ => []) }
        owner := .mutator (.linking mem node) }
  | noPage {mem node} (howner : s.owner = .mutator (.adding mem node)) (hmem : mem.page = false) :
      MutatorSteps s (abandon s [node])
  | noCopy {mem node copies} (howner : s.owner = .mutator (.linking mem node))
      (hcopies : Copies (s.table.chainOf node.route.procId) node.route.procId s.table.nextAddr
        copies) (hmem : mem ≠ .granting) :
      MutatorSteps s (abandon (s.allocate copies.length) (node :: copies))
  | links {mem node page copies replaced} (howner : s.owner = .mutator (.linking mem node))
      (hpage : (s.table.pages (pageIdx node.route.procId)).getD (fun _ => []) = page)
      (hcopies : Copies (s.table.chainOf node.route.procId) node.route.procId s.table.nextAddr
        copies)
      (hall : CopiesAll (s.table.chainOf node.route.procId) node.route.procId copies replaced) :
      MutatorSteps s { publishHead (s.allocate copies.length) mem node.route.procId page
          (node :: copies) replaced with
        published := node :: s.published }
  | notRemoved {mem procId copies} (howner : s.owner = .mutator (.removing mem procId))
      (hcopies : Copies (s.table.chainOf procId) procId s.table.nextAddr copies) :
      MutatorSteps s (abandon (s.allocate copies.length) copies)
  | unlinks {mem procId page copies} (howner : s.owner = .mutator (.removing mem procId))
      (hpage : (s.table.pages (pageIdx procId)).getD (fun _ => []) = page)
      (hcopies : Copies (s.table.chainOf procId) procId s.table.nextAddr copies)
      (hall : CopiesAll (s.table.chainOf procId) procId copies true) :
      MutatorSteps s (publishHead (s.allocate copies.length) mem procId page copies true)
  | nothing {mem one procId} (howner : s.owner = .mutator (.retiring mem [] one procId)) :
      MutatorSteps s { s with owner := .nobody }
  | unread {mem old one procId} (howner : s.owner = .mutator (.retiring mem old one procId))
      (hcount : s.table.activeReaders = 0) :
      MutatorSteps s { s with owner := .mutator (.freeing old one procId) }
  | read {mem old one procId} (howner : s.owner = .mutator (.retiring mem old one procId))
      (hcount : s.table.activeReaders ≠ 0) :
      MutatorSteps s { s with owner := .mutator (.pushing mem old one procId) }
  | frees {old one procId} (howner : s.owner = .mutator (.freeing old one procId)) :
      MutatorSteps s { s with
        table := chainFree s.table old false one procId
        owner := .nobody }
  | pushes {mem old one procId} (howner : s.owner = .mutator (.pushing mem old one procId)) :
      MutatorSteps s { s with
        table := { s.table with retired := ⟨old, procId, false, one⟩ :: s.table.retired }
        owner := .mutator .checking }
  | leaks {mem old one procId} (howner : s.owner = .mutator (.pushing mem old one procId))
      (hmem : mem.retired = false) : MutatorSteps s { s with owner := .nobody }
  | skips (howner : s.owner = .mutator .checking) (hcount : s.table.activeReaders ≠ 0) :
      MutatorSteps s { s with owner := .nobody }
  | clears (howner : s.owner = .mutator .checking) (hcount : s.table.activeReaders = 0) :
      MutatorSteps s { s with owner := .mutator .reclaiming }
  | reclaims (howner : s.owner = .mutator .reclaiming) :
      MutatorSteps s { s with table := reclaimRetired s.table, owner := .nobody }

theorem storePage_cases {s : Shared} {mem : RouteMem} {node : Node}
    (howner : s.owner = .mutator (.adding mem node)) : MutatorSteps s (storePage s mem node) := by
  unfold storePage
  simp only
  split
  · exact .hasPage howner
  · rename_i hpage
    split_ifs with hmem
    · exact .newPage howner hpage
    · exact .noPage howner (by simpa using hmem)

theorem linkNode_cases {s : Shared} {mem : RouteMem} {node : Node}
    (howner : s.owner = .mutator (.linking mem node)) : MutatorSteps s (linkNode s mem node) := by
  unfold linkNode
  simp only
  split
  · rename_i copies dropped hcopy
    refine .noCopy howner (copyChain_copies hcopy).1 ?_
    rintro rfl
    have hok := copyChain_granting node.route.procId s.table.nextAddr
      (s.table.chainOf node.route.procId) [] false
    rw [hcopy] at hok
    cases hok
  · rename_i copies replaced hcopy
    obtain ⟨hcopies, hall⟩ := copyChain_copies hcopy
    exact .links howner rfl hcopies (hall rfl)

theorem unlinkNode_cases {s : Shared} {mem : RouteMem} {procId : UInt64}
    (howner : s.owner = .mutator (.removing mem procId)) :
    MutatorSteps s (unlinkNode s mem procId) := by
  unfold unlinkNode
  split
  · rename_i copies dropped hcopy
    exact .notRemoved howner (copyChain_copies hcopy).1
  · rename_i copies removed hcopy
    obtain ⟨hcopies, hall⟩ := copyChain_copies hcopy
    split
    · rename_i page hpage
      exact .unlinks howner (by rw [hpage]; rfl) hcopies (hall rfl)
    · exact .notRemoved howner hcopies

theorem mutatorStep_cases {s s' : Shared} (h : mutatorStep s = some s') : MutatorSteps s s' := by
  unfold mutatorStep at h
  split at h
  case h_1 mem node howner =>
    cases h
    exact storePage_cases howner
  case h_2 mem node howner =>
    cases h
    exact linkNode_cases howner
  case h_3 mem procId howner =>
    cases h
    exact unlinkNode_cases howner
  case h_4 mem old one procId howner =>
    split_ifs at h with hempty hcount
    · cases h
      subst hempty
      exact .nothing howner
    · cases h
      exact .unread howner hcount
    · cases h
      exact .read howner hcount
  case h_5 old one procId howner =>
    cases h
    exact .frees howner
  case h_6 mem old one procId howner =>
    split_ifs at h with hmem
    · cases h
      exact .pushes howner
    · cases h
      exact .leaks howner (by simpa using hmem)
  case h_7 howner =>
    split_ifs at h with hcount
    · cases h
      exact .skips howner hcount
    · cases h
      exact .clears howner (not_not.mp hcount)
  case h_8 howner =>
    cases h
    exact .reclaims howner
  case h_9 => cases h
  case h_10 => cases h

/-- **What any step can do.** -/
inductive SharedSteps (s : Shared) : RouteStep → Shared → Prop
  | begins {r procId} (hl : (s.lookups r).isInside = false) (hl' : (s.lookups r).isPending = false) :
      SharedSteps s (.beginLookup r procId)
        { s.put r (.entered procId) with
          table := { s.table with activeReaders := s.table.activeReaders + 1 }
          inside := r :: s.inside }
  | lookup {r s'} (h : LookupSteps s r s') : SharedSteps s (.lookup r) s'
  | adds {mem route} (howner : s.owner = .nobody) :
      SharedSteps s (.startMutation mem (.add route))
        { s with
          table := { s.table with
            nextAddr := s.table.nextAddr + 1
            nextAdded := s.table.nextAdded + 1 }
          owner := .mutator (.adding mem ⟨s.table.nextAddr, s.table.nextAdded, route⟩) }
  | notAdded {mem route} : SharedSteps s (.startMutation mem (.add route)) s
  | removes {mem procId} (howner : s.owner = .nobody) :
      SharedSteps s (.startMutation mem (.remove procId))
        { s with owner := .mutator (.removing mem procId) }
  | mutator {s'} (h : MutatorSteps s s') : SharedSteps s .mutator s'
  | destroys (howner : s.owner = .nobody) :
      SharedSteps s .destroy { s with table := routesDestroy s.table, destroyed := true }

theorem Shared.step_cases {s s' : Shared} {l : RouteStep} (h : s.step l = some s') :
    s.destroyed = false ∧ SharedSteps s l s' := by
  unfold Shared.step at h
  split_ifs at h with hdestroyed
  refine ⟨by simpa using hdestroyed, ?_⟩
  cases l with
  | beginLookup r procId =>
    simp only [beginLookup] at h
    split at h
    · rename_i hl
      cases h
      exact .begins (by rw [hl]; rfl) (by rw [hl]; rfl)
    · rename_i hl
      cases h
      exact .begins (by rw [hl]; rfl) (by rw [hl]; rfl)
    · cases h
  | lookup r => exact .lookup (lookupStep_cases h)
  | startMutation mem mutation =>
    simp only [startMutation] at h
    split at h
    · rename_i route howner
      split_ifs at h
      · cases h
        exact .adds howner
      · cases h
        exact .notAdded
    · rename_i procId howner
      cases h
      exact .removes howner
    · cases h
  | mutator => exact .mutator (mutatorStep_cases h)
  | destroy =>
    simp only at h
    split at h
    · rename_i howner
      cases h
      exact .destroys howner
    · cases h

end Wirecall

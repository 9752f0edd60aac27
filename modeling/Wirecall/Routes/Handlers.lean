import Wirecall.Routes.Finalizers

/-!
# Handlers and finalizers

A worker looks a route up, and the lookup copies it out. The copy is then used without any hold on
the table: for a call of the handler, or for a coroutine that is queued, resumed, suspended and
resumed again. A mutation of the same id may finalize the route at any time in between.

The copy is good as long as the route is in the table. So a handler is entered with a finalized
route only if a mutation dropped the route while it was in flight.

## Main definitions

* `Activity`, `Pool`: the workers over the shared table
* `Pool.step`: dispatch, the scheduler and the mutations as a labelled machine
* `Pool.inFlight`: the routes a worker is going to enter or resume a handler with
* `NoneInFlight`: a mutation drops no route that is in flight

## Main results

* `Current.step`: every such step keeps the routes in flight in the table
* `handlers_before_finalizers`: **no handler is entered with a finalized route** in these runs
* `removed_route_entered`: otherwise one may be
-/

namespace Wirecall

/-! ## Workers -/

/-- What a worker is doing. -/
inductive Activity where
  | idle
  /-- In `wirecall_routes_lookup` for a packet, or behind it in `handle_packet`. -/
  | routing
  /-- In the handler of a route that is not asynchronous. -/
  | calling
  /-- In the coroutine that was made for the route. -/
  | resumed (route : Node)

/-- An entry or a resume of a handler, with the routes that were finalized by then. -/
structure Entered where
  route : Node
  finalized : List Node

/-- The table, the workers and their schedulers. The number of a worker is that of its lookup, and
a call on the queue of a scheduler is the route that was copied into it. -/
structure Pool where
  shared : Shared
  activity : ℕ → Activity
  ready : ℕ → List Node
  entered : List Entered

def Pool.init : Pool where
  shared := .init
  activity := fun _ => .idle
  ready := fun _ => []
  entered := []

namespace Pool

def act (s : Pool) (w : ℕ) (activity : Activity) : Pool :=
  { s with activity := Function.update s.activity w activity }

def queue (s : Pool) (w : ℕ) (calls : List Node) : Pool :=
  { s with ready := Function.update s.ready w calls }

/-- A handler is entered or resumed. -/
def enter (s : Pool) (route : Node) : Pool :=
  { s with entered := s.entered ++ [⟨route, s.shared.table.finalized⟩] }

/-- A step of the table. -/
def table (s : Pool) (l : RouteStep) : Option Pool :=
  (s.shared.step l).map fun shared => { s with shared := shared }

end Pool

/-- A step of a worker, or of the thread that has the lock. -/
inductive PoolStep where
  /-- `handle_packet` has a call and starts the lookup. -/
  | packet (w : ℕ) (procId : UInt64)
  | lookup (w : ℕ)
  /-- The lookup has returned. The call is accepted if its payload can be decoded and there is
  memory for it. -/
  | dispatch (w : ℕ) (accepted : Bool)
  /-- `wirecall_scheduler_run_ready` takes the next call, and `mco_resume` succeeds or not. -/
  | resume (w : ℕ) (ok : Bool)
  /-- The coroutine suspends itself. -/
  | suspend (w : ℕ)
  /-- The handler returns. -/
  | finish (w : ℕ)
  | startMutation (mem : RouteMem) (mutation : Mutation)
  | mutator

/-- The steps of the workers and of the mutations. -/
def Pool.step (s : Pool) : PoolStep → Option Pool
  | .packet w procId =>
    match s.activity w with
    | .idle => (s.table (.beginLookup w procId)).map fun s => s.act w .routing
    | _ => none
  | .lookup w =>
    match s.activity w with
    | .routing => s.table (.lookup w)
    | _ => none
  | .dispatch w accepted =>
    match s.activity w, s.shared.lookups w with
    | .routing, .returned _ _ none => some (s.act w .idle)
    | .routing, .returned _ _ (some route) =>
      if accepted = false then some (s.act w .idle)
      else if route.route.isDeferred ∨ route.route.isAsync = false then
        some ((s.enter route).act w .calling)
      else some ((s.queue w (s.ready w ++ [route])).act w .idle)
    | _, _ => none
  | .resume w ok =>
    match s.activity w, s.ready w with
    | .idle, route :: rest =>
      if ok then some (((s.enter route).queue w rest).act w (.resumed route))
      else some (s.queue w rest)
    | _, _ => none
  | .suspend w =>
    match s.activity w with
    | .resumed route => some ((s.queue w (s.ready w ++ [route])).act w .idle)
    | _ => none
  | .finish w =>
    match s.activity w with
    | .calling => some (s.act w .idle)
    | .resumed _ => some (s.act w .idle)
    | _ => none
  | .startMutation mem mutation => s.table (.startMutation mem mutation)
  | .mutator => s.table .mutator

/-! ## Routes in flight -/

/-- The routes a lookup may return. -/
def Lookup.carries : Lookup → List Node
  | .walking procId _ rest => rest.filter fun n => n.route.procId == procId
  | .matching _ _ node => [node]
  | .found _ _ result => result.toList
  | .last _ _ result => result.toList
  | .checking _ _ result => result.toList
  | .freeing _ _ result => result.toList
  | .returned _ _ result => result.toList
  | _ => []

/-- The routes a worker has at hand for a handler. -/
def Activity.carries (l : Lookup) : Activity → List Node
  | .routing => l.carries
  | .resumed route => [route]
  | _ => []

/-- The routes a worker is going to enter or resume a handler with: those its lookup may return,
the one of the coroutine that runs, and those on its queue. -/
def Pool.inFlight (s : Pool) (w : ℕ) : List Node :=
  (s.activity w).carries (s.shared.lookups w) ++ s.ready w

/-- A mutation that publishes a chain drops no route that is in flight. -/
def NoneInFlight (s : Pool) : PoolStep → Prop
  | .mutator => ∀ procId, s.shared.owner.drops = some procId →
    ∀ w, ∀ n ∈ s.inFlight w, n.route.procId ≠ procId
  | _ => True

/-- The route is in the table, maybe as another copy. -/
def Routes.Holds (table : Routes) (n : Node) : Prop :=
  ∃ i j m, table.InSlot i j m ∧ m.added = n.added ∧ m.route = n.route

section Holds

variable {s s' : Shared} {r : ℕ} {n : Node} {l l' : Lookup} {label : RouteStep}

theorem Routes.Holds.congr {table table' : Routes} (hpages : table'.pages = table.pages)
    (h : table.Holds n) : table'.Holds n := by
  obtain ⟨i, j, m, hm, hcopy⟩ := h
  exact ⟨i, j, m, ((SameSlots.of_pages hpages).inSlot i j m).mpr hm, hcopy⟩

theorem MutatorSteps.owner (h : MutatorSteps s s') : ∃ m, s.owner = .mutator m := by
  cases h <;> exact ⟨_, by assumption⟩

/-- A mutation of another id leaves the route in the table. -/
theorem Routes.Holds.mutator (h : s.table.Holds n) (hstep : MutatorSteps s s')
    (hdrops : ∀ procId, s.owner.drops = some procId → n.route.procId ≠ procId) :
    s'.table.Holds n := by
  obtain ⟨i, j, m, hm, hadded, hroute⟩ := h
  have same (hslots : SameSlots s.table s'.table) : s'.table.Holds n :=
    ⟨i, j, m, (hslots.inSlot i j m).mpr hm, hadded, hroute⟩
  cases hstep.books with
  | keeps hslots => exact same hslots
  | loses hslots => exact same hslots
  | adds hslots => exact same hslots
  | publishes hdrops' hpage hcopies hall hown hdue htable =>
    have hid : m.route.procId ≠ _ := hroute ▸ hdrops _ hdrops'
    obtain ⟨i', j', c, hc, hca, hcr⟩ := hall.publish s.owner.own hpage hm hid
    rw [htable]
    exact ⟨i', j', c, hc, hca.trans hadded, hcr.trans hroute⟩
  | destroys howner =>
    obtain ⟨m, hm⟩ := hstep.owner
    rw [howner] at hm
    cases hm

theorem Separate.not_finalized (h : Separate s) (hn : s.table.Holds n) :
    n.added ∉ s.table.finalized.map Node.added := by
  obtain ⟨i, j, m, hm, hadded, -⟩ := hn
  intro hmem
  refine h.table i j m hm ?_
  rw [account, List.map_append, hadded]
  exact List.mem_append_left _ hmem

/-- A lookup goes on with what it carries, or takes it from the table. -/
theorem Lookup.Moves.carries {table : Routes} (h : l.Moves table l') (hn : n ∈ l'.carries) :
    n ∈ l.carries ∨ ∃ i j, table.InSlot i j n := by
  cases h with
  | noPage hpage => cases hn
  | page => cases hn
  | head => exact .inr ⟨_, _, Routes.inSlot_of_mem_chainOf (List.mem_of_mem_filter hn)⟩
  | ends => cases hn
  | next hne =>
    obtain ⟨hn, hid⟩ := List.mem_filter.mp hn
    exact .inl (List.mem_filter.mpr ⟨List.mem_cons_of_mem _ hn, hid⟩)
  | hit heq =>
    rw [List.mem_singleton.mp hn]
    exact .inl (List.mem_filter.mpr ⟨List.mem_cons_self, beq_iff_eq.mpr heq⟩)
  | copy => exact .inl hn

theorem LookupSteps.pages (h : LookupSteps s r s') : s'.table.pages = s.table.pages := by
  cases h with
  | frees hl => simp only [reclaimRetired_eq]
  | _ => rfl

/-- A step of a lookup changes what it carries itself. -/
theorem LookupSteps.carries (h : LookupSteps s r s') {r' : ℕ} (hn : n ∈ (s'.lookups r').carries) :
    n ∈ (s.lookups r').carries ∨ ∃ i j, s.table.InSlot i j n := by
  -- for the lookup that steps: its phase before, and what the new one carries
  have key {l : Lookup} (hn : n ∈ ((s.put r l).lookups r').carries)
      (hl : n ∈ l.carries → n ∈ (s.lookups r).carries ∨ ∃ i j, s.table.InSlot i j n) :
      n ∈ (s.lookups r').carries ∨ ∃ i j, s.table.InSlot i j n := by
    by_cases hr : r' = r
    · subst hr
      rw [Shared.put_self] at hn
      exact hl hn
    · rw [Shared.put_of_ne _ _ hr] at hn
      exact .inl hn
  cases h with
  | moves hmoves => exact key hn hmoves.carries
  | leaves hl =>
    refine key hn fun hn => .inl ?_
    rw [hl]
    split_ifs at hn <;> exact hn
  | locks hl howner =>
    refine key hn fun hn => .inl ?_
    rw [hl]
    exact hn
  | skips hl hcount =>
    refine key hn fun hn => .inl ?_
    rw [hl]
    exact hn
  | clears hl hcount =>
    refine key hn fun hn => .inl ?_
    rw [hl]
    exact hn
  | frees hl =>
    refine key hn fun hn => .inl ?_
    rw [hl]
    exact hn

theorem MutatorSteps.lookups (h : MutatorSteps s s') : s'.lookups = s.lookups := by
  cases h <;> rfl

end Holds

/-! ## Runs -/

/-- **Every route in flight is in the table**, and no handler was entered with a finalized one. -/
structure Current (s : Pool) : Prop where
  counted : Counted s.shared
  separate : Separate s.shared
  inFlight : ∀ w, ∀ n ∈ s.inFlight w, s.shared.table.Holds n
  entered : ∀ e ∈ s.entered, e.route.added ∉ e.finalized.map Node.added

section Current

variable {s s' : Pool} {w : ℕ} {route : Node} {activity : Activity} {calls : List Node}

/-- A worker whose routes in flight were in flight before. -/
theorem Current.worker (h : Current s)
    (hinFlight : ∀ n ∈ activity.carries (s.shared.lookups w) ++ calls, n ∈ s.inFlight w) :
    Current ((s.queue w calls).act w activity) := by
  refine ⟨h.counted, h.separate, fun w' n hn => ?_, h.entered⟩
  by_cases hw : w' = w
  · subst hw
    refine h.inFlight w' n (hinFlight n ?_)
    simpa only [Pool.inFlight, Pool.act, Pool.queue, Function.update_self] using hn
  · refine h.inFlight w' n ?_
    simpa only [Pool.inFlight, Pool.act, Pool.queue, Function.update_of_ne hw] using hn

theorem Current.act (h : Current s)
    (hinFlight : ∀ n ∈ activity.carries (s.shared.lookups w), n ∈ s.inFlight w) :
    Current (s.act w activity) := by
  have hqueue : s.queue w (s.ready w) = s := by
    rw [Pool.queue, Function.update_eq_self]
  refine hqueue ▸ h.worker fun n hn => ?_
  rcases List.mem_append.mp hn with hn | hn
  · exact hinFlight n hn
  · exact List.mem_append_right _ hn

/-- A handler is entered with a route that is in flight. -/
theorem Current.enter (h : Current s) (hroute : route ∈ s.inFlight w) : Current (s.enter route) := by
  refine ⟨h.counted, h.separate, h.inFlight, fun e he => ?_⟩
  rcases List.mem_append.mp he with he | he
  · exact h.entered e he
  · rw [List.mem_singleton.mp he]
    exact h.separate.not_finalized (h.inFlight w route hroute)

/-- A step of the table that keeps what is in flight. -/
theorem Current.table (h : Current s) {label : RouteStep} (hstep : s.table label = some s')
    (hinFlight : ∀ shared, SharedSteps s.shared label shared → ∀ w,
      ∀ n ∈ (s.activity w).carries (shared.lookups w) ++ s.ready w, shared.table.Holds n) :
    Current s' := by
  obtain ⟨shared, hshared, rfl⟩ := Option.map_eq_some_iff.mp hstep
  have hsteps := (Shared.step_cases hshared).2
  exact ⟨h.counted.step hsteps, h.separate.step (hsteps.books h.counted),
    hinFlight shared hsteps, h.entered⟩

/-- What a worker has at hand changes with its lookup only. -/
theorem Activity.mem_carries {l l' : Lookup} {n : Node} {P : Prop}
    (h : n ∈ l'.carries → n ∈ l.carries ∨ P) (hn : n ∈ activity.carries l') :
    n ∈ activity.carries l ∨ P := by
  cases activity with
  | idle => cases hn
  | routing => exact h hn
  | calling => cases hn
  | resumed route => exact .inl hn

/-- The lookup of an idle worker starts. -/
theorem Current.packet (h : Current s) {procId : UInt64} (hidle : s.activity w = .idle)
    (hstep : s.table (.beginLookup w procId) = some s') : Current (s'.act w .routing) := by
  have hcurrent : Current s' := by
    refine h.table hstep fun shared hshared w' n hn => ?_
    cases hshared with
    | begins hl hl' =>
      refine (h.inFlight w' n ?_).congr rfl
      by_cases hw : w' = w
      · subst hw
        rw [hidle] at hn
        exact List.mem_append_right _ hn
      · change n ∈ (s.activity w').carries ((s.shared.put w _).lookups w') ++ s.ready w' at hn
        rwa [Shared.put_of_ne _ _ hw] at hn
  refine hcurrent.act fun n hn => ?_
  obtain ⟨shared, hshared, rfl⟩ := Option.map_eq_some_iff.mp hstep
  cases (Shared.step_cases hshared).2 with
  | begins hl hl' =>
    change n ∈ ((s.shared.put w _).lookups w).carries at hn
    rw [Shared.put_self] at hn
    cases hn

theorem Current.lookup (h : Current s) (hstep : s.table (.lookup w) = some s') : Current s' := by
  refine h.table hstep fun shared hshared w' n hn => ?_
  cases hshared with
  | lookup hlookup =>
    refine Routes.Holds.congr hlookup.pages ?_
    rcases List.mem_append.mp hn with hn | hn
    · rcases Activity.mem_carries hlookup.carries hn with hn | ⟨i, j, hslot⟩
      · exact h.inFlight w' n (List.mem_append_left _ hn)
      · exact ⟨i, j, n, hslot, rfl, rfl⟩
    · exact h.inFlight w' n (List.mem_append_right _ hn)

/-- Behind the lookup the route is dropped, entered or queued. -/
theorem Current.dispatch (h : Current s) {accepted : Bool}
    (hstep : s.step (.dispatch w accepted) = some s') : Current s' := by
  simp only [Pool.step] at hstep
  split at hstep
  · cases hstep
    exact h.act (List.forall_mem_nil _)
  · rename_i procId seen route hrouting hreturned
    have hroute : route ∈ s.inFlight w := by
      rw [Pool.inFlight, hrouting, hreturned]
      exact List.mem_append_left _ (List.mem_singleton.mpr rfl)
    split_ifs at hstep
    · cases hstep
      exact h.act (List.forall_mem_nil _)
    · cases hstep
      exact (h.enter hroute).act (List.forall_mem_nil _)
    · cases hstep
      refine h.worker fun n hn => ?_
      change n ∈ s.ready w ++ [route] at hn
      rcases List.mem_append.mp hn with hn | hn
      · exact List.mem_append_right _ hn
      · rw [List.mem_singleton.mp hn]
        exact hroute
  · cases hstep

/-- The scheduler enters or resumes the next call. -/
theorem Current.resume (h : Current s) {ok : Bool} (hstep : s.step (.resume w ok) = some s') :
    Current s' := by
  simp only [Pool.step] at hstep
  split at hstep
  · rename_i route rest hidle hready
    have hqueued (n : Node) (hn : n ∈ route :: rest) : n ∈ s.inFlight w := by
      rw [Pool.inFlight, hready]
      exact List.mem_append_right _ hn
    split_ifs at hstep
    · cases hstep
      exact (h.enter (hqueued route List.mem_cons_self)).worker hqueued
    · cases hstep
      have hqueue : (s.queue w rest).act w .idle = s.queue w rest := by
        rw [Pool.act, Pool.queue]
        simp only [← hidle, Function.update_eq_self]
      refine hqueue ▸ h.worker fun n hn => hqueued n (List.mem_cons_of_mem _ ?_)
      exact hn
  · cases hstep

/-- **Every step that drops no route in flight keeps the routes in flight in the table.** -/
theorem Current.step {label : PoolStep} (h : Current s) (hnone : NoneInFlight s label)
    (hstep : s.step label = some s') : Current s' := by
  cases label with
  | packet w procId =>
    simp only [Pool.step] at hstep
    split at hstep
    · rename_i hidle
      obtain ⟨t, ht, rfl⟩ := Option.map_eq_some_iff.mp hstep
      exact h.packet hidle ht
    · cases hstep
  | lookup w =>
    simp only [Pool.step] at hstep
    split at hstep
    · exact h.lookup hstep
    · cases hstep
  | dispatch w accepted => exact h.dispatch hstep
  | resume w ok => exact h.resume hstep
  | suspend w =>
    simp only [Pool.step] at hstep
    split at hstep
    · rename_i route hresumed
      cases hstep
      refine h.worker fun n hn => ?_
      change n ∈ s.ready w ++ [route] at hn
      rw [Pool.inFlight, hresumed]
      exact List.mem_append.mpr (List.mem_append.mp hn).symm
    · cases hstep
  | finish w =>
    simp only [Pool.step] at hstep
    split at hstep
    · cases hstep
      exact h.act (List.forall_mem_nil _)
    · cases hstep
      exact h.act (List.forall_mem_nil _)
    · cases hstep
  | startMutation mem mutation =>
    refine h.table hstep fun shared hshared w n hn => ?_
    cases hshared with
    | adds howner => exact (h.inFlight w n hn).congr rfl
    | notAdded => exact h.inFlight w n hn
    | removes howner => exact h.inFlight w n hn
  | mutator =>
    refine h.table hstep fun shared hshared w n hn => ?_
    cases hshared with
    | mutator hmutator =>
      rw [hmutator.lookups] at hn
      exact (h.inFlight w n hn).mutator hmutator fun procId hdrops => hnone procId hdrops w n hn

theorem current_init : Current Pool.init :=
  ⟨counted_init, separate_init, fun _ => List.forall_mem_nil _, List.forall_mem_nil _⟩

end Current

/-- **No handler is entered or resumed with a route whose finalizer was called**, in every
interleaving of dispatch, the schedulers and the mutations in which no mutation drops a route that
is in flight. -/
theorem handlers_before_finalizers {labels : List PoolStep} {s : Pool}
    (hexec : Machine.exec Pool.step Pool.init labels = some s)
    (hmeets : Machine.Meets Pool.step NoneInFlight Pool.init labels) :
    ∀ e ∈ s.entered, e.route.added ∉ e.finalized.map Node.added :=
  (Machine.exec_invariant (fun _ _ _ h hnone hstep => Current.step h hnone hstep) current_init
    hmeets hexec).entered

/-! ## Witnesses -/

section Idle

variable {s : Pool} {labels : List PoolStep}

/-- The step is one of a mutation. -/
def PoolStep.isMutation : PoolStep → Bool
  | .startMutation _ _ => true
  | .mutator => true
  | _ => false

/-- While the workers have not started, mutations drop no route in flight. -/
theorem meets_of_idle (hidle : ∀ w, s.activity w = .idle ∧ s.ready w = [])
    (hlabels : ∀ l ∈ labels, l.isMutation = true) :
    Machine.Meets Pool.step NoneInFlight s labels := by
  induction labels generalizing s with
  | nil => trivial
  | cons l labels ih =>
    have hempty (w : ℕ) : s.inFlight w = [] := by
      rw [Pool.inFlight, (hidle w).1, (hidle w).2]
      rfl
    refine ⟨?_, fun t ht => ih (fun w => ?_) fun l hl => hlabels l (List.mem_cons_of_mem _ hl)⟩
    · cases l with
      | mutator =>
        intro procId _ w n hn
        rw [hempty] at hn
        cases hn
      | _ => trivial
    · have hmutation := hlabels l List.mem_cons_self
      cases l with
      | startMutation mem mutation =>
        obtain ⟨shared, -, rfl⟩ := Option.map_eq_some_iff.mp ht
        exact hidle w
      | mutator =>
        obtain ⟨shared, -, rfl⟩ := Option.map_eq_some_iff.mp ht
        exact hidle w
      | _ => cases hmutation

end Idle

/-- A route for the id 7 is added, and another one in its place. -/
def replaceSeven : List PoolStep :=
  [.startMutation .granting (.add (callRoute 7 1 10 (some 1) false)), .mutator, .mutator, .mutator,
    .startMutation .granting (.add (callRoute 7 2 20 (some 2) false)), .mutator, .mutator, .mutator,
    .mutator]

/-- A packet for the id 7 is handled up to the return of the lookup. -/
def routeSeven : List PoolStep := .packet 0 7 :: List.replicate 8 (.lookup 0)

/-- The handler of the second route is entered when the first one is finalized. -/
theorem handlers_before_finalizers_seven : ∃ s e,
    Machine.exec Pool.step Pool.init (replaceSeven ++ (routeSeven ++ [.dispatch 0 true])) =
      some s ∧ e ∈ s.entered ∧ e.route.added = 1 ∧ e.finalized.map Node.added = [0] ∧
        e.route.added ∉ e.finalized.map Node.added := by
  have hmeets : Machine.Meets Pool.step NoneInFlight Pool.init
      (replaceSeven ++ (routeSeven ++ [.dispatch 0 true])) := by
    refine Machine.Meets.append (meets_of_idle (fun _ => ⟨rfl, rfl⟩) ?_) fun t _ => ?_
    · simp [replaceSeven, PoolStep.isMutation]
    · refine Machine.Meets.of_forall fun s l hl => ?_
      simp only [routeSeven, List.cons_append, List.mem_cons, List.mem_append, List.mem_replicate,
        List.not_mem_nil, or_false] at hl
      rcases hl with rfl | ⟨-, rfl⟩ | rfl <;> trivial
  have hrun : (Machine.exec Pool.step Pool.init
      (replaceSeven ++ (routeSeven ++ [.dispatch 0 true]))).any (fun s =>
        decide (∃ e ∈ s.entered, e.route.added = 1 ∧ e.finalized.map Node.added = [0])) = true := by
    decide +kernel
  obtain ⟨s, hexec, hs⟩ := Machine.exists_of_any hrun
  obtain ⟨e, he, hadded, hfinalized⟩ := of_decide_eq_true hs
  exact ⟨s, e, hexec, he, hadded, hfinalized, handlers_before_finalizers hexec hmeets e he⟩

/-- A route for the id 7 is looked up for a packet, and removed before its handler is called. -/
def removeBeforeCall : List PoolStep :=
  [.startMutation .granting (.add (callRoute 7 1 10 (some 1) false)), .mutator, .mutator, .mutator] ++
    routeSeven ++ [.startMutation .granting (.remove 7), .mutator, .mutator, .mutator,
      .dispatch 0 true]

/-- **A handler may be entered with a finalized route**: the lookup copied it out, and no one counts
the copy. -/
theorem removed_route_entered : ∃ s e,
    Machine.exec Pool.step Pool.init removeBeforeCall = some s ∧ e ∈ s.entered ∧
      e.route.added ∈ e.finalized.map Node.added := by
  have hrun : (Machine.exec Pool.step Pool.init removeBeforeCall).any (fun s =>
      decide (∃ e ∈ s.entered, e.route.added ∈ e.finalized.map Node.added)) = true := by
    decide +kernel
  obtain ⟨s, hexec, hs⟩ := Machine.exists_of_any hrun
  obtain ⟨e, he, hfinalized⟩ := of_decide_eq_true hs
  exact ⟨s, e, hexec, he, hfinalized⟩

end Wirecall

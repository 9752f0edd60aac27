import Wirecall.Server.Sockets

/-!
# The workers of a server

All workers of a server run at the same time, each in a thread of its own. The first one has the
listeners: `accept_ready` accepts sockets in its thread and deals them out to all workers in turn,
whatever these are doing. Other threads complete deferred calls of any worker at any time.
`wirecall_server_destroy` goes through the workers in order; it joins the thread of a worker before
it destroys the worker, while the threads behind it may still run. As it starts with the worker that
accepts, no socket is dealt to a worker that is gone.

The actions of the workers are interleaved with all of this in every possible way.

## Main definitions

* `Fleet`, `FleetStep`, `Fleet.step`: the workers, and what the threads of the server do
* `acceptTurn`: a turn of `accept_ready`
* `Fleet.held`: the sockets that are open
* `Fleet.handed`: the sockets that are handed over to a worker

## Main results

* `Fleet.Accounted.step`: every step keeps the account of the sockets
* `sockets_accounted`: **no socket is lost, and none is closed twice**
* `Fleet.count_dealt`: with its memory a socket goes to the worker that it is dealt to
* `sockets_dealt_evenly`: **the sockets are dealt out evenly**
-/

namespace Wirecall

variable {n : ℕ}

/-! ## The server -/

/-- The workers of a server and their threads. -/
structure Fleet (n : ℕ) where
  mids : Fin (n + 1) → Mid
  /-- The listeners, which belong to the first worker. -/
  listeners : List Int
  nextWorker : UInt32
  /-- How many workers `wirecall_server_destroy` is done with. -/
  destroyed : ℕ
  /-- The sockets that were opened so far. -/
  opened : List Int
  /-- The sockets that were closed so far. -/
  closed : List Int
  /-- The workers that sockets were offered to so far. -/
  dealt : List (Fin (n + 1))

/-- A server that is about to run. -/
def Fleet.init (n : ℕ) (listeners : List ℕ) : Fleet n where
  mids := fun _ => workerInit.mid
  listeners := listeners.map Int.ofNat
  nextWorker := 0
  destroyed := 0
  opened := listeners.map Int.ofNat
  closed := []
  dealt := []

/-- A worker full of zeros, as `worker_destroy` leaves it. -/
def Worker.cleared : Worker :=
  { workerInit with
    connectionArena := .init 0
    deferredArena := .init 0
    callArena := .init 0 }

/-- `worker_enqueue_connection`, when there is memory for the node. -/
def Mid.enqueueConnection (m : Mid) (fd : Int) : Mid :=
  { m with worker := { m.worker with pendingFds := m.worker.pendingFds ++ [fd] } }

/-- `wirecall_deferred_complete` or `wirecall_deferred_fail`, whatever the worker is doing. -/
def Mid.completeDeferred (m : Mid) (d : ℕ) (completion : Completion) : Mid :=
  { m with worker := complete m.worker d completion }

/-- One worker changes. -/
def Fleet.setMid (f : Fleet n) (i : Fin (n + 1)) (m : Mid) : Fleet n :=
  { f with mids := Function.update f.mids i m }

/-- The worker that the next socket is dealt to. -/
def Fleet.target (f : Fleet n) : Fin (n + 1) := Fin.ofNat (n + 1) f.nextWorker.toNat

/-- A turn of `accept_ready` in which a socket is accepted: `nonblock` says whether it can be made
non-blocking, and `granted` whether there is memory to hand it over. -/
def acceptTurn (f : Fleet n) (fd : ℕ) (nonblock granted : Bool) : Fleet n :=
  let f := { f with opened := f.opened ++ [Int.ofNat fd] }
  if nonblock then
    let i := f.target
    let f := { f with nextWorker := f.nextWorker + 1, dealt := f.dealt ++ [i] }
    if granted then f.setMid i ((f.mids i).enqueueConnection fd)
    else { f with closed := f.closed ++ [Int.ofNat fd] }
  else { f with closed := f.closed ++ [Int.ofNat fd] }

/-- The action is taken by the thread of the worker itself. -/
def Action.own : Action → Bool
  | .accept _ => false
  | .complete _ _ => false
  | _ => true

/-- A step of some thread. -/
inductive FleetStep (n : ℕ) where
  /-- A worker acts. -/
  | act (i : Fin (n + 1)) (action : Action)
  /-- The first worker accepts a socket. -/
  | accept (fd : ℕ) (nonblock granted : Bool)
  /-- Some thread completes a deferred call of a worker. -/
  | complete (i : Fin (n + 1)) (d : ℕ) (completion : Completion)
  /-- `wirecall_server_destroy` has joined the thread of the next worker and destroys it. -/
  | destroy

section Step

variable (cfg : Fin (n + 1) → ServerConfig) (env : Fin (n + 1) → ℕ → Env)

/-- A worker takes an action of its own. -/
def Fleet.actOne (f : Fleet n) (i : Fin (n + 1)) (action : Action) : Option (Fleet n) :=
  ((f.mids i).act (cfg i) (env i) action).map fun m =>
    { f.setMid i m with closed := f.closed ++ (f.mids i).closes (cfg i) (env i) action }

/-- The end of a worker whose thread has left its loop. -/
def Fleet.destroyOne (f : Fleet n) (i : Fin (n + 1)) : Fleet n :=
  { f.setMid i Worker.cleared.mid with
    listeners := if i = 0 then [] else f.listeners
    destroyed := f.destroyed + 1
    closed := f.closed ++
      (workerDestroy (cfg i) (if i = 0 then f.listeners else []) (f.mids i).worker).1 }

/-- The steps of the threads of a server. -/
def Fleet.step (f : Fleet n) : FleetStep n → Option (Fleet n)
  | .act i action => if f.destroyed ≤ i ∧ action.own then f.actOne cfg env i action else none
  | .accept fd nonblock granted =>
    if f.destroyed = 0 then some (acceptTurn f fd nonblock granted) else none
  | .complete i d completion =>
    if f.destroyed ≤ i ∧ d ∈ (f.mids i).worker.undrained then
      some (f.setMid i ((f.mids i).completeDeferred d completion))
    else none
  | .destroy =>
    if h : f.destroyed < n + 1 then
      let m := f.mids ⟨f.destroyed, h⟩
      if m.writes = [] ∧ m.done = [] ∧ m.fds = [] then some (f.destroyOne cfg ⟨f.destroyed, h⟩)
      else none
    else none

end Step

/-- The sockets that are open: those of the workers and the listeners. -/
def Fleet.held (f : Fleet n) : Multiset Int := ∑ i, (f.mids i).sockets + f.listeners

/-- **The account of the sockets.** -/
structure Fleet.Accounted (f : Fleet n) : Prop where
  inv : ∀ i : Fin (n + 1), f.destroyed ≤ i → Inv (f.mids i)
  gone : ∀ i : Fin (n + 1), (i : ℕ) < f.destroyed → (f.mids i).sockets = 0
  listeners : 0 < f.destroyed → f.listeners = []
  balance : (f.opened : Multiset Int) = f.held + f.closed

section Accounted

variable {cfg : Fin (n + 1) → ServerConfig} {env : Fin (n + 1) → ℕ → Env} {f f' : Fleet n}
  {i : Fin (n + 1)}

/-- The sockets of one worker change. -/
theorem sum_sockets_update (mids : Fin (n + 1) → Mid) (i : Fin (n + 1)) (m : Mid) :
    ∑ j, (Function.update mids i m j).sockets + (mids i).sockets =
      ∑ j, (mids j).sockets + m.sockets := by
  have hupdate : (fun j => (Function.update mids i m j).sockets) =
      Function.update (fun j => (mids j).sockets) i m.sockets :=
    funext fun j => Function.apply_update (fun _ => Mid.sockets) mids i m j
  have hrest := Finset.add_sum_erase Finset.univ (fun j => (mids j).sockets) (Finset.mem_univ i)
  rw [hupdate, Finset.sum_update_of_mem (Finset.mem_univ i), ← hrest, Finset.sdiff_singleton_eq_erase]
  abel

theorem Worker.sockets_cleared : Worker.cleared.mid.sockets = 0 := rfl

theorem Mid.sockets_enqueueConnection (m : Mid) (fd : Int) :
    (m.enqueueConnection fd).sockets = m.sockets + {fd} := by
  simp only [Mid.sockets, Mid.enqueueConnection, Worker.attached, ← Multiset.coe_add,
    Multiset.coe_singleton, add_assoc]

theorem Inv.enqueueConnection {m : Mid} (h : Inv m) (fd : ℕ) : Inv (m.enqueueConnection fd) := by
  refine ⟨⟨h.conn.arena, h.conn.mem_connections, h.conn.nodup, h.conn.fd_nonneg, h.conn.inst_lt,
    h.conn.inst_inj, h.conn.gone, h.conn.lingering, h.conn.freed_ok, h.conn.freed_lt,
    h.conn.freed_gone, h.conn.freed_nodup⟩, ⟨h.write.nodup, h.write.mem_iff, h.write.attached⟩,
    h.defer.congr (fun _ => .refl _) rfl rfl rfl rfl rfl, h.call.congr le_rfl rfl rfl rfl, ?_⟩
  intro fd' hfd'
  rcases List.mem_append.mp hfd' with hpending | htaken
  · rcases List.mem_append.mp hpending with hold | hnew
    · exact h.fds fd' (List.mem_append_left _ hold)
    · rw [List.mem_singleton.mp hnew]
      exact Int.natCast_nonneg fd
  · exact h.fds fd' (List.mem_append_right _ htaken)

theorem Fleet.setMid_self (f : Fleet n) (i : Fin (n + 1)) (m : Mid) : (f.setMid i m).mids i = m :=
  Function.update_self _ _ _

theorem Fleet.setMid_of_ne (f : Fleet n) {i j : Fin (n + 1)} (m : Mid) (h : j ≠ i) :
    (f.setMid i m).mids j = f.mids j := Function.update_of_ne h _ _

/-- **One worker that is not gone changes**, and the sockets that it gives up are closed. -/
theorem Fleet.Accounted.setMid (h : f.Accounted) (hi : f.destroyed ≤ i) {m : Mid} (hm : Inv m)
    (opened closed : List Int) (hsockets : m.sockets + closed = (f.mids i).sockets + opened)
    (nextWorker : UInt32) (dealt : List (Fin (n + 1))) :
    Fleet.Accounted { f.setMid i m with
      nextWorker := nextWorker
      opened := f.opened ++ opened
      closed := f.closed ++ closed
      dealt := dealt } where
  inv j hj := by
    by_cases hji : j = i
    · subst hji
      exact (f.setMid_self j m).symm ▸ hm
    · exact (f.setMid_of_ne m hji).symm ▸ h.inv j hj
  gone j hj := by
    have hji : j ≠ i := by
      rintro rfl
      exact absurd hj (not_lt.mpr hi)
    exact (congrArg Mid.sockets (f.setMid_of_ne m hji)).trans (h.gone j hj)
  listeners := h.listeners
  balance := by
    have hsum := sum_sockets_update f.mids i m
    have hbalance := h.balance
    simp only [Fleet.held, Fleet.setMid] at hbalance ⊢
    rw [← Multiset.coe_add, ← Multiset.coe_add, hbalance]
    -- compare the two sides after the sockets that the worker had are added to each
    apply add_right_cancel (b := (f.mids i).sockets)
    calc ∑ j, (f.mids j).sockets + ↑f.listeners + ↑f.closed + ↑opened + (f.mids i).sockets
        = ∑ j, (f.mids j).sockets + ((f.mids i).sockets + ↑opened) + (↑f.listeners + ↑f.closed) := by
          abel
      _ = ∑ j, (f.mids j).sockets + m.sockets + (↑f.listeners + (↑f.closed + ↑closed)) := by
          rw [← hsockets]
          abel
      _ = _ := by
          rw [← hsum]
          abel

/-- A socket is accepted, dealt out or closed again. -/
theorem Fleet.Accounted.acceptTurn (h : f.Accounted) (hrunning : f.destroyed = 0) (fd : ℕ)
    (nonblock granted : Bool) : (acceptTurn f fd nonblock granted).Accounted := by
  have hall (i : Fin (n + 1)) : f.destroyed ≤ i := by
    rw [hrunning]
    exact Nat.zero_le i
  -- a socket that is closed at once is no change of any worker
  have hclosed (nextWorker : UInt32) (dealt : List (Fin (n + 1))) : Fleet.Accounted { f with
      nextWorker := nextWorker, opened := f.opened ++ [Int.ofNat fd],
      closed := f.closed ++ [Int.ofNat fd], dealt := dealt } := by
    have hsame := h.setMid (hall 0) (h.inv 0 (hall 0)) [Int.ofNat fd] [Int.ofNat fd] rfl nextWorker
      dealt
    rwa [Fleet.setMid, Function.update_eq_self] at hsame
  unfold Wirecall.acceptTurn
  simp only
  split_ifs
  · have hsockets :
        ((f.mids f.target).enqueueConnection fd).sockets + (([] : List Int) : Multiset Int) =
          (f.mids f.target).sockets + ([Int.ofNat fd] : List Int) := by
      rw [Mid.sockets_enqueueConnection]
      exact add_zero _
    have hgranted := h.setMid (hall f.target) ((h.inv _ (hall f.target)).enqueueConnection fd) _ _
      hsockets (f.nextWorker + 1) (f.dealt ++ [f.target])
    rwa [List.append_nil] at hgranted
  · exact hclosed _ _
  · exact hclosed _ _

/-- A worker between two functions. -/
theorem Mid.eq_mid {m : Mid} (h : m.writes = [] ∧ m.done = [] ∧ m.fds = []) : m = m.worker.mid := by
  obtain ⟨w, writes, done, fds⟩ := m
  obtain ⟨rfl, rfl, rfl⟩ := h
  rfl

/-- **The next worker is destroyed**, and closes its sockets. -/
theorem Fleet.Accounted.destroyOne (h : f.Accounted) (hlt : f.destroyed < n + 1)
    (hrest : (f.mids ⟨f.destroyed, hlt⟩).writes = [] ∧ (f.mids ⟨f.destroyed, hlt⟩).done = [] ∧
      (f.mids ⟨f.destroyed, hlt⟩).fds = []) : (f.destroyOne cfg ⟨f.destroyed, hlt⟩).Accounted := by
  have hmid := Mid.eq_mid hrest
  have hinv : Inv (f.mids ⟨f.destroyed, hlt⟩).worker.mid := hmid ▸ h.inv _ le_rfl
  generalize hi : (⟨f.destroyed, hlt⟩ : Fin (n + 1)) = i at hmid hinv ⊢
  have hval : (i : ℕ) = f.destroyed := by rw [← hi]
  refine ⟨fun j hj => ?_, fun j hj => ?_, fun _ => ?_, ?_⟩
  · have hji : j ≠ i := by
      rintro rfl
      change f.destroyed + 1 ≤ j at hj
      omega
    change Inv ((f.setMid i Worker.cleared.mid).mids j)
    rw [f.setMid_of_ne _ hji]
    exact h.inv j ((Nat.le_succ _).trans hj)
  · change ((f.setMid i Worker.cleared.mid).mids j).sockets = 0
    by_cases hji : j = i
    · rw [hji, f.setMid_self]
      rfl
    · rw [f.setMid_of_ne _ hji]
      refine h.gone j ?_
      have hne : (j : ℕ) ≠ i := fun heq => hji (Fin.ext heq)
      change (j : ℕ) < f.destroyed + 1 at hj
      omega
  · change (if i = 0 then [] else f.listeners) = []
    split_ifs with hzero
    · rfl
    · refine h.listeners (Nat.pos_of_ne_zero fun hd => hzero (Fin.ext ?_))
      rw [hval, hd]
      rfl
  · have hcloses := @workerDestroy_closes (cfg i) _ hinv (if i = 0 then f.listeners else [])
    have hsum := sum_sockets_update f.mids i Worker.cleared.mid
    have hlisteners : (f.listeners : Multiset Int) =
        ((if i = 0 then [] else f.listeners : List Int) : Multiset Int) +
          ((if i = 0 then f.listeners else [] : List Int) : Multiset Int) := by
      split_ifs
      · exact (zero_add _).symm
      · exact (add_zero _).symm
    have hbalance := h.balance
    simp only [Fleet.held, Fleet.destroyOne, Fleet.setMid] at hbalance ⊢
    rw [← Multiset.coe_add, hcloses, ← hmid, hbalance, hlisteners]
    rw [Worker.sockets_cleared, add_zero] at hsum
    rw [← hsum]
    abel

/-- **Every step keeps the account.** -/
theorem Fleet.Accounted.step {l : FleetStep n} (h : f.Accounted)
    (hstep : f.step cfg env l = some f') : f'.Accounted := by
  cases l with
  | act i action =>
    obtain ⟨⟨hi, hown⟩, hact⟩ := Option.ite_none_right_eq_some.mp hstep
    obtain ⟨m, hm, rfl⟩ := Option.map_eq_some_iff.mp hact
    have hacts := Mid.act_eq_some_iff.mp hm
    have hopens : action.opens = [] := by
      cases action <;> first | rfl | cases hown
    have hsockets := hacts.sockets (h.inv i hi)
    have hnext := h.setMid hi (hacts.inv (h.inv i hi)) _ _ hsockets f.nextWorker f.dealt
    rwa [hopens, List.append_nil] at hnext
  | accept fd nonblock granted =>
    obtain ⟨hrunning, heq⟩ := Option.ite_none_right_eq_some.mp hstep
    cases heq
    exact h.acceptTurn hrunning fd nonblock granted
  | complete i d completion =>
    obtain ⟨⟨hi, hd⟩, heq⟩ := Option.ite_none_right_eq_some.mp hstep
    cases heq
    have hkeeps := complete_keepsWatches (f.mids i).worker d completion
    have hnext := h.setMid hi ((h.inv i hi).complete hd completion) [] []
      (congrArg (· + 0) hkeeps.sockets) f.nextWorker f.dealt
    rwa [List.append_nil, List.append_nil] at hnext
  | destroy =>
    simp only [Fleet.step] at hstep
    split_ifs at hstep with hlt hrest
    cases hstep
    exact h.destroyOne hlt hrest

theorem Fleet.accounted_init (n : ℕ) (listeners : List ℕ) : (Fleet.init n listeners).Accounted where
  inv _ _ := inv_workerInit
  gone _ hi := absurd hi (Nat.not_lt_zero _)
  listeners hpos := absurd hpos (lt_irrefl 0)
  balance := by
    have hnone : ∑ i : Fin (n + 1), ((Fleet.init n listeners).mids i).sockets = 0 :=
      Finset.sum_eq_zero fun _ _ => rfl
    rw [Fleet.held, hnone, zero_add]
    exact (add_zero _).symm

end Accounted

/-! ## No socket is lost -/

section Sockets

variable {cfg : Fin (n + 1) → ServerConfig} {env : Fin (n + 1) → ℕ → Env} {f f' : Fleet n}
  {l : FleetStep n}

/-- The kernel gives an accepted socket a descriptor that is not in use. -/
def Fleet.Unused (f : Fleet n) : FleetStep n → Prop
  | .accept fd _ _ => Int.ofNat fd ∉ f.held
  | _ => True

instance (f : Fleet n) : DecidablePred f.Unused
  | .accept _ _ _ => inferInstanceAs (Decidable (_ ∉ _))
  | .act _ _ => inferInstanceAs (Decidable True)
  | .complete _ _ _ => inferInstanceAs (Decidable True)
  | .destroy => inferInstanceAs (Decidable True)

/-- The sockets that a step opens. -/
def FleetStep.opens : FleetStep n → List Int
  | .accept fd _ _ => [Int.ofNat fd]
  | _ => []

/-- What was opened and closed stays on record. -/
theorem Fleet.step_record (hstep : f.step cfg env l = some f') :
    f'.opened = f.opened ++ l.opens ∧ ∃ more, f'.closed = f.closed ++ more := by
  cases l with
  | act i action =>
    obtain ⟨-, hact⟩ := Option.ite_none_right_eq_some.mp hstep
    obtain ⟨m, -, rfl⟩ := Option.map_eq_some_iff.mp hact
    exact ⟨(List.append_nil _).symm, _, rfl⟩
  | accept fd nonblock granted =>
    obtain ⟨-, heq⟩ := Option.ite_none_right_eq_some.mp hstep
    cases heq
    unfold acceptTurn
    simp only
    split_ifs
    · exact ⟨rfl, [], (List.append_nil _).symm⟩
    · exact ⟨rfl, _, rfl⟩
    · exact ⟨rfl, _, rfl⟩
  | complete i d completion =>
    obtain ⟨-, heq⟩ := Option.ite_none_right_eq_some.mp hstep
    cases heq
    exact ⟨(List.append_nil _).symm, [], (List.append_nil _).symm⟩
  | destroy =>
    simp only [Fleet.step] at hstep
    split_ifs at hstep with hlt hrest
    cases hstep
    exact ⟨(List.append_nil _).symm, _, rfl⟩

/-- A step holds no more than was held and is opened. -/
theorem Fleet.Accounted.held_le (h : f.Accounted) (hstep : f.step cfg env l = some f') :
    f'.held ≤ f.held + l.opens := by
  obtain ⟨hopened, more, hclosed⟩ := Fleet.step_record hstep
  have hbalance' := (h.step hstep).balance
  rw [hopened, hclosed, ← Multiset.coe_add, ← Multiset.coe_add, h.balance] at hbalance'
  have hsum : f.held + (l.opens : Multiset Int) = f'.held + (more : Multiset Int) := by
    apply add_right_cancel (b := (f.closed : Multiset Int))
    calc f.held + ↑l.opens + ↑f.closed = f.held + ↑f.closed + ↑l.opens := add_right_comm _ _ _
      _ = f'.held + (↑f.closed + ↑more) := hbalance'
      _ = f'.held + ↑more + ↑f.closed := by abel
  rw [hsum]
  exact Multiset.le_add_right _ _

/-- **No socket is lost, and none is closed twice.** Whatever the threads of a server do, as long as
events are for connections and completions for calls that a worker has, and no descriptor in use is
handed out: each socket that was opened is open or was closed, no descriptor has two owners, and when
the server is destroyed each one was closed exactly once. -/
theorem sockets_accounted (cfg : Fin (n + 1) → ServerConfig) (env : Fin (n + 1) → ℕ → Env)
    {listeners : List ℕ} (hlisteners : listeners.Nodup) {steps : List (FleetStep n)} {f : Fleet n}
    (hunused : Machine.Meets (Fleet.step cfg env) Fleet.Unused (Fleet.init n listeners) steps)
    (hrun : Machine.exec (Fleet.step cfg env) (Fleet.init n listeners) steps = some f) :
    (f.opened : Multiset Int) = f.held + f.closed ∧ f.held.Nodup ∧
      (f.destroyed = n + 1 → f.opened.Perm f.closed) := by
  have hinit : (Fleet.init n listeners).held.Nodup := by
    have hheld : (Fleet.init n listeners).held = (listeners.map Int.ofNat : List Int) := by
      have hbalance := (Fleet.accounted_init n listeners).balance
      exact (hbalance.trans (add_zero _)).symm
    rw [hheld, Multiset.coe_nodup]
    exact hlisteners.map Int.ofNat_injective
  obtain ⟨haccounted, hnodup⟩ : f.Accounted ∧ f.held.Nodup := by
    refine Machine.exec_invariant (P := fun f : Fleet n => f.Accounted ∧ f.held.Nodup) ?_
      ⟨Fleet.accounted_init n listeners, hinit⟩ hunused hrun
    rintro f l f' ⟨haccounted, hnodup⟩ hunused hstep
    refine ⟨haccounted.step hstep, Multiset.nodup_of_le (haccounted.held_le hstep) ?_⟩
    -- only an accepted socket is new, and its descriptor was not in use
    cases l with
    | accept fd nonblock granted =>
      have hnew : f.held + (FleetStep.accept (n := n) fd nonblock granted).opens =
          Int.ofNat fd ::ₘ f.held := by
        rw [← Multiset.singleton_add, add_comm]
        rfl
      rw [hnew, Multiset.nodup_cons]
      exact ⟨hunused, hnodup⟩
    | _ => exact (add_zero f.held).symm ▸ hnodup
  refine ⟨haccounted.balance, hnodup, fun hall => ?_⟩
  have hgone (i : Fin (n + 1)) : (i : ℕ) < f.destroyed := by
    rw [hall]
    exact i.isLt
  have hnone : ∑ i, (f.mids i).sockets = 0 :=
    Finset.sum_eq_zero fun i _ => haccounted.gone i (hgone i)
  have hheld : f.held = 0 := by
    rw [Fleet.held, hnone, haccounted.listeners (hgone 0)]
    rfl
  have hbalance := haccounted.balance
  rw [hheld, zero_add] at hbalance
  exact Multiset.coe_eq_coe.mp hbalance

/-- Two workers get a socket each. One makes it a connection, the other is destroyed before. -/
theorem sockets_accounted_two_workers :
    let steps : List (FleetStep 1) := [.accept 5 true true, .accept 6 true true, .act 0 .takeFds,
      .act 0 .add, .accept 7 false true, .destroy, .destroy]
    ∃ f, Machine.exec (Fleet.step (fun _ => .plain) fun _ _ => .quiet) (Fleet.init 1 [3]) steps =
      some f ∧ f.closed = [7, 5, 3, 6] ∧ f.opened.Perm f.closed := by
  intro steps
  have heval : (Machine.exec (Fleet.step (fun _ => .plain) fun _ _ => .quiet) (Fleet.init 1 [3])
      steps).any (fun f => decide (f.closed = [7, 5, 3, 6] ∧ f.destroyed = 2)) = true := by
    decide +kernel
  obtain ⟨f, hrun, hend⟩ := Machine.exists_of_any heval
  obtain ⟨hclosed, hdestroyed⟩ := of_decide_eq_true hend
  have hunused : Machine.Meets (Fleet.step (fun _ => .plain) fun _ _ => .quiet) Fleet.Unused
      (Fleet.init 1 [3]) steps := by decide +kernel
  exact ⟨f, hrun, hclosed,
    (sockets_accounted _ _ (List.nodup_singleton 3) hunused hrun).2.2 hdestroyed⟩

end Sockets

/-! ## Dealing -/

section Dealing

variable {cfg : Fin (n + 1) → ServerConfig} {env : Fin (n + 1) → ℕ → Env} {f f' : Fleet n}
  {l : FleetStep n}

/-- The sockets were dealt out in turn, with a counter of 32 bits. -/
structure Fleet.InTurn (f : Fleet n) : Prop where
  next : f.nextWorker.toNat = f.dealt.length % 2 ^ 32
  dealt : f.dealt = (List.range f.dealt.length).map fun k => Fin.ofNat (n + 1) (k % 2 ^ 32)

/-- One more socket is dealt out. -/
theorem Fleet.InTurn.deal (h : f.InTurn) {mids : Fin (n + 1) → Mid} {opened closed : List Int} :
    Fleet.InTurn { f with
      mids := mids
      opened := opened
      closed := closed
      nextWorker := f.nextWorker + 1
      dealt := f.dealt ++ [f.target] } := by
  have hlen : (f.dealt ++ [f.target]).length = f.dealt.length + 1 := List.length_append
  refine ⟨?_, ?_⟩
  · change (f.nextWorker + 1).toNat = (f.dealt ++ [f.target]).length % 2 ^ 32
    rw [hlen, UInt32.toNat_add, h.next]
    exact Nat.mod_add_mod _ _ _
  · change f.dealt ++ [f.target] = (List.range (f.dealt ++ [f.target]).length).map _
    rw [hlen, List.range_succ, List.map_append, ← h.dealt, Fleet.target, h.next]
    rfl

theorem Fleet.InTurn.step (h : f.InTurn) (hstep : f.step cfg env l = some f') : f'.InTurn := by
  cases l with
  | act i action =>
    obtain ⟨-, hact⟩ := Option.ite_none_right_eq_some.mp hstep
    obtain ⟨m, -, rfl⟩ := Option.map_eq_some_iff.mp hact
    exact ⟨h.next, h.dealt⟩
  | accept fd nonblock granted =>
    obtain ⟨-, heq⟩ := Option.ite_none_right_eq_some.mp hstep
    cases heq
    unfold acceptTurn
    simp only
    split_ifs
    · exact h.deal
    · exact h.deal
    · exact ⟨h.next, h.dealt⟩
  | complete i d completion =>
    obtain ⟨-, heq⟩ := Option.ite_none_right_eq_some.mp hstep
    cases heq
    exact ⟨h.next, h.dealt⟩
  | destroy =>
    simp only [Fleet.step] at hstep
    split_ifs at hstep with hlt hrest
    cases hstep
    exact ⟨h.next, h.dealt⟩

/-- How often a worker is hit by a counter that does not wrap around. -/
theorem count_map_range (i : Fin (n + 1)) {k : ℕ} (hk : k ≤ 2 ^ 32 ∨ n + 1 ∣ 2 ^ 32) :
    ((List.range k).map fun k => Fin.ofNat (n + 1) (k % 2 ^ 32)).count i =
      k.count (· ≡ i [MOD n + 1]) := by
  induction k with
  | zero => simp
  | succ k ih =>
    have hhit : Fin.ofNat (n + 1) (k % 2 ^ 32) = i ↔ k ≡ i [MOD n + 1] := by
      have hval : k % 2 ^ 32 % (n + 1) = k % (n + 1) := by
        rcases hk with hle | hdvd
        · rw [Nat.mod_eq_of_lt (by omega : k < 2 ^ 32)]
        · exact Nat.mod_mod_of_dvd k hdvd
      rw [Fin.ext_iff, Fin.val_ofNat, hval, Nat.ModEq, Nat.mod_eq_of_lt i.isLt]
    rw [List.range_succ, List.map_append, List.count_append, ih (hk.imp_left (by omega)),
      Nat.count_succ]
    simp only [List.map_cons, List.map_nil, List.count_singleton, beq_iff_eq, hhit]

/-- What a socket that is accepted adds to the pending ones of a worker. -/
theorem acceptTurn_pendingFds (f : Fleet n) (fd : ℕ) (nonblock granted : Bool) (i : Fin (n + 1)) :
    ((acceptTurn f fd nonblock granted).mids i).worker.pendingFds =
      (f.mids i).worker.pendingFds ++
        if nonblock = true ∧ granted = true ∧ i = f.target then [Int.ofNat fd] else [] := by
  cases nonblock with
  | false => simp [acceptTurn]
  | true =>
    cases granted with
    | false => simp [acceptTurn]
    | true =>
      by_cases hi : i = f.target
      · subst hi
        simp [acceptTurn, Fleet.setMid, Mid.enqueueConnection, Fleet.target]
      · rw [if_neg fun h => hi h.2.2, List.append_nil]
        have hmids : (acceptTurn f fd true true).mids i = f.mids i := Fleet.setMid_of_ne _ _ hi
        rw [hmids]

/-- What a step of the server appends to the pending sockets of a worker. -/
def FleetStep.hands (f f' : Fleet n) (i : Fin (n + 1)) : FleetStep n → List Int
  | .accept _ _ _ => (f'.mids i).worker.pendingFds.drop (f.mids i).worker.pendingFds.length
  | _ => []

variable (cfg env) in
/-- **The sockets that are handed over to a worker** in a run. -/
def Fleet.handed (i : Fin (n + 1)) : Fleet n → List (FleetStep n) → List Int
  | _, [] => []
  | f, l :: steps =>
    (f.step cfg env l).elim [] fun f' => l.hands f f' i ++ f'.handed i steps

/-- There is memory to hand a socket over. -/
def FleetStep.granted : FleetStep n → Bool
  | .accept _ _ granted => granted
  | _ => true

/-- With its memory a socket goes to the worker that it is dealt to. -/
theorem Fleet.count_dealt_step (hgranted : l.granted = true) (hstep : f.step cfg env l = some f')
    (i : Fin (n + 1)) : f'.dealt.count i = f.dealt.count i + (l.hands f f' i).length := by
  cases l with
  | act k action =>
    obtain ⟨-, hact⟩ := Option.ite_none_right_eq_some.mp hstep
    obtain ⟨m, -, rfl⟩ := Option.map_eq_some_iff.mp hact
    rfl
  | accept fd nonblock granted =>
    obtain ⟨-, heq⟩ := Option.ite_none_right_eq_some.mp hstep
    cases heq
    obtain rfl : granted = true := hgranted
    rw [FleetStep.hands, acceptTurn_pendingFds, List.drop_left]
    cases nonblock with
    | false => simp [acceptTurn]
    | true =>
      have hdealt : (acceptTurn f fd true true).dealt = f.dealt ++ [f.target] := rfl
      rw [hdealt, List.count_append, List.count_singleton]
      by_cases hi : i = f.target
      · simp [hi]
      · simp [hi, Ne.symm hi]
  | complete k d completion =>
    obtain ⟨-, heq⟩ := Option.ite_none_right_eq_some.mp hstep
    cases heq
    rfl
  | destroy =>
    simp only [Fleet.step] at hstep
    split_ifs at hstep with hlt hrest
    cases hstep
    rfl

theorem Fleet.count_dealt {steps : List (FleetStep n)}
    (hgranted : ∀ l ∈ steps, l.granted = true)
    (hrun : Machine.exec (Fleet.step cfg env) f steps = some f') (i : Fin (n + 1)) :
    f'.dealt.count i = f.dealt.count i + (f.handed cfg env i steps).length := by
  induction steps generalizing f with
  | nil =>
    cases hrun
    rfl
  | cons l steps ih =>
    obtain ⟨f₁, hstep, hrest⟩ := Machine.exec_cons_eq_some.mp hrun
    obtain ⟨hfirst, hlater⟩ := List.forall_mem_cons.mp hgranted
    have hhanded : f.handed cfg env i (l :: steps) =
        l.hands f f₁ i ++ f₁.handed cfg env i steps := by
      rw [Fleet.handed, hstep]
      rfl
    rw [ih hlater hrest, Fleet.count_dealt_step hfirst hstep, hhanded, List.length_append, add_assoc]

/-- **The sockets are dealt out evenly**: as long as the counter does not wrap around, or if the
number of workers is a power of two, no worker is offered two sockets more than another. If there is
memory for each of them, no worker is handed two sockets more than another. -/
theorem sockets_dealt_evenly (cfg : Fin (n + 1) → ServerConfig) (env : Fin (n + 1) → ℕ → Env)
    (listeners : List ℕ) {steps : List (FleetStep n)} {f : Fleet n}
    (hrun : Machine.exec (Fleet.step cfg env) (Fleet.init n listeners) steps = some f)
    (hcount : f.dealt.length ≤ 2 ^ 32 ∨ n + 1 ∣ 2 ^ 32) (i j : Fin (n + 1)) :
    f.dealt.count i ≤ f.dealt.count j + 1 ∧
      ((∀ l ∈ steps, l.granted = true) →
        ((Fleet.init n listeners).handed cfg env i steps).length ≤
          ((Fleet.init n listeners).handed cfg env j steps).length + 1) := by
  have hturn : f.InTurn :=
    Machine.exec_invariant (fun _ _ _ h _ hstep => h.step hstep) ⟨rfl, rfl⟩
      (.of_forall fun _ _ _ => trivial) hrun
  have heven : f.dealt.count i ≤ f.dealt.count j + 1 := by
    have hi := count_map_range i hcount
    have hj := count_map_range j hcount
    rw [← hturn.dealt, Nat.count_modEq_card _ (Nat.succ_pos n)] at hi hj
    rw [hi, hj]
    split_ifs <;> omega
  refine ⟨heven, fun hgranted => ?_⟩
  -- every socket that was dealt was handed over
  have hnone (k : Fin (n + 1)) : (Fleet.init n listeners).dealt.count k = 0 := rfl
  have hi := Fleet.count_dealt hgranted hrun i
  have hj := Fleet.count_dealt hgranted hrun j
  rw [hnone, zero_add] at hi hj
  rwa [← hi, ← hj]

/-- Three sockets for two workers. -/
theorem sockets_dealt_evenly_three :
    let steps : List (FleetStep 1) := [.accept 5 true true, .accept 6 true true, .accept 7 true true]
    ∃ f, Machine.exec (Fleet.step (fun _ => .plain) fun _ _ => .quiet) (Fleet.init 1 [3]) steps =
      some f ∧ f.dealt = [0, 1, 0] ∧
      ((Fleet.init 1 [3]).handed (fun _ => .plain) (fun _ _ => .quiet) 0 steps).length ≤
        ((Fleet.init 1 [3]).handed (fun _ => .plain) (fun _ _ => .quiet) 1 steps).length + 1 := by
  intro steps
  have heval : (Machine.exec (Fleet.step (fun _ => .plain) fun _ _ => .quiet) (Fleet.init 1 [3])
      steps).any (fun f => decide (f.dealt = [0, 1, 0])) = true := by
    decide +kernel
  obtain ⟨f, hrun, hend⟩ := Machine.exists_of_any heval
  have hdealt := of_decide_eq_true hend
  have hshort : f.dealt.length ≤ 2 ^ 32 := by
    rw [hdealt]
    decide
  have hgranted : ∀ l ∈ steps, l.granted = true := by decide
  exact ⟨f, hrun, hdealt, (sockets_dealt_evenly _ _ [3] hrun (.inl hshort) 0 1).2 hgranted⟩

end Dealing

end Wirecall

import Wirecall.Machine.Run
import Wirecall.Server.Runs

/-!
# The actions of the worker loop as a machine

A step of the loop is a whole event, or all that follows the scheduler. What happens between two
packets of one read is not a step, and the memory that a packet finds there shows at no step. Here
the actions themselves are the steps, and a step of the loop is a run of actions.

## Main definitions

* `Action`, `Mid.act`: the actions, and what they do to a worker in the middle of a function
* `Reaches`: some run of actions leads there

## Main results

* `Loop.step_reaches`: a step of the loop is a run of actions
* `Loop.exec_reaches`: so is every run of the loop whose events are for allocated slots
-/

namespace Wirecall

/-- An action of a worker. -/
inductive Action where
  /-- Input is stored, or the connection is marked for closing. -/
  | input (c : ℕ) (readBuf : List UInt8) (readCap : ℕ) (received : List UInt8) (closing : Bool)
      (ticks : ℕ) (failed : Bool)
  /-- `handle_packet`. -/
  | packet (c : ℕ) (header : Header) (payload : List UInt8)
  /-- `connection_write`. -/
  | write (c : ℕ) (script : List SendResult)
  /-- `connection_destroy`, by `maybe_close`. -/
  | close (c : ℕ)
  | takeFds
  /-- `worker_add_connection`. -/
  | add
  | takeDone
  /-- A turn of `worker_drain_completed`. -/
  | drain
  | accept (fds : List ℕ)
  /-- A thread completes a deferred call. -/
  | complete (d : ℕ) (completion : Completion)
  /-- A turn of `wirecall_scheduler_run_ready`. -/
  | resume (resume : Resume)
  | takeWrites
  /-- The first half of a turn of `worker_flush_writes`. -/
  | flush (script : List SendResult)

/-- What an action does. The rests of the lists are worked off before another function begins. -/
def Mid.act (cfg : ServerConfig) (env : ℕ → Env) (m : Mid) : Action → Option Mid
  | .input c readBuf readCap received closing ticks failed =>
    if c ∈ m.worker.connections then
      some { m with worker := m.worker.touchRead c readBuf readCap received closing ticks failed }
    else none
  | .packet c header payload =>
    if c ∈ m.worker.connections ∧ validOp header.op = true then
      some { m with worker := (handlePacket cfg env m.worker c header payload).2 }
    else none
  | .write c script =>
    if c ∈ m.worker.connections then
      some { m with worker := connectionWrite env m.worker c script }
    else none
  | .close c =>
    if c ∈ m.worker.connections ∧ c ∉ m.writes ∧ (m.worker.conns c).closing = true ∧
        ¬ (m.worker.conns c).Unsent ∧ m.fds = [] then
      some { m with worker := connectionDestroy cfg m.worker c }
    else none
  | .takeFds =>
    match m with
    | ⟨w, [], [], []⟩ => some ⟨{ w with pendingFds := [] }, [], [], w.pendingFds⟩
    | _ => none
  | .add =>
    match m with
    | ⟨w, [], [], fd :: fds⟩ => some ⟨workerAddConnection cfg env w fd, [], [], fds⟩
    | _ => none
  | .takeDone =>
    match m with
    | ⟨w, [], [], []⟩ => some ⟨{ w with completed := [] }, [], w.completed, []⟩
    | _ => none
  | .drain =>
    match m with
    | ⟨w, [], d :: done, []⟩ => some ⟨drainOne cfg env w d, [], done, []⟩
    | _ => none
  | .accept fds =>
    match m with
    | ⟨w, [], [], []⟩ =>
      some (Worker.mid { w with pendingFds := w.pendingFds ++ fds.map Int.ofNat })
    | _ => none
  | .complete d completion =>
    match m with
    | ⟨w, [], [], []⟩ => if d ∈ w.undrained then some (complete w d completion).mid else none
    | _ => none
  | .resume resume =>
    match m with
    | ⟨w, [], [], []⟩ => (resumeCall cfg env w resume).map Worker.mid
    | _ => none
  | .takeWrites =>
    match m with
    | ⟨w, [], [], []⟩ => some ⟨{ w with pendingWrites := [] }, w.pendingWrites, [], []⟩
    | _ => none
  | .flush script =>
    match m with
    | ⟨w, c :: writes, [], []⟩ => some ⟨flushWrite env script w c, writes, [], []⟩
    | _ => none

/-- The actions one by one, each with what holds where it is taken. -/
inductive Mid.Acts (cfg : ServerConfig) (env : ℕ → Env) : Mid → Action → Mid → Prop
  | input {m : Mid} {c : ℕ} (readBuf : List UInt8) (readCap : ℕ) (received : List UInt8)
      (closing : Bool) (ticks : ℕ) (failed : Bool) (hc : c ∈ m.worker.connections) :
      Acts cfg env m (.input c readBuf readCap received closing ticks failed)
        { m with worker := m.worker.touchRead c readBuf readCap received closing ticks failed }
  | packet {m : Mid} {c : ℕ} {header : Header} (payload : List UInt8)
      (hc : c ∈ m.worker.connections) (hvalid : validOp header.op = true) :
      Acts cfg env m (.packet c header payload)
        { m with worker := (handlePacket cfg env m.worker c header payload).2 }
  | write {m : Mid} {c : ℕ} (script : List SendResult) (hc : c ∈ m.worker.connections) :
      Acts cfg env m (.write c script) { m with worker := connectionWrite env m.worker c script }
  | close {m : Mid} {c : ℕ} (hc : c ∈ m.worker.connections) (hwrites : c ∉ m.writes)
      (hclosing : (m.worker.conns c).closing = true) (hsent : ¬ (m.worker.conns c).Unsent)
      (hfds : m.fds = []) :
      Acts cfg env m (.close c) { m with worker := connectionDestroy cfg m.worker c }
  | takeFds (w : Worker) :
      Acts cfg env w.mid .takeFds ⟨{ w with pendingFds := [] }, [], [], w.pendingFds⟩
  | add (w : Worker) (fd : Int) (fds : List Int) :
      Acts cfg env ⟨w, [], [], fd :: fds⟩ .add ⟨workerAddConnection cfg env w fd, [], [], fds⟩
  | takeDone (w : Worker) :
      Acts cfg env w.mid .takeDone ⟨{ w with completed := [] }, [], w.completed, []⟩
  | drain (w : Worker) (d : ℕ) (done : List ℕ) :
      Acts cfg env ⟨w, [], d :: done, []⟩ .drain ⟨drainOne cfg env w d, [], done, []⟩
  | accept (w : Worker) (fds : List ℕ) :
      Acts cfg env w.mid (.accept fds)
        (Worker.mid { w with pendingFds := w.pendingFds ++ fds.map Int.ofNat })
  | complete {w : Worker} {d : ℕ} (completion : Completion) (hd : d ∈ w.undrained) :
      Acts cfg env w.mid (.complete d completion) (complete w d completion).mid
  | resume {w w' : Worker} {resume : Resume} (hresume : resumeCall cfg env w resume = some w') :
      Acts cfg env w.mid (.resume resume) w'.mid
  | takeWrites (w : Worker) :
      Acts cfg env w.mid .takeWrites ⟨{ w with pendingWrites := [] }, w.pendingWrites, [], []⟩
  | flush (w : Worker) (c : ℕ) (writes : List ℕ) (script : List SendResult) :
      Acts cfg env ⟨w, c :: writes, [], []⟩ (.flush script)
        ⟨flushWrite env script w c, writes, [], []⟩

/-- Some run of actions leads from `m` to `m'`. -/
def Reaches (cfg : ServerConfig) (env : ℕ → Env) (m m' : Mid) : Prop :=
  ∃ actions, Machine.exec (Mid.act cfg env) m actions = some m'

section Acts

variable {cfg : ServerConfig} {env : ℕ → Env} {m m' m'' : Mid} {action : Action}

theorem Mid.act_eq_some_iff : m.act cfg env action = some m' ↔ Mid.Acts cfg env m action m' := by
  constructor
  · intro hact
    cases action with
    | input c readBuf readCap received closing ticks failed =>
      obtain ⟨hc, heq⟩ := Option.ite_none_right_eq_some.mp hact
      cases heq
      exact .input _ _ _ _ _ _ hc
    | packet c header payload =>
      obtain ⟨hc, heq⟩ := Option.ite_none_right_eq_some.mp hact
      cases heq
      exact .packet payload hc.1 hc.2
    | write c script =>
      obtain ⟨hc, heq⟩ := Option.ite_none_right_eq_some.mp hact
      cases heq
      exact .write script hc
    | close c =>
      obtain ⟨⟨hc, hwrites, hclosing, hsent, hfds⟩, heq⟩ := Option.ite_none_right_eq_some.mp hact
      cases heq
      exact .close hc hwrites hclosing hsent hfds
    | complete d completion =>
      simp only [Mid.act] at hact
      split at hact
      · obtain ⟨hd, heq⟩ := Option.ite_none_right_eq_some.mp hact
        cases heq
        exact .complete completion hd
      · cases hact
    | resume resume =>
      simp only [Mid.act] at hact
      split at hact
      · obtain ⟨w', hresume, rfl⟩ := Option.map_eq_some_iff.mp hact
        exact .resume hresume
      · cases hact
    | _ =>
      -- the others ask for the rests of the lists only
      simp only [Mid.act] at hact
      split at hact
      · cases hact
        constructor
      · cases hact
  · intro hacts
    cases hacts with
    | input readBuf readCap received closing ticks failed hc => exact if_pos hc
    | packet payload hc hvalid => exact if_pos ⟨hc, hvalid⟩
    | write script hc => exact if_pos hc
    | close hc hwrites hclosing hsent hfds => exact if_pos ⟨hc, hwrites, hclosing, hsent, hfds⟩
    | complete completion hd => exact if_pos hd
    | resume hresume => exact congrArg (Option.map Worker.mid) hresume
    | _ => rfl

theorem Reaches.refl (m : Mid) : Reaches cfg env m m := ⟨[], rfl⟩

theorem Reaches.trans (h : Reaches cfg env m m') (h' : Reaches cfg env m' m'') :
    Reaches cfg env m m'' := by
  obtain ⟨actions, hexec⟩ := h
  obtain ⟨actions', hexec'⟩ := h'
  refine ⟨actions ++ actions', ?_⟩
  rw [Machine.exec_append, hexec]
  exact hexec'

/-- One more action. -/
theorem Reaches.acts (h : Reaches cfg env m m') (hacts : Mid.Acts cfg env m' action m'') :
    Reaches cfg env m m'' :=
  h.trans ⟨[action], Machine.exec_cons_eq_some.mpr ⟨m'', Mid.act_eq_some_iff.mpr hacts, rfl⟩⟩

/-- **Every action keeps the invariant.** -/
theorem Mid.Acts.inv (hacts : Mid.Acts cfg env m action m') (h : Inv m) : Inv m' := by
  have hinv := inv_loopRule cfg env (fun _ => True) fun _ => True
  cases hacts with
  | input readBuf readCap received closing ticks failed hc =>
    exact hinv.touch _ _ _ _ _ _ h trivial hc
  | packet payload hc hvalid =>
    exact h.handle hc (handlePacket_handles cfg env (h.isOpen hc) _ payload)
  | write script hc => exact hinv.write script h trivial hc
  | close hc hwrites hclosing hsent hfds => exact h.destroy hc hwrites
  | takeFds w => exact hinv.takeFds h trivial
  | add w fd fds => exact h.add
  | takeDone w => exact hinv.takeDone h
  | drain w d done => exact h.drainOne
  | accept w fds => exact hinv.accept fds h
  | complete completion hd => exact hinv.complete completion h hd
  | resume hresume => exact h.resume hresume
  | takeWrites w => exact hinv.takeWrites h
  | flush w c writes script => exact hinv.flush script h

theorem Reaches.inv (h : Reaches cfg env m m') (hinv : Inv m) : Inv m' := by
  obtain ⟨actions, hexec⟩ := h
  exact Machine.exec_invariant (fun _ _ _ hm _ hact => (Mid.act_eq_some_iff.mp hact).inv hm) hinv
    (.of_forall fun _ _ _ => trivial) hexec

end Acts

/-! ## The loop as a run of actions -/

section Loop

variable {cfg : ServerConfig} {env : ℕ → Env} {m₀ : Mid} {w : Worker} {c : ℕ}

/-- **The actions that are taken in no connection event** lead on. -/
theorem reaches_loopRule (cfg : ServerConfig) (env : ℕ → Env) (m₀ : Mid) :
    LoopRule cfg env (fun _ => False) (fun _ => True) (fun _ => True)
      fun m => Inv m ∧ Reaches cfg env m₀ m := by
  have hinv := inv_loopRule cfg env (fun _ => False) fun _ => True
  -- an action keeps the invariant and goes on with the run
  have hnext {m m' : Mid} {action : Action} (h : Inv m ∧ Reaches cfg env m₀ m)
      (hacts : Mid.Acts cfg env m action m') : Inv m' ∧ Reaches cfg env m₀ m' :=
    ⟨hacts.inv h.1, h.2.acts hacts⟩
  exact
    { isOpen := fun h hc => hinv.isOpen h.1 hc
      touch := fun _ _ _ _ _ _ _ hT _ => hT.elim
      handle := fun _ hT _ _ _ => hT.elim
      write := fun _ _ hT _ => hT.elim
      close := fun h _ hc hwrites hclosing hsent hfds =>
        hnext h (.close hc hwrites hclosing hsent hfds)
      takeFds := fun h _ => hnext h (.takeFds _)
      add := fun h => hnext h (.add _ _ _)
      takeDone := fun h => hnext h (.takeDone _)
      drain := fun h => hnext h (.drain _ _ _)
      accept := fun fds h => hnext h (.accept _ fds)
      closes := fun _ => trivial
      complete := fun completion h hd => hnext h (.complete completion hd)
      resume := fun h hresume => hnext h (.resume hresume)
      takeWrites := fun h => hnext h (.takeWrites _)
      queued := fun h => hinv.queued h.1
      flush := fun script h => hnext h (.flush _ _ _ script) }

/-- **An event of a connection** is a run of actions: input and packets in turn, a write, and the end
of the connection if it is to be closed. -/
theorem handleEvent_reaches (hinv : Inv w.mid) (hc : c ∈ w.connections) (recv : List RecvResult)
    (send : List SendResult) (ready : Interest) :
    Reaches cfg env w.mid (handleEvent cfg env w recv send (.conn c ready)).mid := by
  have hrule := reaches_loopRule cfg env w.mid
  have hstart : (Inv w.mid ∧ Reaches cfg env w.mid w.mid) ∧ c ∈ w.connections :=
    ⟨⟨hinv, .refl _⟩, hc⟩
  have hread : (Inv (connectionRead cfg env c recv w).mid ∧
      Reaches cfg env w.mid (connectionRead cfg env c recv w).mid) ∧
      c ∈ (connectionRead cfg env c recv w).connections := by
    refine connectionRead_invariant
      (P := fun w' => (Inv w'.mid ∧ Reaches cfg env w.mid w'.mid) ∧ c ∈ w'.connections)
      ?_ ?_ hstart recv
    · rintro w' readBuf readCap received closing ticks failed ⟨⟨hinv', hreach⟩, hc'⟩
      have hacts : Mid.Acts cfg env w'.mid (.input c readBuf readCap received closing ticks failed)
          (w'.touchRead c readBuf readCap received closing ticks failed).mid :=
        .input _ _ _ _ _ _ hc'
      exact ⟨⟨hacts.inv hinv', hreach.acts hacts⟩, hc'⟩
    · rintro w' header payload ⟨⟨hinv', hreach⟩, hc'⟩ hvalid
      have hacts : Mid.Acts cfg env w'.mid (.packet c header payload)
          (handlePacket cfg env w' c header payload).2.mid := .packet payload hc' hvalid
      have hopen : (w'.conns c).Open := hinv'.isOpen hc'
      have hhandles := handlePacket_handles cfg env hopen header payload
      refine ⟨⟨hacts.inv hinv', hreach.acts hacts⟩, ?_⟩
      generalize handlePacket cfg env w' c header payload = result at hhandles ⊢
      obtain ⟨rc, w''⟩ := result
      rw [hhandles.connections]
      exact hc'
  rw [handleEvent]
  -- a connection that is to be closed is not read, and one that was closed by its peer not written
  generalize hw₁ : (if ready.read = true ∧ (w.conns c).closing = false then
    connectionRead cfg env c recv w else w) = w₁
  have hread₁ : (Inv w₁.mid ∧ Reaches cfg env w.mid w₁.mid) ∧ c ∈ w₁.connections := by
    rw [← hw₁]
    split_ifs
    · exact hread
    · exact hstart
  obtain ⟨⟨hinv₁, hreach₁⟩, hc₁⟩ := hread₁
  split_ifs
  · have hacts : Mid.Acts cfg env w₁.mid (.write c send) (connectionWrite env w₁ c send).mid :=
      .write send hc₁
    exact (hrule.maybeClose (m := (connectionWrite env w₁ c send).mid)
      ⟨hacts.inv hinv₁, hreach₁.acts hacts⟩ trivial hc₁ List.not_mem_nil rfl).2
  · exact (hrule.maybeClose (m := w₁.mid) ⟨hinv₁, hreach₁⟩ trivial hc₁ List.not_mem_nil rfl).2

/-- **A step of the loop is a run of actions**, if its event is for an allocated slot. -/
theorem Loop.step_reaches {s s' : Loop} {l : Label} (hinv : Inv s.worker.mid)
    (hmark : s.worker.Marked) (hallocated : Allocated s l) (hstep : s.step cfg env l = some s') :
    Reaches cfg env s.worker.mid s'.worker.mid := by
  have hrule := reaches_loopRule cfg env s.worker.mid
  have hnext (hadmits : StepAdmits (fun _ => False) (fun _ => True) (fun _ => True) s l) :
      Reaches cfg env s.worker.mid s'.worker.mid :=
    (hrule.step ⟨hinv, .refl _⟩ hadmits hstep).2
  cases l with
  | event recv send =>
    by_cases hconn : ∃ c ready batch, s.phase = .events (.conn c ready :: batch)
    · obtain ⟨c, ready, batch, hphase⟩ := hconn
      have hlive : s.worker.connectionArena.Live c := hallocated c (by rw [hphase]; rfl)
      simp only [Loop.step, hphase] at hstep
      cases hstep
      by_cases hc : c ∈ s.worker.connections
      · exact handleEvent_reaches hinv hc recv send ready
      · rw [hmark.handleEvent hinv hlive hc]
        exact .refl _
    · refine hnext fun event batch hphase => ?_
      cases event with
      | wake => trivial
      | listener fds => trivial
      | conn c ready => exact absurd ⟨c, ready, batch, hphase⟩ hconn
  | _ => exact hnext trivial

/-- **Every run of the loop is a run of actions**, if its events are for allocated slots. -/
theorem Loop.exec_reaches {labels : List Label} {s : Loop}
    (hevents : Machine.Meets (Loop.step cfg env) Allocated Loop.init labels)
    (hrun : Machine.exec (Loop.step cfg env) Loop.init labels = some s) :
    Reaches cfg env workerInit.mid s.worker.mid := by
  have hmarked := marked_loopRule cfg env (fun _ => True) fun _ => True
  refine (Machine.exec_invariant (P := fun s => Reaches cfg env workerInit.mid s.worker.mid ∧
    Inv s.worker.mid ∧ s.worker.Marked) ?_ ⟨.refl _, inv_workerInit, ?_⟩ hevents hrun).1
  · rintro s l s' ⟨hreach, hinv, hmark⟩ hallocated hstep
    refine ⟨hreach.trans (Loop.step_reaches hinv hmark hallocated hstep), ?_⟩
    exact (hmarked.stepFrom (fun _ _ _ => trivial) ⟨hinv, hmark⟩ hinv hmark hallocated
      (.of_forall (fun _ => trivial) s l) hstep).2
  · exact fun _ hlive => absurd hlive (Arena.not_live_init _ _)

end Loop

end Wirecall

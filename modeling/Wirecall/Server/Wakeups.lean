import Wirecall.Backend.Wakes
import Wirecall.Server.Sockets

/-!
# No wake-up is lost

A worker sleeps in `wirecall_backend_poll`. Other threads hand it sockets, complete its deferred
calls or stop the server: they first change a list or a flag that the worker looks at, and then call
`wirecall_backend_wake`. The worker looks at the flag before it sleeps, at the completed calls
before it sleeps and when it is woken, and at the sockets only when it is woken. In between,
anything may happen in any order.

The backend is a doorbell. Each of the three has its own.

## Main definitions

* `Sleeper`, `SleeperStep`, `Sleeper.step`: the loop of a worker with the threads that wake it

## Main results

* `Sleeper.Attended.step`: what was left for the worker is seen to, or it is called
* `sleeping_worker_idle`: **a worker that sleeps has nothing to do**
-/

namespace Wirecall

/-! ## What the loop does to the two lists -/

section Lists

variable {cfg : ServerConfig} {env : ℕ → Env} {w w' : Worker} {c d : ℕ}

/-- The sockets that wait and the completed calls are the same. -/
def Worker.SameMail (w w' : Worker) : Prop :=
  w'.pendingFds = w.pendingFds ∧ w'.completed = w.completed

theorem Worker.SameMail.trans {w'' : Worker} (h : w.SameMail w') (h' : w'.SameMail w'') :
    w.SameMail w'' := ⟨h'.1.trans h.1, h'.2.trans h.2⟩

theorem Attempts.sameMail {request : Request} {op : Op} {procId callId : UInt64}
    (h : Attempts cfg w c request op procId callId w') : w.SameMail w' := by
  obtain ⟨conns, writes, entries, failed, -, rfl⟩ := h.eq
  exact ⟨rfl, rfl⟩

theorem connectionDestroy_sameMail (cfg : ServerConfig) (w : Worker) (c : ℕ) :
    w.SameMail (connectionDestroy cfg w c) := by
  obtain ⟨conns, arena, connections, writes, entries, -, heq⟩ := connectionDestroy_eq cfg w c
  rw [heq]
  exact ⟨rfl, rfl⟩

theorem maybeClose_sameMail (cfg : ServerConfig) (w : Worker) (c : ℕ) :
    w.SameMail (maybeClose cfg w c) := by
  unfold maybeClose
  simp only
  split_ifs
  · exact connectionDestroy_sameMail cfg w c
  · exact ⟨rfl, rfl⟩

theorem workerAddConnection_sameMail (cfg : ServerConfig) (env : ℕ → Env) (w : Worker) (fd : Int) :
    w.SameMail (workerAddConnection cfg env w fd) := by
  cases halloc : w.connectionArena.alloc with
  | none =>
    rw [workerAddConnection, halloc]
    exact ⟨rfl, rfl⟩
  | some slot =>
    obtain ⟨c, arena⟩ := slot
    rw [workerAddConnection_eq halloc]
    split_ifs
    · exact ⟨rfl, rfl⟩
    · exact connectionDestroy_sameMail cfg (w.added c arena fd) c

theorem drainOne_sameMail (cfg : ServerConfig) (env : ℕ → Env) (w : Worker) (d : ℕ) :
    w.SameMail (drainOne cfg env w d) := by
  obtain ⟨w₁, w₂, hw₁, hw₂, heq⟩ := drainOne_eq cfg env w d
  obtain ⟨op, hattempts⟩ := replyDeferred_attempts cfg (env w.tick).mem w d
  rw [hw₁] at hattempts
  have hsettle : w₁.SameMail w₂ := by
    rw [← hw₂]
    exact ⟨rfl, rfl⟩
  have hmail := hattempts.sameMail.trans hsettle
  rw [heq]
  split_ifs
  · exact hmail.trans (connectionDestroy_sameMail cfg w₂ _)
  · exact hmail

/-- A function that goes through a list changes the two lists in none of its turns. -/
theorem foldl_sameMail {α : Type} {f : Worker → α → Worker}
    (hf : ∀ (w : Worker) (a : α), w.SameMail (f w a)) (l : List α) (w : Worker) :
    w.SameMail (l.foldl f w) := by
  induction l generalizing w with
  | nil => exact ⟨rfl, rfl⟩
  | cons a l ih => exact (hf w a).trans (ih (f w a))

theorem drainPending_mail (cfg : ServerConfig) (env : ℕ → Env) (w : Worker) :
    (drainPending cfg env w).pendingFds = [] :=
  (foldl_sameMail (workerAddConnection_sameMail cfg env) w.pendingFds { w with pendingFds := [] }).1

theorem drainCompleted_mail (cfg : ServerConfig) (env : ℕ → Env) (w : Worker) :
    (drainCompleted cfg env w).pendingFds = w.pendingFds ∧
      (drainCompleted cfg env w).completed = [] :=
  foldl_sameMail (drainOne_sameMail cfg env) w.completed { w with completed := [] }

theorem flushWrites_sameMail (cfg : ServerConfig) (env : ℕ → Env)
    (scripts : ℕ → List SendResult) (w : Worker) :
    w.SameMail (flushWrites cfg env scripts w) := by
  refine foldl_sameMail (fun w c => ?_) w.pendingWrites { w with pendingWrites := [] }
  rw [flushOne_eq]
  refine Worker.SameMail.trans ?_ (maybeClose_sameMail cfg _ c)
  exact flushWrite_rule (P := fun w' => w.SameMail w') ⟨rfl, rfl⟩ fun w' h _ => h

theorem resumeCall_sameMail {resume : Resume} (h : resumeCall cfg env w resume = some w') :
    w.SameMail w' := by
  obtain ⟨k, rest, call, -, -, rfl | ⟨op, w₁, hattempts, rfl⟩⟩ := resumeCall_cases h
  · exact ⟨rfl, rfl⟩
  · exact hattempts.sameMail

end Lists

/-! ## Handling packets brings no sockets -/

section Packets

variable {cfg : ServerConfig} {w : Worker} {c d : ℕ}

theorem queueStringError_pendingFds (cfg : ServerConfig) (mem : Mem) (w : Worker) (c : ℕ)
    (request : Request) (procId callId : UInt64) (message : List UInt8) :
    (queueStringError cfg mem w c request procId callId message).2.pendingFds = w.pendingFds :=
  (queueStringError_attempts cfg mem w c request procId callId message).sameMail.1

theorem queuePacket_pendingFds (cfg : ServerConfig) (mem : Mem) (w : Worker) (c : ℕ)
    (request : Request) (op : Op) (procId callId : UInt64) (payload : List UInt8) :
    (queuePacket cfg mem w c request op procId callId payload).2.pendingFds = w.pendingFds :=
  (queuePacket_attempts cfg mem w c request op procId callId payload).sameMail.1

theorem runDeferred_pendingFds (w : Worker) (d : ℕ) (outcome : DeferredOutcome) :
    (runDeferred w d outcome).pendingFds = w.pendingFds :=
  (runDeferred_keepsWatches w d outcome).pendingFds

theorem onCallDone_pendingFds (cfg : ServerConfig) (mem : Mem) (w : Worker) (call : Call)
    (callEnd : CallEnd) : (onCallDone cfg mem w call callEnd).pendingFds = w.pendingFds := by
  obtain ⟨op, hattempts⟩ := onCallDone_attempts cfg mem w call callEnd
  exact hattempts.sameMail.1

variable (cfg : ServerConfig) (env : Env) (w : Worker) (c : ℕ) (request : Request)
  (header : Header) (route : Route) (payload : List UInt8)

theorem schedulerSubmit_pendingFds :
    (schedulerSubmit cfg env w c request header route payload).2.pendingFds = w.pendingFds := by
  unfold schedulerSubmit
  split
  · rfl
  · rfl
  · simp only
    split_ifs
    · rfl
    · split
      · split
        · exact onCallDone_pendingFds _ _ _ _ _
        · rfl
      · exact onCallDone_pendingFds _ _ _ _ _

theorem handleDeferredCall_pendingFds :
    (handleDeferredCall cfg env w c request header route payload).2.pendingFds = w.pendingFds := by
  unfold handleDeferredCall
  split
  · exact queueStringError_pendingFds _ _ _ _ _ _ _ _
  · simp only
    split_ifs
    · exact queueStringError_pendingFds _ _ _ _ _ _ _ _
    · split
      · exact runDeferred_pendingFds _ _ _
      · exact queueStringError_pendingFds _ _ _ _ _ _ _ _

theorem handleSyncCall_pendingFds :
    (handleSyncCall cfg env w c request header route payload).2.pendingFds = w.pendingFds := by
  unfold handleSyncCall
  split
  · simp only
    split_ifs
    · exact queuePacket_pendingFds _ _ _ _ _ _ _ _ _
    · exact queueStringError_pendingFds _ _ _ _ _ _ _ _
  · exact queueStringError_pendingFds _ _ _ _ _ _ _ _

theorem handleRoute_pendingFds :
    (handleRoute cfg env w c request header route payload).2.pendingFds = w.pendingFds := by
  unfold handleRoute
  split_ifs
  · exact handleDeferredCall_pendingFds _ _ _ _ _ _ _ _
  · exact handleSyncCall_pendingFds _ _ _ _ _ _ _ _
  · have hsubmit := schedulerSubmit_pendingFds cfg env w c request header route payload
    generalize schedulerSubmit cfg env w c request header route payload = result at hsubmit
    obtain ⟨rc, w'⟩ := result
    cases rc with
    | ok => exact hsubmit
    | err => exact (queueStringError_pendingFds _ _ _ _ _ _ _ _).trans hsubmit

/-- Whatever a packet asks for, on whatever slot, it brings no socket. -/
theorem handlePacket_pendingFds (env : ℕ → Env) :
    (handlePacket cfg env w c header payload).2.pendingFds = w.pendingFds := by
  unfold handlePacket dispatchOp
  simp only
  split_ifs
  · split
    · exact queueStringError_pendingFds _ _ _ _ _ _ _ _
    · exact handleRoute_pendingFds _ _ _ _ _ _ _ _
  · exact queuePacket_pendingFds _ _ _ _ _ _ _ _ _
  · rfl
  · exact queueStringError_pendingFds _ _ _ _ _ _ _ _

/-- An event of a connection brings no socket. -/
theorem handleEvent_pendingFds (env : ℕ → Env) (recv : List RecvResult) (send : List SendResult)
    (ready : Interest) :
    (handleEvent cfg env w recv send (.conn c ready)).pendingFds = w.pendingFds := by
  have hread : (connectionRead cfg env c recv w).pendingFds = w.pendingFds :=
    connectionRead_invariant (P := fun w' => w'.pendingFds = w.pendingFds)
      (fun _ _ _ _ _ _ _ h => h)
      (fun _ _ _ h _ => (handlePacket_pendingFds _ _ _ _ _ _).trans h) rfl recv
  unfold handleEvent
  simp only
  rw [(maybeClose_sameMail _ _ _).1]
  split_ifs <;> first | exact hread | rfl

end Packets

/-! ## The machine -/

/-- What a thread wakes the worker for. -/
inductive Notice where
  | socket
  | completion
  | stop
  deriving DecidableEq, Repr

/-- The loop of a worker at its backend, and the threads that are about to wake it. -/
structure Sleeper (β : Type) where
  loop : Loop
  bell : β
  /-- `stopping` of the server. -/
  stopping : Bool
  /-- The worker is in `wirecall_backend_poll`. -/
  polling : Bool
  /-- The worker has left its loop. -/
  exited : Bool
  /-- The calls of `wirecall_backend_wake` that are still to come. -/
  owed : List Notice

def Sleeper.init {β : Type} (b : β) : Sleeper β := ⟨Loop.init, b, false, false, false, []⟩

/-- A step of the worker or of another thread. -/
inductive SleeperStep (μ π : Type) where
  /-- The worker finds that the server is not stopping, and goes to sleep. -/
  | enter
  /-- The worker finds that the server is stopping. -/
  | leave
  /-- The poll returns a batch. -/
  | poll (p : π) (batch : List Event)
  /-- The poll fails. -/
  | fail
  /-- The worker goes on with its iteration. -/
  | work (l : Label)
  /-- Something else happens at the backend. -/
  | move (m : μ)
  /-- `worker_enqueue_connection` and `worker_queue_completed` in another thread, up to the unlock. -/
  | accept (fd : ℕ)
  | complete (d : ℕ) (completion : Completion)
  /-- `wirecall_server_stop` sets the flag. -/
  | stop
  /-- The wake-up of a thread. -/
  | ring (notice : Notice)
  /-- A wake-up for what was seen already, such as a call that the worker completes itself. -/
  | wake

/-- A step of an iteration. -/
def Label.isWork : Label → Bool
  | .event _ _ => true
  | .schedule => true
  | .resume _ => true
  | .finish _ => true
  | _ => false

/-- The worker hands an accepted socket to itself, and wakes itself. -/
def Loop.wakesItself (s : Loop) : Bool :=
  match s.phase with
  | .events (.listener (_ :: _) :: _) => true
  | _ => false

section Machine

variable {β μ π : Type}

/-- The transitions. What was left for the worker, and the wake-up for it, are two steps. -/
def Sleeper.step (cfg : ServerConfig) (env : ℕ → Env) (bell : Machine.Doorbell β μ π)
    (s : Sleeper β) : SleeperStep μ π → Option (Sleeper β)
  | .enter =>
    if s.loop.phase = .poll ∧ s.polling = false ∧ s.exited = false ∧ s.stopping = false then
      some { s with polling := true }
    else none
  | .leave =>
    if s.loop.phase = .poll ∧ s.polling = false ∧ s.stopping = true then
      some { s with exited := true }
    else none
  | .poll p batch =>
    if s.polling = true then
      (bell.poll s.bell p).bind fun r =>
        -- the events of the batch are those of the backend
        if r.1 = decide (.wake ∈ batch) then
          some { s with loop := ⟨s.loop.worker, .events batch⟩, bell := r.2, polling := false }
        else none
    else none
  | .fail => if s.polling = true then some { s with polling := false, exited := true } else none
  | .work l =>
    if l.isWork = true then
      (s.loop.step cfg env l).map fun loop =>
        { s with loop := loop, bell := if s.loop.wakesItself then bell.ring s.bell else s.bell }
    else none
  | .move m => (bell.move s.bell m).map fun b => { s with bell := b }
  | .accept fd =>
    (s.loop.step cfg env (.accept fd)).map fun loop =>
      { s with loop := loop, owed := s.owed ++ [.socket] }
  | .complete d completion =>
    (s.loop.step cfg env (.complete d completion)).map fun loop =>
      -- a call that is completed already is not queued again, and wakes nobody
      if (s.loop.worker.deferreds d).completed then { s with loop := loop }
      else { s with loop := loop, owed := s.owed ++ [.completion] }
  | .stop => some { s with stopping := true, owed := s.owed ++ [.stop] }
  | .ring notice =>
    if notice ∈ s.owed then
      some { s with owed := s.owed.erase notice, bell := bell.ring s.bell }
    else none
  | .wake => some { s with bell := bell.ring s.bell }

end Machine

/-! ## What the steps of the loop leave -/

/-- The rest of the batch has a wake-up. -/
def Phase.Wakes (phase : Phase) : Prop := ∃ batch, phase = .events batch ∧ .wake ∈ batch

section Steps

variable {cfg : ServerConfig} {env : ℕ → Env} {s s' : Loop} {l : Label}

/-- **Sockets that wait after an event** waited before it, and the wake-up is still in the batch if
it was there; or the worker wakes itself. -/
theorem Loop.step_event_sockets {recv : List RecvResult} {send : List SendResult}
    (hstep : s.step cfg env (.event recv send) = some s') (hwait : s'.worker.pendingFds ≠ []) :
    s.wakesItself = true ∨ s.worker.pendingFds ≠ [] ∧ (s.phase.Wakes → s'.phase.Wakes) := by
  obtain ⟨w, phase⟩ := s
  simp only [Loop.step] at hstep
  split at hstep
  · rename_i event batch
    cases hstep
    simp only at hwait ⊢
    -- an event that is not the wake-up leaves it in the batch
    have hrest : event ≠ .wake → Phase.Wakes (.events (event :: batch)) →
        Phase.Wakes (.events batch) := by
      rintro hne ⟨_, heq, hmem⟩
      cases heq
      exact ⟨batch, rfl, (List.mem_cons.mp hmem).resolve_left hne.symm⟩
    cases event with
    | wake =>
      -- a wake-up leaves no socket
      refine absurd ?_ hwait
      exact (drainCompleted_mail cfg env _).1.trans (drainPending_mail cfg env w)
    | listener fds =>
      cases fds with
      | nil =>
        refine .inr ⟨?_, hrest fun h => by cases h⟩
        simpa [handleEvent] using hwait
      | cons fd fds => exact .inl rfl
    | conn c ready =>
      rw [handleEvent_pendingFds] at hwait
      exact .inr ⟨hwait, hrest fun h => by cases h⟩
  · cases hstep

/-- The same for every step of an iteration. -/
theorem Loop.step_sockets (hl : l.isWork = true) (hstep : s.step cfg env l = some s')
    (hwait : s'.worker.pendingFds ≠ []) :
    s.wakesItself = true ∨ s.worker.pendingFds ≠ [] ∧ (s.phase.Wakes → s'.phase.Wakes) := by
  cases l with
  | event recv send => exact Loop.step_event_sockets hstep hwait
  | schedule =>
    obtain ⟨hphase, heq⟩ := Option.ite_none_right_eq_some.mp hstep
    cases heq
    refine .inr ⟨hwait, ?_⟩
    rintro ⟨batch, hbatch, hmem⟩
    rw [hphase] at hbatch
    cases hbatch
    cases hmem
  | resume resume =>
    obtain ⟨hphase, hsome⟩ := Option.ite_none_right_eq_some.mp hstep
    obtain ⟨w, hresume, rfl⟩ := Option.map_eq_some_iff.mp hsome
    rw [(resumeCall_sameMail hresume).1] at hwait
    exact .inr ⟨hwait, id⟩
  | finish scripts =>
    obtain ⟨⟨hphase, -⟩, heq⟩ := Option.ite_none_right_eq_some.mp hstep
    cases heq
    rw [(flushWrites_sameMail cfg env scripts _).1, (drainCompleted_mail cfg env _).1] at hwait
    refine .inr ⟨hwait, ?_⟩
    rintro ⟨batch, hbatch, -⟩
    rw [hphase] at hbatch
    cases hbatch
  | poll batch => cases hl
  | complete d completion => cases hl
  | accept fd => cases hl

/-- **No completed call waits at the end of an iteration.** -/
theorem Loop.step_completed (hl : l.isWork = true) (hstep : s.step cfg env l = some s')
    (hphase : s'.phase = .poll) : s'.worker.completed = [] := by
  cases l with
  | event recv send =>
    simp only [Loop.step] at hstep
    split at hstep
    · cases hstep
      cases hphase
    · cases hstep
  | schedule =>
    obtain ⟨-, heq⟩ := Option.ite_none_right_eq_some.mp hstep
    cases heq
    cases hphase
  | resume resume =>
    obtain ⟨hschedule, hsome⟩ := Option.ite_none_right_eq_some.mp hstep
    obtain ⟨w, -, rfl⟩ := Option.map_eq_some_iff.mp hsome
    rw [hschedule] at hphase
    cases hphase
  | finish scripts =>
    obtain ⟨-, heq⟩ := Option.ite_none_right_eq_some.mp hstep
    cases heq
    exact (flushWrites_sameMail cfg env scripts _).2.trans (drainCompleted_mail cfg env _).2
  | poll batch => cases hl
  | complete d completion => cases hl
  | accept fd => cases hl

/-- A step of an iteration starts outside the poll. -/
theorem Loop.step_not_poll (hl : l.isWork = true) (hstep : s.step cfg env l = some s') :
    s.phase ≠ .poll := by
  intro hphase
  cases l with
  | event recv send =>
    simp only [Loop.step, hphase] at hstep
    cases hstep
  | schedule =>
    have h := (Option.ite_none_right_eq_some.mp hstep).1
    rw [hphase] at h
    cases h
  | resume resume =>
    have h := (Option.ite_none_right_eq_some.mp hstep).1
    rw [hphase] at h
    cases h
  | finish scripts =>
    have h := (Option.ite_none_right_eq_some.mp hstep).1.1
    rw [hphase] at h
    cases h
  | poll batch => cases hl
  | complete d completion => cases hl
  | accept fd => cases hl

end Steps

/-! ## Nobody is forgotten -/

section Attended

variable {β μ π : Type} {bell : Machine.Doorbell β μ π} {cfg : ServerConfig} {env : ℕ → Env}
  {s s' : Sleeper β}

variable (bell) in
/-- **What was left for the worker is seen to, or the worker is called.** -/
structure Sleeper.Attended (s : Sleeper β) : Prop where
  ok : bell.Ok s.bell
  settled : s.loop.Settled
  polling : s.polling = true → s.loop.phase = .poll
  sockets : s.loop.worker.pendingFds ≠ [] →
    bell.Called s.bell s.owed Notice.socket ∨ s.loop.phase.Wakes
  completed : s.loop.phase = .poll → s.loop.worker.completed ≠ [] →
    bell.Called s.bell s.owed Notice.completion
  stop : s.stopping = true → s.polling = true → bell.Called s.bell s.owed Notice.stop

/-- At the backend something happens that takes no call back. -/
theorem Sleeper.Attended.atBell (h : s.Attended bell) {b : β} {owed : List Notice} (hok : bell.Ok b)
    (hcalled : ∀ k, bell.Called s.bell s.owed k → bell.Called b owed k) :
    Sleeper.Attended bell { s with bell := b, owed := owed } where
  ok := hok
  settled := h.settled
  polling := h.polling
  sockets := fun hwait => (h.sockets hwait).imp_left (hcalled _)
  completed := fun hphase hwait => hcalled _ (h.completed hphase hwait)
  stop := fun hstop hpolling => hcalled _ (h.stop hstop hpolling)

/-- The poll returns. A worker that did not hear the bell is still called. -/
theorem Sleeper.Attended.poll (h : s.Attended bell) (hpolling : s.polling = true) {p : π}
    {batch : List Event} {b : β}
    (hpoll : bell.poll s.bell p = some (decide (.wake ∈ batch), b)) :
    Sleeper.Attended bell
      { s with loop := ⟨s.loop.worker, .events batch⟩, bell := b, polling := false } := by
  refine ⟨bell.ok_poll h.ok hpoll, ?_, ?_, fun hwait => ?_, ?_, ?_⟩
  · intro hphase
    cases hphase
  · intro hpolling
    cases hpolling
  · by_cases hwake : .wake ∈ batch
    · exact .inr ⟨batch, rfl, hwake⟩
    · rw [decide_eq_false hwake] at hpoll
      rcases h.sockets hwait with hcalled | ⟨batch', hphase, -⟩
      · exact .inl (hcalled.missed h.ok hpoll)
      · -- a worker that polls has handled its batch
        rw [h.polling hpolling] at hphase
        cases hphase
  · intro hphase
    cases hphase
  · intro _ hpolling
    cases hpolling

/-- The worker goes on with its iteration. -/
theorem Sleeper.Attended.work (h : s.Attended bell) {l : Label} {loop : Loop}
    (hl : l.isWork = true) (hstep : s.loop.step cfg env l = some loop) :
    Sleeper.Attended bell { s with
      loop := loop, bell := if s.loop.wakesItself then bell.ring s.bell else s.bell } := by
  have hawake : s.polling ≠ true := fun hpolling =>
    Loop.step_not_poll hl hstep (h.polling hpolling)
  refine ⟨?_, h.settled.step hstep, fun hpolling => absurd hpolling hawake, fun hwait => ?_,
    fun hphase hwait => absurd (Loop.step_completed hl hstep hphase) hwait,
    fun _ hpolling => absurd hpolling hawake⟩
  · simp only
    split_ifs
    · exact bell.ok_ring h.ok
    · exact h.ok
  · by_cases hitself : s.loop.wakesItself = true
    · simp only [if_pos hitself]
      exact .inl (.ring h.ok)
    · simp only [if_neg hitself]
      obtain ⟨hbefore, hwakes⟩ := (Loop.step_sockets hl hstep hwait).resolve_left hitself
      exact (h.sockets hbefore).imp_right hwakes

/-- Another thread leaves a socket. -/
theorem Sleeper.Attended.accept (h : s.Attended bell) {fd : ℕ} {loop : Loop}
    (hstep : s.loop.step cfg env (.accept fd) = some loop) :
    Sleeper.Attended bell { s with loop := loop, owed := s.owed ++ [.socket] } := by
  have hsettled := h.settled.step hstep
  cases hstep
  exact ⟨h.ok, hsettled, h.polling, fun _ => .inl .posted,
    fun hphase hwait => (h.completed hphase hwait).append,
    fun hstop hpolling => (h.stop hstop hpolling).append⟩

/-- Another thread completes a call. Only the first completion leaves anything. -/
theorem Sleeper.Attended.complete (h : s.Attended bell) {d : ℕ} {completion : Completion}
    {loop : Loop} (hstep : s.loop.step cfg env (.complete d completion) = some loop) :
    Sleeper.Attended bell
      (if (s.loop.worker.deferreds d).completed then { s with loop := loop }
        else { s with loop := loop, owed := s.owed ++ [.completion] }) := by
  have hsettled := h.settled.step hstep
  obtain ⟨-, heq⟩ := Option.ite_none_right_eq_some.mp hstep
  cases heq
  by_cases hdone : (s.loop.worker.deferreds d).completed = true
  · rw [if_pos hdone]
    rw [complete_of_completed hdone] at hsettled ⊢
    exact ⟨h.ok, hsettled, h.polling, h.sockets, h.completed, h.stop⟩
  · rw [if_neg hdone]
    obtain ⟨response, result, error, -, heq⟩ :=
      complete_of_open (Bool.eq_false_of_not_eq_true hdone) completion
    rw [heq] at hsettled ⊢
    exact ⟨h.ok, hsettled, h.polling,
      fun hwait => (h.sockets hwait).imp_left fun hcalled => hcalled.append,
      fun _ _ => .posted, fun hstop hpolling => (h.stop hstop hpolling).append⟩

/-- **No step loses a wake-up.** -/
theorem Sleeper.Attended.step (h : s.Attended bell) {l : SleeperStep μ π}
    (hstep : s.step cfg env bell l = some s') : s'.Attended bell := by
  cases l with
  | enter =>
    obtain ⟨⟨hphase, -, -, hstopping⟩, heq⟩ := Option.ite_none_right_eq_some.mp hstep
    cases heq
    refine ⟨h.ok, h.settled, fun _ => hphase, h.sockets, h.completed, fun hstop => ?_⟩
    -- the flag was not set when the worker looked at it
    rw [hstopping] at hstop
    cases hstop
  | leave =>
    obtain ⟨-, heq⟩ := Option.ite_none_right_eq_some.mp hstep
    cases heq
    exact ⟨h.ok, h.settled, h.polling, h.sockets, h.completed, h.stop⟩
  | poll p batch =>
    obtain ⟨hpolling, hsome⟩ := Option.ite_none_right_eq_some.mp hstep
    obtain ⟨⟨heard, b⟩, hpoll, hbatch⟩ := Option.bind_eq_some_iff.mp hsome
    obtain ⟨hheard, heq⟩ := Option.ite_none_right_eq_some.mp hbatch
    cases heq
    simp only at hheard
    rw [hheard] at hpoll
    exact h.poll hpolling hpoll
  | fail =>
    obtain ⟨-, heq⟩ := Option.ite_none_right_eq_some.mp hstep
    cases heq
    refine ⟨h.ok, h.settled, ?_, h.sockets, h.completed, ?_⟩
    · intro hpolling
      cases hpolling
    · intro _ hpolling
      cases hpolling
  | work l =>
    obtain ⟨hl, hsome⟩ := Option.ite_none_right_eq_some.mp hstep
    obtain ⟨loop, hloop, rfl⟩ := Option.map_eq_some_iff.mp hsome
    exact h.work hl hloop
  | move m =>
    obtain ⟨b, hmove, rfl⟩ := Option.map_eq_some_iff.mp hstep
    exact h.atBell (bell.ok_move h.ok hmove) fun _ hcalled => hcalled.move h.ok hmove
  | accept fd =>
    simp only [Sleeper.step] at hstep
    obtain ⟨loop, hloop, rfl⟩ := Option.map_eq_some_iff.mp hstep
    exact h.accept hloop
  | complete d completion =>
    obtain ⟨loop, hloop, rfl⟩ := Option.map_eq_some_iff.mp hstep
    exact h.complete hloop
  | stop =>
    cases hstep
    exact ⟨h.ok, h.settled, h.polling,
      fun hwait => (h.sockets hwait).imp_left fun hcalled => hcalled.append,
      fun hphase hwait => (h.completed hphase hwait).append, fun _ _ => .posted⟩
  | ring notice =>
    obtain ⟨-, heq⟩ := Option.ite_none_right_eq_some.mp hstep
    cases heq
    exact h.atBell (bell.ok_ring h.ok) fun _ _ => .ring h.ok
  | wake =>
    cases hstep
    exact h.atBell (bell.ok_ring h.ok) fun _ _ => .ring h.ok

theorem Sleeper.attended_init {b : β} (hok : bell.Ok b) : (Sleeper.init b).Attended bell :=
  ⟨hok, fun _ => ⟨rfl, rfl⟩, fun _ => rfl, fun h => absurd rfl h, fun _ h => absurd rfl h,
    fun h => absurd h Bool.false_ne_true⟩

/-- The worker has nothing to do, except for what it is about to be woken for. -/
structure Sleeper.Idle (s : Sleeper β) : Prop where
  ready : s.loop.worker.ready = []
  writes : s.loop.worker.pendingWrites = []
  sockets : s.loop.worker.pendingFds ≠ [] → .socket ∈ s.owed
  completed : s.loop.worker.completed ≠ [] → .completion ∈ s.owed
  stop : s.stopping = true → .stop ∈ s.owed

/-- **A worker that sleeps at a bell that keeps silent is idle.** -/
theorem Sleeper.idle_of_exec {b : β} (hok : bell.Ok b) {steps : List (SleeperStep μ π)}
    (hrun : Machine.exec (Sleeper.step cfg env bell) (.init b) steps = some s)
    (hpolling : s.polling = true) (hsilent : bell.Silent s.bell) : s.Idle := by
  have hmeets : Machine.Meets (Sleeper.step cfg env bell) (fun _ _ => True) (.init b) steps :=
    .of_forall fun _ _ _ => trivial
  have h : s.Attended bell :=
    Machine.exec_invariant (P := fun s => Sleeper.Attended bell s)
      (fun _ _ _ h _ hstep => h.step hstep) (Sleeper.attended_init hok) hmeets hrun
  have hphase := h.polling hpolling
  obtain ⟨hready, hwrites⟩ := h.settled hphase
  refine ⟨hready, hwrites, fun hwait => ?_, fun hwait => ?_, fun hstop => ?_⟩
  · rcases h.sockets hwait with hcalled | ⟨batch, hbatch, -⟩
    · exact hcalled.mem_owed h.ok hsilent
    · rw [hphase] at hbatch
      cases hbatch
  · exact (h.completed hphase hwait).mem_owed h.ok hsilent
  · exact (h.stop hstop hpolling).mem_owed h.ok hsilent

end Attended

/-! ## With each backend -/

/-- **A sleeping worker is idle**, with each of the three backends and in every order of what the
worker, the other threads and the kernel do, as long as the system calls of a wake-up succeed; with
io_uring also the kernel takes every entry and completes no poll with an error of its own, and on
Windows the other calls succeed too. If the worker is in its poll and the wake-up is not about to
bring it back, then no call is ready and the list of connections to be flushed is empty, and for
every socket, completed call or stop that it has not seen there is a thread that is still to wake
it. -/
theorem sleeping_worker_idle (cfg : ServerConfig) (env : ℕ → Env) :
    (∀ (o : Submit) (steps : List (SleeperStep { l : RingStep // l.Prompt } UringPoll))
      (s : Sleeper Uring), o.Prompt →
      Machine.exec (Sleeper.step cfg env uringBell) (.init ⟨(backendCreate o).2, 0⟩) steps = some s →
      s.polling = true → s.bell.Silent → s.Idle) ∧
    (∀ (steps : List (SleeperStep (Kqueue.Move ℕ) (ℕ × List Kqueue.Knote)))
      (s : Sleeper (Kqueue.Queue ℕ)),
      Machine.exec (Sleeper.step cfg env (kqueueBell ℕ)) (.init (.empty ℕ)) steps = some s →
      s.polling = true → s.bell.triggered = false → s.Idle) ∧
    ∀ (wakeEvent : ℕ) (steps : List (SleeperStep Windows.Call Windows.PollArgs))
      (s : Sleeper Windows.Waking),
      Machine.exec (Sleeper.step cfg env windowsBell) (.init ⟨Windows.create wakeEvent, false⟩)
        steps = some s →
      s.polling = true → s.bell.set = false → s.Idle := by
  refine ⟨fun o steps s ho => ?_, fun steps s => ?_, fun wakeEvent steps s => ?_⟩
  · have hok : uringBell.Ok ⟨(backendCreate o).2, 0⟩ := attentive_create ho
    exact Sleeper.idle_of_exec hok
  · have hok : (kqueueBell ℕ).Ok (.empty ℕ) := trivial
    exact Sleeper.idle_of_exec hok
  · have hok : windowsBell.Ok ⟨Windows.create wakeEvent, false⟩ := trivial
    exact Sleeper.idle_of_exec hok

/-- Two sockets are handed over while the worker sleeps. It is woken for the first one and takes
both, is then woken in vain, and sleeps again; the server is about to stop. -/
def wokenTwice : List (SleeperStep { l : RingStep // l.Prompt } UringPoll) :=
  let batch : SleeperStep { l : RingStep // l.Prompt } UringPoll :=
    .poll ⟨16, true, fun _ => .all none, .all none, fun _ => rfl⟩ [.wake]
  let iteration : List (SleeperStep { l : RingStep // l.Prompt } UringPoll) :=
    [.move ⟨.complete 0 1, zero_le_one⟩, batch, .work (.event [] []), .work .schedule,
      .work (.finish fun _ => []), .enter]
  [.enter, .accept 5, .accept 6, .ring .socket] ++ iteration ++ [.ring .socket] ++ iteration ++
    [.stop]

theorem sleeping_worker_idle_woken : ∃ s,
    Machine.exec (Sleeper.step .plain (fun _ => .quiet) uringBell)
      (.init ⟨(backendCreate (.all none)).2, 0⟩) wokenTwice = some s ∧
      s.loop.worker.connections.length = 2 ∧ s.Idle := by
  have heval : (Machine.exec (Sleeper.step .plain (fun _ => .quiet) uringBell)
      (.init ⟨(backendCreate (.all none)).2, 0⟩) wokenTwice).any (fun s => decide
        (s.polling = true ∧ s.bell.backend.cq = [] ∧ s.bell.counter = 0 ∧
          s.loop.worker.connections.length = 2)) = true := by
    decide +kernel
  obtain ⟨s, hrun, hs⟩ := Machine.exists_of_any heval
  obtain ⟨hpolling, hcq, hcounter, hconnections⟩ := of_decide_eq_true hs
  have hsilent : s.bell.Silent := by
    refine ⟨fun cqe hcqe => ?_, fun h => ?_⟩
    · rw [hcq] at hcqe
      cases hcqe
    · exact absurd h.1 (by omega)
  exact ⟨s, hrun, hconnections,
    (sleeping_worker_idle .plain fun _ => .quiet).1 (.all none) wokenTwice s rfl hrun hpolling
      hsilent⟩

end Wirecall

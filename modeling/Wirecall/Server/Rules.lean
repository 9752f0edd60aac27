import Wirecall.Server.Loop

/-!
# Invariant rules for the worker loop

The loop is built from a dozen actions: input is stored, a packet is handled, output is written, a
connection is closed or added, a deferred call is completed or drained, a call is resumed. What
every action preserves is preserved by the handling of an event and by every step of the loop. An
invariant is thus proved action by action, and never by going through the loop again.

Some functions of the loop take a list and go through it. Between their turns the rest of that
list is held by the function alone, so an invariant speaks of the worker and of these rests.

## Main definitions

* `Mid`: a worker in the middle of a function
* `EventRule`, `LoopRule`: what an invariant has to be preserved by
* `Admits`: what the rules ask of an event

## Main results

* `EventRule.handleEvent`: the rule for events
* `LoopRule.step`: the rule for steps of the loop
-/

namespace Wirecall

/-- A worker in the middle of a function: the rests of the lists that were taken off it. -/
structure Mid where
  worker : Worker
  /-- The connections that are still to be flushed. -/
  writes : List ℕ
  /-- The completed deferred calls that are still to be drained. -/
  done : List ℕ
  /-- The sockets that are still to be added. -/
  fds : List Int

/-- A worker between two functions. -/
def Worker.mid (w : Worker) : Mid := ⟨w, [], [], []⟩

/-- The first half of a turn of `worker_flush_writes`. -/
def flushWrite (env : ℕ → Env) (script : List SendResult) (w : Worker) (c : ℕ) : Worker :=
  let w := w.setConn c { w.conns c with writeQueued := false }
  if (w.conns c).writeOff < (w.conns c).writeBuf.length then connectionWrite env w c script else w

theorem flushOne_eq (cfg : ServerConfig) (env : ℕ → Env) (scripts : ℕ → List SendResult)
    (w : Worker) (c : ℕ) :
    flushOne cfg env scripts w c = maybeClose cfg (flushWrite env (scripts c) w c) c := rfl

/-- The connection is taken off the pending writes, and then written if it has output left. -/
theorem flushWrite_rule {P : Worker → Prop} {env : ℕ → Env} {script : List SendResult} {w : Worker}
    {c : ℕ} (hunqueued : P (w.setConn c { w.conns c with writeQueued := false }))
    (hwrite : ∀ w', P w' → w'.tick = w.tick → P (connectionWrite env w' c script)) :
    P (flushWrite env script w c) := by
  unfold flushWrite
  simp only
  split
  · exact hwrite _ hunqueued rfl
  · exact hunqueued

/-- **What an invariant of events is preserved by.** The actions of a connection event are asked
for on the connections of `T`, closing on those of `U`, and the sockets that wait are added if
`K` holds. -/
structure EventRule (cfg : ServerConfig) (env : ℕ → Env) (T U : ℕ → Prop) (K : Worker → Prop)
    (P : Mid → Prop) : Prop where
  isOpen : ∀ {m c}, P m → c ∈ m.worker.connections → (m.worker.conns c).Open
  touch : ∀ {m c} readBuf readCap received closing ticks failed, P m → T c →
    c ∈ m.worker.connections →
    P { m with worker := m.worker.touchRead c readBuf readCap received closing ticks failed }
  handle : ∀ {m c header payload rc w'}, P m → T c → c ∈ m.worker.connections →
    validOp header.op = true →
    Handles cfg (env m.worker.tick) m.worker c header payload (rc, w') → P { m with worker := w' }
  write : ∀ {m c} script, P m → T c → c ∈ m.worker.connections →
    P { m with worker := connectionWrite env m.worker c script }
  close : ∀ {m c}, P m → U c → c ∈ m.worker.connections → c ∉ m.writes →
    (m.worker.conns c).closing = true → ¬ (m.worker.conns c).Unsent → m.fds = [] →
    P { m with worker := connectionDestroy cfg m.worker c }
  takeFds : ∀ {w : Worker}, P w.mid → K w → P ⟨{ w with pendingFds := [] }, [], [], w.pendingFds⟩
  add : ∀ {w fd fds}, P ⟨w, [], [], fd :: fds⟩ → P ⟨workerAddConnection cfg env w fd, [], [], fds⟩
  takeDone : ∀ {w : Worker}, P w.mid → P ⟨{ w with completed := [] }, [], w.completed, []⟩
  drain : ∀ {w d done}, P ⟨w, [], d :: done, []⟩ → P ⟨drainOne cfg env w d, [], done, []⟩
  accept : ∀ {w : Worker} (fds : List ℕ), P w.mid →
    P (Worker.mid { w with pendingFds := w.pendingFds ++ fds.map Int.ofNat })

/-- **What an invariant of the loop is preserved by.** -/
structure LoopRule (cfg : ServerConfig) (env : ℕ → Env) (T U : ℕ → Prop) (K : Worker → Prop)
    (P : Mid → Prop) : Prop extends EventRule cfg env T U K P where
  closes : ∀ c, U c
  complete : ∀ {w : Worker} {d} completion, P w.mid → d ∈ w.undrained →
    P (complete w d completion).mid
  resume : ∀ {w w' : Worker} {resume}, P w.mid → resumeCall cfg env w resume = some w' → P w'.mid
  takeWrites : ∀ {w : Worker}, P w.mid → P ⟨{ w with pendingWrites := [] }, w.pendingWrites, [], []⟩
  queued : ∀ {w c writes}, P ⟨w, c :: writes, [], []⟩ → c ∈ w.connections ∧ c ∉ writes
  flush : ∀ {w c writes} script, P ⟨w, c :: writes, [], []⟩ →
    P ⟨flushWrite env script w c, writes, [], []⟩

/-- What the rules ask of an event: a connection event is for a connection on the list, and what
it may do is asked for. -/
def Admits (T U : ℕ → Prop) (K : Worker → Prop) (w : Worker) : Event → Prop
  | .wake => K w
  | .listener _ => True
  | .conn c _ => c ∈ w.connections ∧ ((w.conns c).closing = false → T c) ∧ U c

/-! ## The list of connections -/

section Connections

variable {cfg : ServerConfig} {env : Env} {w w' : Worker} {c d : ℕ} {header : Header}
  {payload : List UInt8} {rc : Rc}

theorem Queues.connections {request : Request} {op : Op} {procId callId : UInt64}
    {data : List UInt8} {result : Rc × Worker}
    (h : Queues cfg w c request op procId callId data result) :
    result.2.connections = w.connections := by
  obtain ⟨conns, writes, entries, failed, -, heq⟩ := h.eq
  rw [heq]

theorem Churn.connections (h : Churn w w') : w'.connections = w.connections := by
  cases h <;> rfl

theorem runDeferred_connections (w : Worker) (d : ℕ) (outcome : DeferredOutcome) :
    (runDeferred w d outcome).connections = w.connections := by
  refine runDeferred_rule (P := fun w' => w'.connections = w.connections) ?_ rfl outcome
  intro w' completion hw'
  obtain ⟨deferreds, completed, log, heq⟩ := complete_eq w' d completion
  rw [heq]
  exact hw'

/-- Handling a packet adds and removes no connection. -/
theorem Handles.connections (h : Handles cfg env w c header payload (rc, w')) :
    w'.connections = w.connections := by
  generalize hresult : (rc, w') = result at h
  cases h with
  | replied hchurn hreply hqueues =>
    subst hresult
    exact hqueues.connections.trans hchurn.connections
  | notStarted halloc hreply hqueues =>
    cases hresult
    exact hqueues.connections
  | disconnected hop =>
    cases hresult
    rfl
  | issued outcome hop halloc hsucceeds =>
    cases hresult
    exact runDeferred_connections _ _ outcome
  | submitted call args hop hasync halloc hconn hrequest =>
    cases hresult
    rfl

end Connections

section Rules

variable {cfg : ServerConfig} {env : ℕ → Env} {T U : ℕ → Prop} {K : Worker → Prop}
  {P : Mid → Prop}

theorem EventRule.maybeClose (h : EventRule cfg env T U K P) {m : Mid} {c : ℕ} (hP : P m)
    (hU : U c) (hc : c ∈ m.worker.connections) (hwrites : c ∉ m.writes) (hfds : m.fds = []) :
    P { m with worker := maybeClose cfg m.worker c } := by
  unfold Wirecall.maybeClose
  simp only
  split_ifs with hclose
  · have hsent : ¬ (m.worker.conns c).Unsent := by
      rw [Conn.Unsent, hclose.2]
      exact lt_irrefl _
    exact h.close hP hU hc hwrites hclose.1 hsent hfds
  · exact hP

/-- The read of an event. -/
theorem EventRule.read (h : EventRule cfg env T U K P) {w : Worker} {c : ℕ} (hP : P w.mid)
    (hT : T c) (hc : c ∈ w.connections) (script : List RecvResult) :
    P (connectionRead cfg env c script w).mid ∧
      c ∈ (connectionRead cfg env c script w).connections := by
  refine connectionRead_invariant (P := fun w => P w.mid ∧ c ∈ w.connections) ?_ ?_ ⟨hP, hc⟩ script
  · rintro w readBuf readCap received closing ticks failed ⟨hP, hc⟩
    exact ⟨h.touch _ _ _ _ _ _ hP hT hc, hc⟩
  · rintro w header payload ⟨hP, hc⟩ hvalid
    have hopen : (w.conns c).Open := h.isOpen hP hc
    have hhandles := handlePacket_handles cfg env hopen header payload
    generalize handlePacket cfg env w c header payload = result at hhandles ⊢
    obtain ⟨rc, w'⟩ := result
    exact ⟨h.handle hP hT hc hvalid hhandles, by rw [hhandles.connections]; exact hc⟩

/-- The sockets that wait are added one by one. -/
theorem EventRule.drainPending (h : EventRule cfg env T U K P) {w : Worker} (hP : P w.mid)
    (hK : K w) : P (drainPending cfg env w).mid := by
  have hfold (fds : List Int) : ∀ w, P ⟨w, [], [], fds⟩ →
      P (fds.foldl (fun w fd => workerAddConnection cfg env w fd) w).mid := by
    induction fds with
    | nil => exact fun w hw => hw
    | cons fd fds ih => exact fun w hw => ih _ (h.add hw)
  exact hfold w.pendingFds _ (h.takeFds hP hK)

/-- The completed calls are drained one by one. -/
theorem EventRule.drainCompleted (h : EventRule cfg env T U K P) {w : Worker} (hP : P w.mid) :
    P (drainCompleted cfg env w).mid := by
  have hfold (done : List ℕ) : ∀ w, P ⟨w, [], done, []⟩ →
      P (done.foldl (fun w d => drainOne cfg env w d) w).mid := by
    induction done with
    | nil => exact fun w hw => hw
    | cons d done ih => exact fun w hw => ih _ (h.drain hw)
  exact hfold w.completed _ (h.takeDone hP)

/-- **Rule for events.** -/
theorem EventRule.handleEvent (h : EventRule cfg env T U K P) {w : Worker} (hP : P w.mid)
    (recv : List RecvResult) (send : List SendResult) {event : Event}
    (hadmits : Admits T U K w event) : P (handleEvent cfg env w recv send event).mid := by
  cases event with
  | wake => exact h.drainCompleted (h.drainPending hP hadmits)
  | listener fds => exact h.accept fds hP
  | conn c ready =>
    obtain ⟨hc, hT, hU⟩ := hadmits
    rw [Wirecall.handleEvent]
    by_cases hclosing : (w.conns c).closing = false
    · have hread : P (if ready.read = true ∧ (w.conns c).closing = false then
            connectionRead cfg env c recv w else w).mid ∧
          c ∈ (if ready.read = true ∧ (w.conns c).closing = false then
            connectionRead cfg env c recv w else w).connections := by
        split_ifs
        · exact h.read hP (hT hclosing) hc recv
        · exact ⟨hP, hc⟩
      generalize (if ready.read = true ∧ (w.conns c).closing = false then
        connectionRead cfg env c recv w else w) = w₁ at hread ⊢
      obtain ⟨hP₁, hc₁⟩ := hread
      split_ifs
      · exact h.maybeClose (h.write send hP₁ (hT hclosing) hc₁) hU hc₁ List.not_mem_nil rfl
      · exact h.maybeClose hP₁ hU hc₁ List.not_mem_nil rfl
    · -- a connection that is to be closed is neither read nor written
      have hread : ¬ (ready.read = true ∧ (w.conns c).closing = false) := fun h => hclosing h.2
      have hwrite : ¬ (ready.write = true ∧ (w.conns c).closing = false) := fun h => hclosing h.2
      rw [if_neg hread, if_neg hwrite]
      exact h.maybeClose hP hU hc List.not_mem_nil rfl

/-- The queued output is written connection by connection. -/
theorem LoopRule.flushWrites (h : LoopRule cfg env T U K P) (scripts : ℕ → List SendResult)
    {w : Worker} (hP : P w.mid) : P (flushWrites cfg env scripts w).mid := by
  have hfold (writes : List ℕ) : ∀ w, P ⟨w, writes, [], []⟩ →
      P (writes.foldl (fun w c => flushOne cfg env scripts w c) w).mid := by
    induction writes with
    | nil => exact fun w hw => hw
    | cons c writes ih =>
      intro w hw
      refine ih _ ?_
      have hconnections : (flushWrite env (scripts c) w c).connections = w.connections := by
        unfold flushWrite
        simp only
        split_ifs <;> rfl
      obtain ⟨hc, hwrites⟩ := h.queued hw
      have hc' : c ∈ (flushWrite env (scripts c) w c).connections := hconnections ▸ hc
      exact h.maybeClose (h.flush (scripts c) hw) (h.closes c) hc' hwrites rfl
  exact hfold w.pendingWrites _ (h.takeWrites hP)

/-- What the rule asks of a step: its event is admitted. -/
def StepAdmits (T U : ℕ → Prop) (K : Worker → Prop) (s : Loop) : Label → Prop
  | .event _ _ => ∀ event batch, s.phase = .events (event :: batch) → Admits T U K s.worker event
  | _ => True

/-- **Rule for steps of the loop.** -/
theorem LoopRule.step (h : LoopRule cfg env T U K P) {s s' : Loop} {l : Label}
    (hP : P s.worker.mid) (hadmits : StepAdmits T U K s l) (hstep : s.step cfg env l = some s') :
    P s'.worker.mid := by
  cases l with
  | poll batch =>
    simp only [Loop.step] at hstep
    split_ifs at hstep
    cases hstep
    exact hP
  | event recv send =>
    simp only [Loop.step] at hstep
    split at hstep
    · rename_i event batch hphase
      cases hstep
      exact h.handleEvent hP recv send (hadmits event batch hphase)
    · cases hstep
  | schedule =>
    simp only [Loop.step] at hstep
    split_ifs at hstep
    cases hstep
    exact hP
  | resume resume =>
    simp only [Loop.step] at hstep
    split_ifs at hstep
    obtain ⟨w', hw', rfl⟩ := Option.map_eq_some_iff.mp hstep
    exact h.resume hP hw'
  | finish scripts =>
    simp only [Loop.step] at hstep
    split_ifs at hstep
    cases hstep
    exact h.flushWrites scripts (h.drainCompleted hP)
  | complete d completion =>
    simp only [Loop.step] at hstep
    split_ifs at hstep with hd
    cases hstep
    exact h.complete completion hP hd
  | accept fd =>
    cases hstep
    exact h.accept [fd] hP

end Rules

end Wirecall

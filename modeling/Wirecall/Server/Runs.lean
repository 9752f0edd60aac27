import Wirecall.Server.Batches

/-!
# Runs of the worker loop

Of the events of a run only this is asked here: the slot an event names is allocated when the event
is handled, since handling one for a slot that was given back would be a use after free. Such an
event is for a connection on the list, or for one that is detached and waits for its deferred
calls; then it is marked for closing, and its event does nothing.

## Main definitions

* `Worker.Marked`: a slot that is detached is marked for closing
* `Allocated`, `WakesIn`: what is asked of the events of a run

* `Loop.Settled`: what is done between two iterations

## Main results

* `marked_loopRule`: every action of the loop keeps detached slots marked
* `LoopRule.exec`, `LoopRule.execFrom`: what every action preserves holds after every such run
* `Loop.settled_exec`: between iterations no call is queued and no output waits to be flushed
-/

namespace Wirecall

/-- A slot that is detached and not given back is marked for closing. -/
def Worker.Marked (w : Worker) : Prop :=
  ∀ c, w.connectionArena.Live c → (w.conns c).detached = true → (w.conns c).closing = true

/-- A connection that is marked for closing stays marked, and none is detached. -/
structure Conn.Marks (conn conn' : Conn) : Prop where
  detached : conn'.detached = conn.detached
  closing : conn.closing = true → conn'.closing = true

section Marked

variable {cfg : ServerConfig} {env : ℕ → Env} {w w' : Worker} {c d : ℕ}

theorem Conn.Marks.refl (conn : Conn) : conn.Marks conn := ⟨rfl, id⟩

theorem Worker.marks_setConn {conn : Conn} (h : (w.conns c).Marks conn) (c' : ℕ) :
    (w.conns c').Marks ((w.setConn c conn).conns c') := by
  by_cases hc : c' = c
  · subst hc
    rwa [conns_setConn_self]
  · rw [conns_setConn_of_ne _ _ _ hc]
    exact .refl _

theorem Worker.Marked.marks (h : w.Marked) (harena : w'.connectionArena = w.connectionArena)
    (hconns : ∀ c, (w.conns c).Marks (w'.conns c)) : w'.Marked := by
  intro c hlive hdetached
  rw [harena] at hlive
  rw [(hconns c).detached] at hdetached
  exact (hconns c).closing (h c hlive hdetached)

theorem Queues.marks {request : Request} {op : Op} {procId callId : UInt64} {data : List UInt8}
    {result : Rc × Worker} (h : Queues cfg w c request op procId callId data result) :
    result.2.connectionArena = w.connectionArena ∧
      ∀ c', (w.conns c').Marks (result.2.conns c') := by
  cases h with
  | queued hfront =>
    rw [Worker.queued_eq]
    exact ⟨rfl, Worker.marks_setConn ⟨rfl, id⟩⟩
  | failed bytes cap => exact ⟨rfl, Worker.marks_setConn ⟨rfl, id⟩⟩

theorem Attempts.marks {request : Request} {op : Op} {procId callId : UInt64}
    (h : Attempts cfg w c request op procId callId w') :
    w'.connectionArena = w.connectionArena ∧ ∀ c', (w.conns c').Marks (w'.conns c') := by
  cases h with
  | queues hopen hqueues => exact hqueues.marks
  | refused => exact ⟨rfl, fun _ => .refl _⟩
  | failed => exact ⟨rfl, fun _ => .refl _⟩

theorem complete_connectionArena (w : Worker) (d : ℕ) (completion : Completion) :
    (complete w d completion).connectionArena = w.connectionArena := by
  obtain ⟨deferreds, completed, log, heq⟩ := complete_eq w d completion
  rw [heq]

theorem Handles.marks {e : Env} {header : Header} {payload : List UInt8} {rc : Rc}
    (h : Handles cfg e w c header payload (rc, w')) :
    w'.connectionArena = w.connectionArena ∧ ∀ c', (w.conns c').Marks (w'.conns c') := by
  generalize hresult : (rc, w') = result at h
  cases h with
  | @replied w₁ _ _ _ _ _ hchurn hreply hqueues =>
    subst hresult
    obtain ⟨harena, hmarks⟩ := hqueues.marks
    have harena₁ : w₁.connectionArena = w.connectionArena := by cases hchurn <;> rfl
    rw [hchurn.conns] at hmarks
    exact ⟨harena.trans harena₁, hmarks⟩
  | notStarted halloc hreply hqueues =>
    cases hresult
    exact hqueues.marks
  | disconnected hop =>
    cases hresult
    exact ⟨rfl, Worker.marks_setConn ⟨rfl, fun _ => rfl⟩⟩
  | issued outcome hop halloc hsucceeds =>
    cases hresult
    rw [(runDeferred_frame _ _ outcome 0).1]
    refine ⟨?_, Worker.marks_setConn ⟨rfl, id⟩⟩
    refine runDeferred_rule (P := fun w' => w'.connectionArena = w.connectionArena) ?_ ?_ outcome
    · exact fun w' completion hw' => (complete_connectionArena w' _ completion).trans hw'
    · rfl
  | submitted call args hop hasync halloc hconn hrequest =>
    cases hresult
    exact ⟨rfl, fun _ => .refl _⟩

theorem Worker.Marked.write (h : w.Marked) (c : ℕ) (script : List SendResult) :
    (connectionWrite env w c script).Marked := by
  have hsends := sendLoop_sends (env w.tick).modify script (w.conns c)
  refine h.marks rfl (Worker.marks_setConn ⟨?_, hsends.closing_le⟩)
  rw [hsends.same]
  rfl

/-- Whatever is given back, the slots that stay are those there were. -/
theorem Worker.Marked.release (h : w.Marked) (c : ℕ) : (freeConnection cfg w c).Marked := by
  intro c' hlive hdetached
  obtain ⟨hlive', -⟩ := (Arena.live_free _ _ _).mp hlive
  obtain ⟨fd, hconn, -⟩ := freeConnection_conns cfg w c c'
  rw [hconn] at hdetached ⊢
  exact h c' hlive' hdetached

theorem Worker.Marked.destroy (h : w.Marked) (hclosing : (w.conns c).closing = true) :
    (connectionDestroy cfg w c).Marked := by
  have hdetached : (if (w.conns c).detached = true then w else detachConnection w c).Marked := by
    split_ifs
    · exact h
    · intro c' hlive hdetached
      by_cases hc : c' = c
      · subst hc
        rw [detachConnection_self]
        exact hclosing
      · rw [detachConnection_of_ne w hc] at hdetached ⊢
        exact h c' hlive hdetached
  unfold connectionDestroy
  simp only
  split_ifs at hdetached ⊢ <;> first | exact hdetached | exact hdetached.release c

/-- A new connection is attached, or given back at once. -/
theorem Worker.Marked.add {fd : Int} {fds : List Int} (hinv : Inv ⟨w, [], [], fd :: fds⟩)
    (h : w.Marked) : (workerAddConnection cfg env w fd).Marked := by
  cases halloc : w.connectionArena.alloc with
  | none =>
    rw [workerAddConnection, halloc]
    exact h
  | some slot =>
    obtain ⟨c, arena⟩ := slot
    obtain ⟨-, hlive⟩ := Arena.live_alloc hinv.conn.arena halloc
    have hadded : (w.added c arena fd).Marked := by
      intro c' hc' hdetached
      by_cases hcc : c' = c
      · subst hcc
        rw [Worker.added_self] at hdetached
        cases hdetached
      · rw [Worker.added_of_ne _ _ _ hcc] at hdetached ⊢
        exact h c' (((hlive c').mp hc').resolve_left hcc) hdetached
    rw [workerAddConnection_eq halloc]
    split_ifs
    · exact hadded.marks rfl (Worker.marks_setConn ⟨rfl, id⟩)
    · -- no call points to a new connection, so it is given back with its slot unmarked
      intro c' hlive' hdetached
      rw [connectionDestroy_added] at hlive' hdetached ⊢
      obtain ⟨hold, hcc⟩ := (Arena.live_free _ _ _).mp hlive'
      obtain ⟨fd', hconn, -⟩ := freeConnection_conns cfg (detachConnection (w.added c arena fd) c) c c'
      rw [hconn, detachConnection_of_ne _ hcc] at hdetached ⊢
      exact hadded c' hold hdetached

theorem Worker.Marked.drainOne (h : w.Marked) : (drainOne cfg env w d).Marked := by
  obtain ⟨w₁, w₂, hw₁, hw₂, heq⟩ := drainOne_eq cfg env w d
  obtain ⟨op, hattempts⟩ := replyDeferred_attempts cfg (env w.tick).mem w d
  rw [hw₁] at hattempts
  obtain ⟨harena, hmarks⟩ := hattempts.marks
  have hsettled : w₂.Marked := by
    refine (h.marks harena hmarks).marks (hw₂ ▸ rfl) fun c => ?_
    obtain ⟨n, hn, -⟩ := settleDeferred_conns w₁ d c
    rw [← hw₂]
    exact hn ▸ ⟨rfl, id⟩
  rw [heq]
  split_ifs with hgone
  · simp only [connectionDestroy, if_pos hgone.1]
    split_ifs
    · exact hsettled
    · exact hsettled.release _
  · exact hsettled

/-- **Every action of the loop keeps detached slots marked.** -/
theorem marked_loopRule (cfg : ServerConfig) (env : ℕ → Env) (T : ℕ → Prop) (K : Worker → Prop) :
    LoopRule cfg env T (fun _ => True) K fun m => Inv m ∧ m.worker.Marked := by
  have hinv := inv_loopRule cfg env T K
  exact
    { isOpen := fun h hc => hinv.isOpen h.1 hc
      touch := fun readBuf readCap received closing ticks failed h hT hc =>
        ⟨hinv.touch _ _ _ _ _ _ h.1 hT hc, h.2.marks rfl (Worker.marks_setConn ⟨rfl, fun hclosing => by
          simp [hclosing]⟩)⟩
      handle := fun h hT hc hvalid hhandles =>
        ⟨hinv.handle h.1 hT hc hvalid hhandles, h.2.marks hhandles.marks.1 hhandles.marks.2⟩
      write := fun script h hT hc => ⟨hinv.write script h.1 hT hc, h.2.write _ script⟩
      close := fun h hU hc hwrites hclosing hsent hfds =>
        ⟨hinv.close h.1 hU hc hwrites hclosing hsent hfds, h.2.destroy hclosing⟩
      takeFds := fun h hK => ⟨hinv.takeFds h.1 hK, h.2⟩
      add := fun h => ⟨hinv.add h.1, h.2.add h.1⟩
      takeDone := fun h => ⟨hinv.takeDone h.1, h.2⟩
      drain := fun h => ⟨hinv.drain h.1, h.2.drainOne⟩
      accept := fun fds h => ⟨hinv.accept fds h.1, h.2⟩
      closes := fun _ => trivial
      complete := fun {w d} completion h hd =>
        ⟨hinv.complete completion h.1 hd, h.2.marks (complete_connectionArena w d completion)
          fun c => congrFun (complete_frame w d completion).1 c ▸ .refl _⟩
      resume := fun {w w' resume} h hresume => by
        refine ⟨hinv.resume h.1 hresume, ?_⟩
        obtain ⟨k, rest, call, -, -, rfl | ⟨op, w₁, hattempts, rfl⟩⟩ := resumeCall_cases hresume
        · exact h.2
        · exact h.2.marks hattempts.marks.1 hattempts.marks.2
      takeWrites := fun h => ⟨hinv.takeWrites h.1, h.2⟩
      queued := fun h => hinv.queued h.1
      flush := fun script h =>
        ⟨hinv.flush script h.1, flushWrite_rule
          (h.2.marks rfl (Worker.marks_setConn ⟨rfl, id⟩)) fun _ hw' _ => hw'.write _ script⟩ }

end Marked

/-! ## Events for allocated slots -/

/-- The connection of the next event. -/
def Phase.target : Phase → Option ℕ
  | .events (.conn c _ :: _) => some c
  | _ => none

/-- The slot of a connection event is allocated when the event is handled. -/
def Allocated (s : Loop) : Label → Prop
  | .event _ _ => ∀ c ∈ s.phase.target, s.worker.connectionArena.Live c
  | _ => True

instance (s : Loop) : DecidablePred (Allocated s)
  | .event _ _ =>
    inferInstanceAs (Decidable (∀ c ∈ s.phase.target, s.worker.connectionArena.Live c))
  | .poll _ => .isTrue trivial
  | .schedule => .isTrue trivial
  | .resume _ => .isTrue trivial
  | .finish _ => .isTrue trivial
  | .complete _ _ => .isTrue trivial
  | .accept _ => .isTrue trivial

/-- The next event is a wake-up. -/
def Phase.wakes : Phase → Bool
  | .events (.wake :: _) => true
  | _ => false

/-- What is asked of the worker when it is woken. -/
def WakesIn (K : Worker → Prop) (s : Loop) : Label → Prop
  | .event _ _ => s.phase.wakes = true → K s.worker
  | _ => True

instance (K : Worker → Prop) [DecidablePred K] (s : Loop) : DecidablePred (WakesIn K s)
  | .event _ _ => inferInstanceAs (Decidable (s.phase.wakes = true → K s.worker))
  | .poll _ => .isTrue trivial
  | .schedule => .isTrue trivial
  | .resume _ => .isTrue trivial
  | .finish _ => .isTrue trivial
  | .complete _ _ => .isTrue trivial
  | .accept _ => .isTrue trivial

theorem WakesIn.of_forall {K : Worker → Prop} (h : ∀ w, K w) (s : Loop) (l : Label) :
    WakesIn K s l := by
  cases l with
  | event recv send => exact fun _ => h s.worker
  | _ => trivial

section Exec

variable {cfg : ServerConfig} {env : ℕ → Env} {w : Worker} {c : ℕ} {K : Worker → Prop}
  {P : Mid → Prop}

/-- An event for a connection that waits for its calls does nothing. -/
theorem handleEvent_of_detached (hdetached : (w.conns c).detached = true)
    (hclosing : (w.conns c).closing = true) (hpending : (w.conns c).pendingDeferred ≠ 0)
    (recv : List RecvResult) (send : List SendResult) (ready : Interest) :
    handleEvent cfg env w recv send (.conn c ready) = w := by
  simp only [handleEvent, hclosing, Bool.true_eq_false, and_false, if_false]
  unfold maybeClose connectionDestroy
  simp only [if_pos hdetached]
  rw [if_pos hpending]
  exact ite_self w

/-- An event for a slot that is allocated and not on the list does nothing. -/
theorem Worker.Marked.handleEvent (hmark : w.Marked) (hinv : Inv w.mid)
    (hlive : w.connectionArena.Live c) (hc : c ∉ w.connections) (recv : List RecvResult)
    (send : List SendResult) (ready : Interest) :
    handleEvent cfg env w recv send (.conn c ready) = w := by
  have hdetached : (w.conns c).detached = true := by
    by_contra hattached
    exact hc ((hinv.conn.mem_connections c).mpr ⟨hlive, Bool.eq_false_iff.mpr hattached⟩)
  have hpending := hinv.conn.lingering c (Option.some_ne_none c).symm hlive hdetached
  exact handleEvent_of_detached hdetached (hmark c hlive hdetached) hpending recv send ready

/-- **What every action preserves is preserved by every step** whose event is for an allocated slot.
The rule may leave out connections that the invariant knows to be marked for closing. -/
theorem LoopRule.stepFrom {T : ℕ → Prop} (h : LoopRule cfg env T (fun _ => True) K P) {s s' : Loop}
    (hT : ∀ c ∈ s.worker.connections, (s.worker.conns c).closing = false → T c)
    (hP : P s.worker.mid) (hinv : Inv s.worker.mid) (hmark : s.worker.Marked) {l : Label}
    (hallocated : Allocated s l) (hwake : WakesIn K s l) (hstep : s.step cfg env l = some s') :
    P s'.worker.mid ∧ Inv s'.worker.mid ∧ s'.worker.Marked := by
  have hmarked := marked_loopRule cfg env T K
  have hnext (hadmits : StepAdmits T (fun _ => True) K s l) :
      P s'.worker.mid ∧ Inv s'.worker.mid ∧ s'.worker.Marked :=
    ⟨h.step hP hadmits hstep,
      hmarked.step (P := fun m => Inv m ∧ m.worker.Marked) ⟨hinv, hmark⟩ hadmits hstep⟩
  cases l with
  | event recv send =>
    -- only an event for a connection that is not on the list is not admitted, and it does nothing
    by_cases hidle : ∃ c ready batch, s.phase = .events (.conn c ready :: batch) ∧
        c ∉ s.worker.connections
    · obtain ⟨c, ready, batch, hphase, hc⟩ := hidle
      have hlive : s.worker.connectionArena.Live c := hallocated c (by rw [hphase]; rfl)
      simp only [Loop.step, hphase] at hstep
      rw [hmark.handleEvent hinv hlive hc] at hstep
      cases hstep
      exact ⟨hP, hinv, hmark⟩
    · refine hnext fun event batch hphase => ?_
      cases event with
      | wake => exact hwake (by rw [hphase]; rfl)
      | listener fds => trivial
      | conn c ready =>
        have hc : c ∈ s.worker.connections := by
          by_contra hc
          exact hidle ⟨c, ready, batch, hphase, hc⟩
        exact ⟨hc, hT c hc, trivial⟩
  | _ => exact hnext trivial

/-- **What every action preserves is preserved by every run** whose events are for allocated
slots. -/
theorem LoopRule.execFrom {T : ℕ → Prop} (h : LoopRule cfg env T (fun _ => True) K P)
    (hT : ∀ {w : Worker} {c}, P w.mid → c ∈ w.connections → (w.conns c).closing = false → T c)
    {s s' : Loop} (hP : P s.worker.mid) (hinv : Inv s.worker.mid) (hmark : s.worker.Marked)
    {labels : List Label}
    (hevents : Machine.Meets (Loop.step cfg env) (fun s l => Allocated s l ∧ WakesIn K s l) s labels)
    (hrun : Machine.exec (Loop.step cfg env) s labels = some s') :
    P s'.worker.mid ∧ Inv s'.worker.mid ∧ s'.worker.Marked := by
  refine Machine.exec_invariant
    (P := fun s => P s.worker.mid ∧ Inv s.worker.mid ∧ s.worker.Marked) ?_ ⟨hP, hinv, hmark⟩
    hevents hrun
  rintro s l s' ⟨hP, hinv, hmark⟩ ⟨hallocated, hwake⟩ hstep
  exact h.stepFrom (fun c hc => hT hP hc) hP hinv hmark hallocated hwake hstep

/-- **What every action preserves holds after every run** whose events are for allocated slots. -/
theorem LoopRule.exec (h : LoopRule cfg env (fun _ => True) (fun _ => True) K P)
    (hinit : P workerInit.mid) {labels : List Label} {s : Loop}
    (hevents : Machine.Meets (Loop.step cfg env) (fun s l => Allocated s l ∧ WakesIn K s l)
      Loop.init labels)
    (hrun : Machine.exec (Loop.step cfg env) Loop.init labels = some s) :
    P s.worker.mid ∧ Inv s.worker.mid ∧ s.worker.Marked :=
  h.execFrom (fun _ _ _ => trivial) (s := Loop.init) hinit inv_workerInit
    (fun _ hlive => absurd hlive (Arena.not_live_init _ _)) hevents hrun

end Exec

/-! ## Between two iterations -/

/-- Between two iterations no call is queued and no output waits to be flushed. -/
def Loop.Settled (s : Loop) : Prop :=
  s.phase = .poll → s.worker.ready = [] ∧ s.worker.pendingWrites = []

section Settled

variable {cfg : ServerConfig} {env : ℕ → Env} {w : Worker} {s s' : Loop} {l : Label}

theorem connectionDestroy_settled (cfg : ServerConfig) (c : ℕ) (hready : w.ready = [])
    (hwrites : w.pendingWrites = []) : (connectionDestroy cfg w c).ready = [] ∧
      (connectionDestroy cfg w c).pendingWrites = [] := by
  have hdetach : (if (w.conns c).detached = true then w else detachConnection w c).ready = [] ∧
      (if (w.conns c).detached = true then w else detachConnection w c).pendingWrites = [] := by
    split_ifs
    · exact ⟨hready, hwrites⟩
    · refine ⟨hready, ?_⟩
      change (if (w.conns c).writeQueued = true then w.pendingWrites.erase c
        else w.pendingWrites) = []
      rw [hwrites]
      exact ite_self _
  unfold connectionDestroy
  simp only
  split_ifs at hdetach ⊢ <;> exact hdetach

theorem connectionDestroy_ready (cfg : ServerConfig) (w : Worker) (c : ℕ) :
    (connectionDestroy cfg w c).ready = w.ready := by
  obtain ⟨conns, arena, connections, writes, entries, -, heq⟩ := connectionDestroy_eq cfg w c
  rw [heq]

/-- A drain starts no call. -/
theorem drainOne_ready (cfg : ServerConfig) (env : ℕ → Env) (w : Worker) (d : ℕ) :
    (drainOne cfg env w d).ready = w.ready := by
  obtain ⟨w₁, w₂, hw₁, hw₂, heq⟩ := drainOne_eq cfg env w d
  obtain ⟨op, hattempts⟩ := replyDeferred_attempts cfg (env w.tick).mem w d
  rw [hw₁] at hattempts
  have hsettled : w₂.ready = w.ready := by
    rw [← hw₂, ← hattempts.scheduler.2.1]
    rfl
  rw [heq]
  split_ifs
  · exact (connectionDestroy_ready cfg w₂ _).trans hsettled
  · exact hsettled

theorem drainCompleted_ready (cfg : ServerConfig) (env : ℕ → Env) (w : Worker) :
    (drainCompleted cfg env w).ready = w.ready := by
  have hfold (done : List ℕ) : ∀ w : Worker,
      (done.foldl (fun w d => drainOne cfg env w d) w).ready = w.ready := by
    induction done with
    | nil => exact fun w => rfl
    | cons d done ih => exact fun w => (ih _).trans (drainOne_ready cfg env w d)
  exact hfold w.completed _

theorem flushWrites_settled (scripts : ℕ → List SendResult) (hready : w.ready = []) :
    (flushWrites cfg env scripts w).ready = [] ∧
      (flushWrites cfg env scripts w).pendingWrites = [] := by
  have hone (w : Worker) (c : ℕ) (h : w.ready = [] ∧ w.pendingWrites = []) :
      (flushOne cfg env scripts w c).ready = [] ∧
        (flushOne cfg env scripts w c).pendingWrites = [] := by
    have hwrite : (flushWrite env (scripts c) w c).ready = [] ∧
        (flushWrite env (scripts c) w c).pendingWrites = [] :=
      flushWrite_rule (P := fun w => w.ready = [] ∧ w.pendingWrites = []) h fun _ hw _ => hw
    rw [flushOne_eq]
    unfold maybeClose
    simp only
    split_ifs
    · exact connectionDestroy_settled cfg c hwrite.1 hwrite.2
    · exact hwrite
  have hfold (writes : List ℕ) : ∀ w : Worker, w.ready = [] ∧ w.pendingWrites = [] →
      (writes.foldl (fun w c => flushOne cfg env scripts w c) w).ready = [] ∧
        (writes.foldl (fun w c => flushOne cfg env scripts w c) w).pendingWrites = [] := by
    induction writes with
    | nil => exact fun w hw => hw
    | cons c writes ih => exact fun w hw => ih _ (hone w c hw)
  exact hfold w.pendingWrites _ ⟨hready, rfl⟩

/-- **Every step leaves the loop settled between iterations.** -/
theorem Loop.Settled.step (h : s.Settled) (hstep : s.step cfg env l = some s') : s'.Settled := by
  cases l with
  | finish scripts =>
    simp only [Loop.step] at hstep
    split_ifs at hstep with hphase
    cases hstep
    exact fun _ => flushWrites_settled scripts ((drainCompleted_ready cfg env s.worker).trans hphase.2)
  | complete d completion =>
    simp only [Loop.step] at hstep
    split_ifs at hstep
    cases hstep
    obtain ⟨deferreds, completed, log, heq⟩ := complete_eq s.worker d completion
    rw [heq]
    exact h
  | accept fd =>
    cases hstep
    exact h
  | poll batch =>
    simp only [Loop.step] at hstep
    split_ifs at hstep
    cases hstep
    exact fun hphase => by cases hphase
  | event recv send =>
    simp only [Loop.step] at hstep
    split at hstep
    · cases hstep
      exact fun hphase => by cases hphase
    · cases hstep
  | schedule =>
    simp only [Loop.step] at hstep
    split_ifs at hstep
    cases hstep
    exact fun hphase => by cases hphase
  | resume resume =>
    simp only [Loop.step] at hstep
    split_ifs at hstep with hphase
    obtain ⟨w', -, rfl⟩ := Option.map_eq_some_iff.mp hstep
    exact fun hpoll => absurd (hphase.symm.trans hpoll) fun h => by cases h

theorem Loop.settled_exec {labels : List Label}
    (hrun : Machine.exec (Loop.step cfg env) Loop.init labels = some s) : s.Settled := by
  have hany : Machine.Meets (Loop.step cfg env) (fun _ _ => True) Loop.init labels :=
    .of_forall fun _ _ _ => trivial
  exact Machine.exec_invariant (fun _ _ _ h _ hstep => Loop.Settled.step h hstep)
    (fun _ => ⟨rfl, rfl⟩) hany hrun

end Settled

end Wirecall

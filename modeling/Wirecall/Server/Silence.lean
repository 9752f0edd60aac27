import Wirecall.Server.Closing
import Wirecall.Server.Input

/-!
# Silence after closing

Once a connection is marked for closing, no packet of it is to be handled and no handler is to run
for it. Packets are handled in reads, and a read ends when it has marked the connection, unless a
packet stands behind a DISCONNECT in the buffer: the parser goes on with it. Sync and deferred
handlers run while their packet is handled. An async handler runs when the scheduler resumes its
call, after the events of the batch. If the connection is marked between the two, its handler runs
all the same, even where the connection is destroyed by then.

So a run is silent if no packet stands behind a DISCONNECT in what is parsed, and no call of a
connection is queued when the connection is marked. Nothing takes the mark back, so it is enough to
look at the connection whenever a packet is handled or a call is resumed.

## Main definitions

* `serveEvent`, `eventPoints`: the input and output of a connection event, and the points of its read
* `QuietEvent`, `Quiet`: what is asked of the events of a run
* `Loop.resumes`: the call whose handler a step runs
* `CallsAttended`: every queued call is of a connection that is there and not marked
* `Worker.Serves`, `Worker.Attends`: what the input and output of a connection, and the other
  actions of the loop, leave of the queued calls

## Main results

* `CallsAttended.step`: every step of a quiet run keeps the queued calls attended
* `closing_not_dispatched`: **no packet is handled and no handler runs for a connection that is
  marked**, in every quiet run
* `handler_run_after_disconnect`: a run in which a handler runs for a connection that is gone
-/

namespace Wirecall

/-! ## Quiet events -/

/-- The connection whose event is handled next, and what it is ready for. -/
def Phase.connEvent : Phase → Option (ℕ × Interest)
  | .events (.conn c ready :: _) => some (c, ready)
  | _ => none

theorem Phase.target_of_connEvent {phase : Phase} {e : ℕ × Interest}
    (h : phase.connEvent = some e) : phase.target = some e.1 := by
  cases phase with
  | events batch =>
    cases batch with
    | nil => cases h
    | cons event batch =>
      cases event with
      | conn c ready =>
        cases h
        rfl
      | wake => cases h
      | listener fds => cases h
  | poll => cases h
  | schedule => cases h

/-- The worker when the input and the output of a connection event are done. -/
def serveEvent (cfg : ServerConfig) (env : ℕ → Env) (w : Worker) (recv : List RecvResult)
    (send : List SendResult) (c : ℕ) (ready : Interest) : Worker :=
  let w := if ready.read ∧ (w.conns c).closing = false then connectionRead cfg env c recv w else w
  if ready.write ∧ (w.conns c).closing = false then connectionWrite env w c send else w

/-- The points of the read of a connection event, if it reads. -/
def eventPoints (cfg : ServerConfig) (env : ℕ → Env) (w : Worker) (recv : List RecvResult) (c : ℕ)
    (ready : Interest) : List ReadPoint :=
  if ready.read ∧ (w.conns c).closing = false then readPoints cfg env c recv w else []

/-- Where the parser is called, no packet follows a DISCONNECT in the buffer. -/
def ReadPoint.EndsWell (i : Integrity) (c : ℕ) : ReadPoint → Prop
  | .parse w => DisconnectLast i (w.conns c).readBuf
  | _ => True

instance (i : Integrity) (c : ℕ) : DecidablePred (ReadPoint.EndsWell i c)
  | .parse w => inferInstanceAs (Decidable (DisconnectLast i (w.conns c).readBuf))
  | .recv _ => .isTrue trivial
  | .dispatch _ => .isTrue trivial
  | .parsed _ => .isTrue trivial

/-- **A connection event that marks nothing in use**: no packet follows a DISCONNECT where the parser
is called, and if the connection is marked in the end, no call of it is queued. Nothing is submitted
once it is marked, so these are the calls that were queued when it was. -/
structure QuietEvent (cfg : ServerConfig) (env : ℕ → Env) (w : Worker) (recv : List RecvResult)
    (send : List SendResult) (c : ℕ) (ready : Interest) : Prop where
  last : ∀ p ∈ eventPoints cfg env w recv c ready, p.EndsWell cfg.integrity c
  calls : ((serveEvent cfg env w recv send c ready).conns c).closing = true →
    ∀ k ∈ (serveEvent cfg env w recv send c ready).ready,
      ∀ call ∈ (serveEvent cfg env w recv send c ready).calls k, call.conn ≠ c

instance (cfg : ServerConfig) (env : ℕ → Env) (w : Worker) (recv : List RecvResult)
    (send : List SendResult) (c : ℕ) (ready : Interest) :
    Decidable (QuietEvent cfg env w recv send c ready) :=
  decidable_of_iff (_ ∧ _) ⟨fun h => ⟨h.1, h.2⟩, fun h => ⟨h.last, h.calls⟩⟩

/-- What is asked of a step: a connection event is for an allocated slot, and quiet. -/
def Quiet (cfg : ServerConfig) (env : ℕ → Env) (s : Loop) : Label → Prop
  | .event recv send => Allocated s (.event recv send) ∧
    ∀ e ∈ s.phase.connEvent, QuietEvent cfg env s.worker recv send e.1 e.2
  | _ => True

instance (cfg : ServerConfig) (env : ℕ → Env) (s : Loop) : DecidablePred (Quiet cfg env s)
  | .event recv send => inferInstanceAs (Decidable (Allocated s (.event recv send) ∧
      ∀ e ∈ s.phase.connEvent, QuietEvent cfg env s.worker recv send e.1 e.2))
  | .poll _ => .isTrue trivial
  | .schedule => .isTrue trivial
  | .resume _ => .isTrue trivial
  | .finish _ => .isTrue trivial
  | .complete _ _ => .isTrue trivial
  | .accept _ => .isTrue trivial

/-- The call whose handler a step runs. -/
def Loop.resumes (s : Loop) : Label → Option Call
  | .resume _ => s.worker.ready.head?.bind s.worker.calls
  | _ => none

/-- **Every queued call is attended**: its connection is there and not marked for closing. -/
def CallsAttended (w : Worker) : Prop :=
  ∀ k ∈ w.ready, ∀ call, w.calls k = some call → call.conn ∈ w.connections ∧
    (w.conns call.conn).inst = call.request.inst ∧ (w.conns call.conn).closing = false

/-! ## The input and output of a connection -/

/-- What the input and output of the connection `c` leave: the other connections are as they were,
and calls that are queued meanwhile are of `c`. -/
structure Worker.Serves (c : ℕ) (w w' : Worker) : Prop where
  connections : w'.connections = w.connections
  others : ∀ c', c' ≠ c → w'.conns c' = w.conns c'
  inst : (w'.conns c).inst = (w.conns c).inst
  isOpen : (w'.conns c).Open
  calls : ∀ k ∈ w'.ready, ∀ call, w'.calls k = some call →
    (k ∈ w.ready ∧ w.calls k = some call) ∨
      (call.conn = c ∧ call.request.inst = (w.conns c).inst)

section Serves

variable {cfg : ServerConfig} {env : ℕ → Env} {w w' w'' : Worker} {c : ℕ}

theorem Worker.Serves.refl (hopen : (w.conns c).Open) : w.Serves c w :=
  ⟨rfl, fun _ _ => rfl, rfl, hopen, fun _ hk _ hcall => .inl ⟨hk, hcall⟩⟩

/-- A store into the slot of the connection that keeps it the same connection. -/
theorem Worker.Serves.setConn (h : w.Serves c w') {conn : Conn}
    (hinst : conn.inst = (w'.conns c).inst) (hopen : conn.Open) :
    w.Serves c (w'.setConn c conn) := by
  refine ⟨h.connections, fun c' hne => ?_, ?_, ?_, h.calls⟩
  · rw [conns_setConn_of_ne _ _ _ hne]
    exact h.others c' hne
  · rw [conns_setConn_self]
    exact hinst.trans h.inst
  · rw [conns_setConn_self]
    exact hopen

/-- **A packet is handled**: at most one call is queued, for this connection. -/
theorem Worker.Serves.handle (h : w.Serves c w') (header : Header) (payload : List UInt8) :
    w.Serves c (handlePacket cfg env w' c header payload).2 := by
  have hhandles := handlePacket_handles cfg env h.isOpen header payload
  generalize handlePacket cfg env w' c header payload = result at hhandles ⊢
  obtain ⟨rc, w₂⟩ := result
  have hopen : (w₂.conns c).Open := hhandles.handled.isOpen h.isOpen
  have hothers (c' : ℕ) (hne : c' ≠ c) : w₂.conns c' = w.conns c' :=
    (hhandles.conns_of_ne hne).trans (h.others c' hne)
  have hconnections : w₂.connections = w.connections :=
    hhandles.connections.trans h.connections
  rcases hhandles.holds_or_submitted with hholds | ⟨k, arena, call, call', -, hconn, hreq, rfl⟩
  · -- nothing is submitted, so every queued call was there before
    refine ⟨hconnections, hothers, (hholds.inst c).trans h.inst, hopen, ?_⟩
    intro t ht called hcalled
    obtain ⟨ht', hcalled'⟩ := hholds.calls t ht called hcalled
    exact h.calls t ht' called hcalled'
  · refine ⟨hconnections, hothers, h.inst, hopen, fun t ht called hcalled => ?_⟩
    simp only [Worker.startCall, Worker.takeCall, Function.update_idem] at hcalled
    by_cases htk : t = k
    · -- the call that is submitted
      rw [htk, Function.update_self] at hcalled
      obtain rfl := Option.some.inj hcalled
      refine .inr ⟨hconn, ?_⟩
      rw [hreq]
      exact h.inst
    · rw [Function.update_of_ne htk] at hcalled
      refine h.calls t ((List.mem_append.mp ht).resolve_right fun hself => ?_) called hcalled
      exact htk (List.mem_singleton.mp hself)

theorem Worker.Serves.read (h : w.Serves c w') (script : List RecvResult) :
    w.Serves c (connectionRead cfg env c script w') := by
  -- a read stores what it received, and handles packets
  refine connectionRead_invariant (P := fun w' => w.Serves c w') ?_ ?_ h script
  · intro w' readBuf readCap received closing ticks failed h
    have hset : w.Serves c (w'.setConn c
        { w'.conns c with
          readBuf := readBuf
          readCap := readCap
          received := received
          closing := (w'.conns c).closing || closing }) := h.setConn rfl h.isOpen
    exact ⟨hset.connections, hset.others, hset.inst, hset.isOpen, hset.calls⟩
  · intro w' header payload h _
    exact h.handle header payload

theorem Worker.Serves.write (h : w.Serves c w') (script : List SendResult) :
    w.Serves c (connectionWrite env w' c script) := by
  have hsame := (sendLoop_sends (env w'.tick).modify script (w'.conns c)).same
  have hset : w.Serves c
      (w'.setConn c (sendLoop (env w'.tick).modify script (w'.conns c))) := by
    refine h.setConn ?_ ?_
    · rw [hsame]
      rfl
    · rw [hsame]
      exact h.isOpen
  exact ⟨hset.connections, hset.others, hset.inst, hset.isOpen, hset.calls⟩

theorem serveEvent_serves (hopen : (w.conns c).Open) (recv : List RecvResult)
    (send : List SendResult) (ready : Interest) :
    w.Serves c (serveEvent cfg env w recv send c ready) := by
  have hread : w.Serves c (if ready.read = true ∧ (w.conns c).closing = false then
      connectionRead cfg env c recv w else w) := by
    split_ifs
    · exact (Worker.Serves.refl hopen).read recv
    · exact .refl hopen
  unfold serveEvent
  simp only
  split_ifs at hread ⊢
  all_goals first | exact hread.write send | exact hread

/-- **The input and output of a connection** leave the queued calls attended, unless it is marked
while a call of it is queued. -/
theorem CallsAttended.serve (h : CallsAttended w) (hserves : w.Serves c w') (hc : c ∈ w.connections)
    (hquiet : (w'.conns c).closing = true →
      ∀ k ∈ w'.ready, ∀ call ∈ w'.calls k, call.conn ≠ c) : CallsAttended w' := by
  intro k hk call hcall
  -- a call of the connection itself: it is not marked
  have hself (hconn : call.conn = c) : (w'.conns c).closing = false := by
    by_contra hmarked
    exact hquiet (by simpa using hmarked) k hk call hcall hconn
  rw [hserves.connections]
  rcases hserves.calls k hk call hcall with ⟨hk', hcall'⟩ | ⟨hconn, hinst⟩
  · obtain ⟨hlisted, hinst, hopen⟩ := h k hk' call hcall'
    by_cases hconn : call.conn = c
    · refine ⟨hlisted, ?_, ?_⟩
      · rw [hconn, hserves.inst, ← hconn]
        exact hinst
      · rw [hconn]
        exact hself hconn
    · rw [hserves.others _ hconn]
      exact ⟨hlisted, hinst, hopen⟩
  · rw [hconn, hserves.inst]
    exact ⟨hc, hinst.symm, hself hconn⟩

end Serves

/-! ## The other actions -/

/-- What the other actions of the loop leave: no call is new, and a connection that is not marked
stays where it is and is not marked. -/
structure Worker.Attends (w w' : Worker) : Prop where
  calls : ∀ k ∈ w'.ready, ∀ call, w'.calls k = some call → k ∈ w.ready ∧ w.calls k = some call
  conns : ∀ c ∈ w.connections, (w.conns c).closing = false →
    c ∈ w'.connections ∧ (w'.conns c).inst = (w.conns c).inst ∧ (w'.conns c).closing = false

section Attends

variable {cfg : ServerConfig} {env : ℕ → Env} {w w' w'' : Worker} {c d : ℕ}

theorem CallsAttended.next (h : CallsAttended w) (hattends : w.Attends w') : CallsAttended w' := by
  intro k hk call hcall
  obtain ⟨hk', hcall'⟩ := hattends.calls k hk call hcall
  obtain ⟨hlisted, hinst, hopen⟩ := h k hk' call hcall'
  obtain ⟨hlisted', hinst', hopen'⟩ := hattends.conns _ hlisted hopen
  exact ⟨hlisted', hinst'.trans hinst, hopen'⟩

theorem Worker.Attends.of_eq (hready : w'.ready = w.ready) (hcalls : w'.calls = w.calls)
    (hconnections : w'.connections = w.connections) (hconns : w'.conns = w.conns) :
    w.Attends w' := by
  refine ⟨fun k hk call hcall => ⟨hready ▸ hk, hcalls ▸ hcall⟩, fun c hc hopen => ?_⟩
  rw [hconnections, hconns]
  exact ⟨hc, rfl, hopen⟩

theorem Attempts.closing {request : Request} {op : Op} {procId callId : UInt64}
    (h : Attempts cfg w c request op procId callId w') (c' : ℕ) :
    (w'.conns c').closing = (w.conns c').closing := by
  have hset {conn : Conn} (hclosing : conn.closing = (w.conns c).closing) :
      ((w.setConn c conn).conns c').closing = (w.conns c').closing := by
    by_cases hc : c' = c
    · subst hc
      rw [Worker.conns_setConn_self]
      exact hclosing
    · rw [Worker.conns_setConn_of_ne _ _ _ hc]
  cases h with
  | queues hopen hqueues =>
    cases hqueues with
    | failed bytes cap => exact hset rfl
    | queued hfront =>
      rw [Worker.queued_eq]
      exact hset rfl
  | refused => rfl
  | failed => rfl

/-- **A call is resumed**: whatever it replies, no connection is marked. -/
theorem resumeCall_attends {resume : Resume} (h : CallsAttended w)
    (hresume : resumeCall cfg env w resume = some w') : w.Attends w' := by
  obtain ⟨k, rest, call, hready, hcall, hend⟩ := resumeCall_cases hresume
  have hk : k ∈ w.ready := by
    rw [hready]
    exact List.mem_cons_self
  have hrest (t : ℕ) (ht : t ∈ rest) : t ∈ w.ready := by
    rw [hready]
    exact List.mem_cons_of_mem _ ht
  rcases hend with rfl | ⟨op, w₁, hattempts, rfl⟩
  · refine ⟨fun t ht called hcalled => ⟨?_, hcalled⟩, fun c hc hopen => ⟨hc, rfl, hopen⟩⟩
    rcases List.mem_append.mp ht with ht | ht
    · exact hrest t ht
    · rwa [List.mem_singleton.mp ht]
  · obtain ⟨-, hready₁, hcalls₁⟩ := hattempts.scheduler
    have hown := (h k hk call hcall).2.1
    refine ⟨fun t ht called hcalled => ?_, fun c hc hopen => ⟨?_, ?_, ?_⟩⟩
    · have ht₁ : t ∈ w₁.ready := ht
      rw [hready₁] at ht₁
      exact ⟨hrest t ht₁, hcalls₁ ▸ (callFree_calls hcalled).2⟩
    · exact hattempts.connections ▸ hc
    · exact (hattempts.holds hown).inst c
    · exact (hattempts.closing c).trans hopen

/-- **A completed call is drained**: a connection that is attached is not destroyed with it. -/
theorem drainOne_attends {done : List ℕ} (hinv : Inv ⟨w, [], d :: done, []⟩) :
    w.Attends (drainOne cfg env w d) := by
  have hholds := drainOne_holds cfg env hinv
  refine ⟨hholds.calls, fun c hc hopen => ?_⟩
  have hattached : (w.conns c).detached = false := (hinv.isOpen hc).1
  obtain ⟨w₁, w₂, hw₁, hw₂, heq⟩ := drainOne_eq cfg env w d
  obtain ⟨op, hattempts⟩ := replyDeferred_attempts cfg (env w.tick).mem w d
  rw [hw₁] at hattempts
  obtain ⟨n, hn, -⟩ := settleDeferred_conns w₁ d c
  have hconn : w₂.conns c = { w₁.conns c with pendingDeferred := n } := by
    rw [← hw₂]
    exact hn
  have hopen₂ : (w₂.conns c).closing = false := by
    rw [hconn]
    exact (hattempts.closing c).trans hopen
  have hattached₂ : (w₂.conns c).detached = false := by
    rw [hconn]
    exact ((hattempts.marks.2 c).detached).trans hattached
  have hlisted₂ : c ∈ w₂.connections := by
    rw [← hw₂]
    exact hattempts.connections ▸ hc
  have hinst := hholds.inst c
  rw [heq] at hinst ⊢
  split_ifs at hinst ⊢ with hgone
  · have hne : c ≠ (w.deferreds d).conn := by
      rintro rfl
      exact absurd (hattached₂.symm.trans hgone.1) (by decide)
    have hleaves : w₂.Leaves c (connectionDestroy cfg w₂ (w.deferreds d).conn) :=
      connectionDestroy_leaves cfg hne
    refine ⟨hleaves.listed hlisted₂, hinst, ?_⟩
    rw [connectionDestroy_of_ne cfg w₂ hne]
    exact hopen₂
  · exact ⟨hlisted₂, hinst, hopen₂⟩

/-- A new connection takes a slot that is not in use. -/
theorem workerAddConnection_attends {fd : Int} {fds : List Int}
    (hinv : Inv ⟨w, [], [], fd :: fds⟩) : w.Attends (workerAddConnection cfg env w fd) := by
  refine ⟨fun k hk call hcall => ?_, fun c hc hopen => ?_⟩
  · cases halloc : w.connectionArena.alloc with
    | none =>
      rw [workerAddConnection, halloc] at hk hcall
      exact ⟨hk, hcall⟩
    | some slot =>
      obtain ⟨c, arena⟩ := slot
      rw [workerAddConnection_eq halloc] at hk hcall
      split_ifs at hk hcall
      · exact ⟨hk, hcall⟩
      · exact (connectionDestroy_holds cfg (w.added c arena fd) c).calls k hk call hcall
  · have hleaves := @workerAddConnection_leaves cfg env w c fd fds hinv hc
    obtain ⟨n, hn⟩ := hleaves.same
    rw [hn]
    exact ⟨hleaves.listed hc, rfl, hopen⟩

/-- Closing a connection leaves the queued calls attended: they are of connections that are not
marked. -/
theorem CallsAttended.maybeClose (h : CallsAttended w) (c : ℕ) :
    CallsAttended (maybeClose cfg w c) := by
  unfold Wirecall.maybeClose
  simp only
  split_ifs with hclose
  · refine h.next ⟨(connectionDestroy_holds cfg w c).calls, fun c' hc' hopen => ?_⟩
    have hne : c' ≠ c := by
      rintro rfl
      exact absurd (hopen.symm.trans hclose.1) (by decide)
    rw [connectionDestroy_of_ne cfg w hne]
    exact ⟨(connectionDestroy_leaves cfg hne).listed hc', rfl, hopen⟩
  · exact h

/-- The actions of a wake-up and of a listener. -/
theorem attended_eventRule (cfg : ServerConfig) (env : ℕ → Env) :
    EventRule cfg env (fun _ => False) (fun _ => False) (fun _ => True) fun m =>
      Inv m ∧ CallsAttended m.worker := by
  have hinv := (inv_loopRule cfg env (fun _ => False) fun _ => True).toEventRule
  exact
    { isOpen := fun h hc => hinv.isOpen h.1 hc
      touch := fun _ _ _ _ _ _ _ hT => hT.elim
      handle := fun _ hT => hT.elim
      write := fun _ _ hT => hT.elim
      close := fun _ hU => hU.elim
      takeFds := fun h hK => ⟨hinv.takeFds h.1 hK, h.2.next (.of_eq rfl rfl rfl rfl)⟩
      add := fun h => ⟨hinv.add h.1, h.2.next (workerAddConnection_attends h.1)⟩
      takeDone := fun h => ⟨hinv.takeDone h.1, h.2.next (.of_eq rfl rfl rfl rfl)⟩
      drain := fun h => ⟨hinv.drain h.1, h.2.next (drainOne_attends h.1)⟩
      accept := fun fds h => ⟨hinv.accept fds h.1, h.2.next (.of_eq rfl rfl rfl rfl)⟩ }

end Attends

/-! ## Runs -/

section Runs

variable {cfg : ServerConfig} {env : ℕ → Env} {s s' : Loop} {l : Label}

theorem Quiet.allocated (h : Quiet cfg env s l) : Allocated s l := by
  cases l with
  | event recv send => exact h.1
  | _ => trivial

/-- **A quiet event keeps the queued calls attended.** -/
theorem CallsAttended.handleEvent (h : CallsAttended s.worker) (hinv : Inv s.worker.mid)
    (hmark : s.worker.Marked) {recv : List RecvResult} {send : List SendResult}
    (hquiet : Quiet cfg env s (.event recv send)) {event : Event} {batch : List Event}
    (hphase : s.phase = .events (event :: batch)) :
    CallsAttended (handleEvent cfg env s.worker recv send event) := by
  cases event with
  | wake =>
    have hadmits : Admits (fun _ => False) (fun _ => False) (fun _ => True) s.worker .wake := trivial
    exact ((attended_eventRule cfg env).handleEvent ⟨hinv, h⟩ recv send hadmits).2
  | listener fds => exact h.next (.of_eq rfl rfl rfl rfl)
  | conn c ready =>
    obtain ⟨hallocated, hevent⟩ := hquiet
    by_cases hc : c ∈ s.worker.connections
    · have hserves : s.worker.Serves c (serveEvent cfg env s.worker recv send c ready) :=
        serveEvent_serves (hinv.isOpen hc) recv send ready
      have hcalls := (hevent (c, ready) (by rw [hphase]; rfl)).calls
      exact (h.serve hserves hc hcalls).maybeClose c
    · -- a connection that only waits for its deferred calls
      have hlive : s.worker.connectionArena.Live c := hallocated c (by rw [hphase]; rfl)
      rw [hmark.handleEvent hinv hlive hc]
      exact h

/-- **Every step of a quiet run keeps the queued calls attended.** At the end of an iteration none is
left, so what is flushed then does not matter. -/
theorem CallsAttended.step (h : CallsAttended s.worker) (hinv : Inv s.worker.mid)
    (hmark : s.worker.Marked) (hquiet : Quiet cfg env s l) (hstep : s.step cfg env l = some s') :
    CallsAttended s'.worker := by
  cases l with
  | poll batch =>
    simp only [Loop.step] at hstep
    split_ifs at hstep
    cases hstep
    exact h
  | event recv send =>
    simp only [Loop.step] at hstep
    split at hstep
    · rename_i event batch hphase
      cases hstep
      exact h.handleEvent hinv hmark hquiet hphase
    · cases hstep
  | schedule =>
    simp only [Loop.step] at hstep
    split_ifs at hstep
    cases hstep
    exact h
  | resume resume =>
    simp only [Loop.step] at hstep
    split_ifs at hstep
    obtain ⟨w', hw', rfl⟩ := Option.map_eq_some_iff.mp hstep
    exact h.next (resumeCall_attends h hw')
  | finish scripts =>
    simp only [Loop.step] at hstep
    split_ifs at hstep with hphase
    cases hstep
    -- the iteration ends when no call is queued, and flushing queues none
    obtain ⟨hready, -⟩ := @flushWrites_settled cfg env (drainCompleted cfg env s.worker) scripts
      ((drainCompleted_ready cfg env s.worker).trans hphase.2)
    intro k hk
    dsimp only at hk
    rw [hready] at hk
    cases hk
  | complete d completion =>
    simp only [Loop.step] at hstep
    split_ifs at hstep
    cases hstep
    obtain ⟨deferreds, completed, log, heq⟩ := complete_eq s.worker d completion
    rw [heq]
    exact h.next (.of_eq rfl rfl rfl rfl)
  | accept fd =>
    cases hstep
    exact h.next (.of_eq rfl rfl rfl rfl)

/-- What holds in every state of a quiet run. -/
theorem attended_of_exec {labels : List Label}
    (hquiet : Machine.Meets (Loop.step cfg env) (Quiet cfg env) Loop.init labels)
    (hrun : Machine.exec (Loop.step cfg env) Loop.init labels = some s) :
    CallsAttended s.worker ∧ Inv s.worker.mid ∧ s.worker.Marked := by
  have hmarked := marked_loopRule cfg env (fun _ => True) fun _ => True
  have hinit : CallsAttended Loop.init.worker := by
    intro k hk
    cases hk
  refine Machine.exec_invariant
    (P := fun s : Loop => CallsAttended s.worker ∧ Inv s.worker.mid ∧ s.worker.Marked) ?_
    ⟨hinit, inv_workerInit, fun _ hlive => absurd hlive (Arena.not_live_init _ _)⟩ hquiet hrun
  rintro s l s' ⟨hattended, hinv, hmark⟩ hquiet hstep
  obtain ⟨-, hinv', hmark'⟩ := hmarked.stepFrom (fun _ _ _ => trivial) ⟨hinv, hmark⟩ hinv hmark
    hquiet.allocated (.of_forall (fun _ => trivial) s l) hstep
  exact ⟨hattended.step hinv hmark hquiet hstep, hinv', hmark'⟩

end Runs

/-- **Nothing runs for a connection that is marked for closing.** In every run of the worker loop,
with any number of connections and with every byte stream cut in any way, whose events are quiet:
`handle_packet` is called only on a connection that is not marked, and the handler of a call is
entered or resumed only while the connection that made the call is in its slot, attached and not
marked. -/
theorem closing_not_dispatched (cfg : ServerConfig) {env : ℕ → Env} {labels : List Label} {s : Loop}
    {l : Label} (hquiet : Machine.Meets (Loop.step cfg env) (Quiet cfg env) Loop.init labels)
    (hrun : Machine.exec (Loop.step cfg env) Loop.init labels = some s)
    (hnext : Quiet cfg env s l) :
    (∀ recv send c ready, l = .event recv send → s.phase.connEvent = some (c, ready) →
      ∀ w, .dispatch w ∈ eventPoints cfg env s.worker recv c ready → (w.conns c).closing = false) ∧
    ∀ call, s.resumes l = some call → call.conn ∈ s.worker.connections ∧
      (s.worker.conns call.conn).inst = call.request.inst ∧
      (s.worker.conns call.conn).closing = false := by
  obtain ⟨hattended, hinv, hmark⟩ := attended_of_exec hquiet hrun
  refine ⟨?_, fun call hcall => ?_⟩
  · rintro recv send c ready rfl hevent w hw
    obtain ⟨hallocated, hquiet⟩ := hnext
    have hlast := (hquiet (c, ready) hevent).last
    unfold eventPoints at hw hlast
    split_ifs at hw hlast with hreads
    · -- a connection that is read is attached: those that are not are marked
      have hlive : s.worker.connectionArena.Live c := hallocated c (Phase.target_of_connEvent hevent)
      have hattached : (s.worker.conns c).detached = false := by
        by_contra hdetached
        have hmarked := hmark c hlive (by simpa using hdetached)
        exact absurd (hreads.2.symm.trans hmarked) (by decide)
      have hc := (hinv.conn.mem_connections c).mpr ⟨hlive, hattached⟩
      exact readPoints_not_closing (hinv.isOpen hc) hreads.2 (fun w' hw' => hlast _ hw') _ hw w rfl
    · cases hw
  · cases l with
    | resume resume =>
      obtain ⟨k, hk, hcall⟩ := Option.bind_eq_some_iff.mp hcall
      exact hattended k (List.mem_of_mem_head? hk) call hcall
    | _ => cases hcall

/-- Two connections: the second sends a PING and a DISCONNECT and is marked, while a call of the
first is queued. The call is resumed, for a connection that is not marked. -/
theorem closing_not_dispatched_two :
    let labels := connecting 3 ++ connecting 4 ++
      [.poll [.conn 0 ⟨true, false⟩, .conn 1 ⟨true, false⟩], .event [.data (callBytes 7)] [],
        .event [.data pingThenDisconnect] [], .schedule]
    ∃ s call, Machine.exec (Loop.step .plain fun _ => asyncEnv) Loop.init labels = some s ∧
      s.resumes (.resume returnsZero) = some call ∧ call.ctx.callId = 7 ∧
      (s.worker.conns 1).closing = true ∧ call.conn ∈ s.worker.connections ∧
      (s.worker.conns call.conn).closing = false := by
  intro labels
  have hrun : (Machine.exec (Loop.step .plain fun _ => asyncEnv) Loop.init labels).any
      (fun s => decide ((s.worker.conns 1).closing = true) &&
        (s.resumes (.resume returnsZero)).any fun call => decide (call.ctx.callId = 7)) = true := by
    decide +kernel
  obtain ⟨s, hs, hfacts⟩ := Machine.exists_of_any hrun
  obtain ⟨hmarked, hany⟩ := Bool.and_eq_true_iff.mp hfacts
  obtain ⟨call, hcall, hid⟩ := (Option.any_eq_true _ _).mp hany
  obtain ⟨-, hresumes⟩ := closing_not_dispatched .plain (by decide +kernel) hs
    (l := .resume returnsZero) trivial
  obtain ⟨hlisted, -, hopen⟩ := hresumes call hcall
  exact ⟨s, call, hs, hcall, of_decide_eq_true hid, of_decide_eq_true hmarked, hlisted, hopen⟩

/-- **A handler that runs after closing**: a call of an async procedure and a DISCONNECT arrive
together. The DISCONNECT is the last packet of the buffer, and it marks the connection while the call
is queued. The connection is destroyed with the event, and its handler is entered afterwards. -/
theorem handler_run_after_disconnect :
    let labels := connecting 3 ++
      [.poll [.conn 0 ⟨true, false⟩],
        .event [.data (callBytes 7 ++ pingThenDisconnect.drop 34)] [], .schedule]
    ∃ s call, Machine.exec (Loop.step .plain fun _ => asyncEnv) Loop.init labels = some s ∧
      s.resumes (.resume returnsZero) = some call ∧ call.request.inst = 0 ∧
      s.worker.connections = [] ∧ (s.worker.conns call.conn).closing = true ∧
      (s.step .plain (fun _ => asyncEnv) (.resume returnsZero)).isSome = true := by
  intro labels
  have hrun : (Machine.exec (Loop.step .plain fun _ => asyncEnv) Loop.init labels).any
      (fun s => (s.resumes (.resume returnsZero)).any fun call =>
        decide (call.request.inst = 0 ∧ s.worker.connections = [] ∧
          (s.worker.conns call.conn).closing = true ∧
          (s.step .plain (fun _ => asyncEnv) (.resume returnsZero)).isSome = true)) = true := by
    decide +kernel
  obtain ⟨s, hs, hfacts⟩ := Machine.exists_of_any hrun
  obtain ⟨call, hcall, hdecided⟩ := (Option.any_eq_true _ _).mp hfacts
  exact ⟨s, call, hs, hcall, of_decide_eq_true hdecided⟩

end Wirecall

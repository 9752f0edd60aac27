import Wirecall.Server.Reading

/-!
# The worker loop

`worker_run`: a batch of events is handled one by one, then the scheduler runs until no call is
ready, the completed deferred calls are drained and the queued output is written. Between any two
of these steps other threads may complete deferred calls or hand over accepted sockets.

## Main definitions

* `workerAddConnection`, `drainPending`, `drainCompleted`, `flushWrites`, `resumeCall`: the parts
* `Event`, `handleEvent`: an event of a batch
* `Phase`, `Loop`, `Label`, `Loop.step`: the loop as a labelled transition system
-/

namespace Wirecall

/-- `worker_add_connection`. -/
def workerAddConnection (cfg : ServerConfig) (env : ℕ → Env) (w : Worker) (fd : Int) : Worker :=
  match w.connectionArena.alloc with
  | none => w
  | some (c, arena) =>
    let added :=
      { w.setConn c { Conn.zero with fd := fd, inst := w.nextInst } with
        connectionArena := arena
        connections := c :: w.connections
        nextInst := w.nextInst + 1
        tick := w.tick + 1 }
    if (env w.tick).register then
      added.setConn c { added.conns c with interests := ⟨true, false⟩ }
    else connectionDestroy cfg added c

/-- `worker_drain_pending`. -/
def drainPending (cfg : ServerConfig) (env : ℕ → Env) (w : Worker) : Worker :=
  w.pendingFds.foldl (fun w fd => workerAddConnection cfg env w fd) { w with pendingFds := [] }

/-- The reply `worker_drain_completed` queues for a call, unless its connection is gone. -/
def replyDeferred (cfg : ServerConfig) (mem : Mem) (w : Worker) (d : ℕ) : Worker :=
  let call := w.deferreds d
  let conn := w.conns call.conn
  if conn.detached = false ∧ conn.closing = false then
    if call.result = 0 then
      (queuePacket cfg mem w call.conn call.request .response call.procId call.callId
        call.response).2
    else
      (queueStringError cfg mem w call.conn call.request call.procId call.callId
        (if call.error ≠ [] then call.error else text "deferred procedure failed")).2
  else w

/-- The call is no longer counted on its connection, and its slot is given back. -/
def settleDeferred (w : Worker) (d : ℕ) : Worker :=
  let c := (w.deferreds d).conn
  let conn := w.conns c
  let pending := if conn.pendingDeferred > 0 then conn.pendingDeferred - 1 else 0
  deferredFree
    { w.setConn c { conn with pendingDeferred := pending } with
      undrained := w.undrained.erase d } d

/-- One turn of `worker_drain_completed`. -/
def drainOne (cfg : ServerConfig) (env : ℕ → Env) (w : Worker) (d : ℕ) : Worker :=
  let c := (w.deferreds d).conn
  let w := settleDeferred (replyDeferred cfg (env w.tick).mem w d) d
  let w := { w with tick := w.tick + 1 }
  if (w.conns c).detached ∧ (w.conns c).pendingDeferred = 0 then connectionDestroy cfg w c else w

/-- `worker_drain_completed`. -/
def drainCompleted (cfg : ServerConfig) (env : ℕ → Env) (w : Worker) : Worker :=
  w.completed.foldl (fun w d => drainOne cfg env w d) { w with completed := [] }

/-- One turn of `worker_flush_writes`. Both branches of the source write. -/
def flushOne (cfg : ServerConfig) (env : ℕ → Env) (scripts : ℕ → List SendResult) (w : Worker)
    (c : ℕ) : Worker :=
  let w := w.setConn c { w.conns c with writeQueued := false }
  let w :=
    if (w.conns c).writeOff < (w.conns c).writeBuf.length then
      connectionWrite env w c (scripts c)
    else w
  maybeClose cfg w c

/-- `worker_flush_writes`. -/
def flushWrites (cfg : ServerConfig) (env : ℕ → Env) (scripts : ℕ → List SendResult)
    (w : Worker) : Worker :=
  w.pendingWrites.foldl (fun w c => flushOne cfg env scripts w c) { w with pendingWrites := [] }

/-! ## The scheduler -/

/-- What one resume of a coroutine leads to. -/
inductive Resume where
  | yields
  | returns (outcome : HandlerOutcome)
  /-- `mco_resume` fails, with the description of its error. -/
  | fails (description : List UInt8)

/-- How a call ends that does not yield again. -/
def Resume.callEnd : Resume → Option CallEnd
  | .yields => none
  | .returns outcome =>
    if outcome.result = 0 then some (.response outcome.response)
    else some (.failed (errorText (text s!"procedure returned {outcome.result}")))
  | .fails description =>
    some (.failed (errorText (text "coroutine resume failed: " ++ description)))

/-- One turn of `wirecall_scheduler_run_ready`, if a call is ready. -/
def resumeCall (cfg : ServerConfig) (env : ℕ → Env) (w : Worker) (resume : Resume) :
    Option Worker :=
  match w.ready with
  | [] => none
  | k :: rest =>
    match w.calls k with
    | none => none
    | some call =>
      let mem := (env w.tick).mem
      let w := { w with ready := rest, tick := w.tick + 1 }
      match resume.callEnd with
      | none => some { w with ready := w.ready ++ [k] }
      | some callEnd => some (callFree (onCallDone cfg mem w call callEnd) k)

/-! ## The loop -/

/-- An event of a batch. A listener hands the accepted sockets over to workers; `fds` are those
that this worker gets. -/
inductive Event where
  | wake
  | listener (fds : List ℕ)
  | conn (c : ℕ) (ready : Interest)
  deriving DecidableEq, Repr

/-- The handling of one event. -/
def handleEvent (cfg : ServerConfig) (env : ℕ → Env) (w : Worker) (recv : List RecvResult)
    (send : List SendResult) : Event → Worker
  | .wake => drainCompleted cfg env (drainPending cfg env w)
  | .listener fds => { w with pendingFds := w.pendingFds ++ fds.map Int.ofNat }
  | .conn c ready =>
    let w := if ready.read ∧ (w.conns c).closing = false then connectionRead cfg env c recv w else w
    let w := if ready.write ∧ (w.conns c).closing = false then connectionWrite env w c send else w
    maybeClose cfg w c

/-- Where the loop is. -/
inductive Phase where
  | poll
  | events (batch : List Event)
  | schedule
  deriving DecidableEq, Repr

/-- A worker in its loop. -/
structure Loop where
  worker : Worker
  phase : Phase

/-- A step of the loop, or of another thread. -/
inductive Label where
  /-- `wirecall_backend_poll` returns a batch. -/
  | poll (batch : List Event)
  /-- The next event is handled; the lists are what the socket calls return. -/
  | event (recv : List RecvResult) (send : List SendResult)
  /-- The batch is done. -/
  | schedule
  /-- The next ready call is resumed. -/
  | resume (resume : Resume)
  /-- No call is ready: the iteration is finished. -/
  | finish (scripts : ℕ → List SendResult)
  /-- A thread completes a deferred call that was not drained yet. -/
  | complete (d : ℕ) (completion : Completion)
  /-- Another worker hands over an accepted socket. -/
  | accept (fd : ℕ)

/-- The transitions of the loop. -/
def Loop.step (cfg : ServerConfig) (env : ℕ → Env) (s : Loop) : Label → Option Loop
  | .poll batch => if s.phase = .poll then some { s with phase := .events batch } else none
  | .event recv send =>
    match s.phase with
    | .events (event :: batch) =>
      some ⟨handleEvent cfg env s.worker recv send event, .events batch⟩
    | _ => none
  | .schedule => if s.phase = .events [] then some { s with phase := .schedule } else none
  | .resume resume =>
    if s.phase = .schedule then
      (resumeCall cfg env s.worker resume).map fun w => { s with worker := w }
    else none
  | .finish scripts =>
    if s.phase = .schedule ∧ s.worker.ready = [] then
      some ⟨flushWrites cfg env scripts (drainCompleted cfg env s.worker), .poll⟩
    else none
  | .complete d completion =>
    if d ∈ s.worker.undrained then some { s with worker := complete s.worker d completion }
    else none
  | .accept fd => some { s with worker := { s.worker with
      pendingFds := s.worker.pendingFds ++ [Int.ofNat fd] } }

/-- A worker that starts its loop. -/
def Loop.init : Loop := ⟨workerInit, .poll⟩

/-- An iteration in which an accepted socket is added as a connection. -/
def connecting (fd : ℕ) : List Label :=
  [.accept fd, .poll [.wake], .event [] [], .schedule, .finish fun _ => []]

end Wirecall

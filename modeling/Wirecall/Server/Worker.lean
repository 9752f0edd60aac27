import Wirecall.Backend.Interests
import Wirecall.Memory.FixedArena
import Wirecall.Payload.Decode
import Wirecall.Protocol.Packet
import Wirecall.Routes.Table

/-!
# A worker and its connections

The state of one worker of `server.c`: the slots of its connections, deferred calls and scheduler
calls with the arenas they come from, the intrusive lists as lists of slots, and the queues other
threads append to. Beside the fields of the source the state keeps a record of what happened:
which connection a slot holds, what was received and sent on it, which requests were dispatched,
which replies were queued and which slots were given back.

What the worker does not decide is an environment: the answers of the allocator and of the
backend, the route table at the moment of a lookup, and what handlers do.

## Main definitions

* `Conn`, `Deferred`, `Call`, `Worker`: the state
* `Env`: the environment of one dispatch, drain or registration
* `Entry`: the record
* `workerQueueWrite`, `queuePacket`, `queueStringError`: queueing output
* `connectionDestroy`, `maybeClose`: the end of a connection

## Main results

* `queuePacket_cases`: a packet is queued whole, or a buffer could not grow
* `queueStringError_cases`: the same for an error message
* `queuePacket_attempts`, `queueStringError_attempts`: the same on any slot
-/

namespace Wirecall

/-- A payload a handler wrote. The writer it writes to never holds more than 1 MiB. -/
structure Response where
  data : List UInt8
  len_le : data.length ≤ maxPayloadSize

/-- `wirecall_ctx`. -/
structure Ctx where
  callId : UInt64
  procId : UInt64
  deriving DecidableEq, Repr

/-- What a handler did: its return value and what it wrote. -/
structure HandlerOutcome where
  result : Int
  response : Response

/-- A call of `wirecall_deferred_complete`, after the response was written, or of
`wirecall_deferred_fail`. -/
inductive Completion where
  | complete (response : Response)
  | fail (message : Option (List UInt8))

/-- What a deferred handler did before it returned: its return value and the completions of its
own call, by any thread. -/
structure DeferredOutcome where
  result : Int
  completions : List Completion

/-- What decides a step of a worker from outside. -/
structure Env where
  /-- The allocator, for output and input buffers. -/
  mem : Mem
  /-- The allocator, for decoded values. -/
  decodeMem : DecodeMem
  /-- The allocator, for the copy of a payload. -/
  payloadMem : Bool
  /-- `mco_create`: the description of its error, if it fails. -/
  coroutine : Option (List UInt8)
  /-- The route table when it is looked up. -/
  lookup : UInt64 → Option Route
  handler : Route → Ctx → List Value → HandlerOutcome
  deferred : Route → Ctx → List Value → DeferredOutcome
  /-- Whether `wirecall_backend_modify` succeeds. -/
  modify : Bool
  /-- Whether `wirecall_backend_register` succeeds. -/
  register : Bool

/-- Nothing is short and every call of the backend succeeds. -/
def Env.plenty (lookup : UInt64 → Option Route) (handler : Route → Ctx → List Value → HandlerOutcome)
    (deferred : Route → Ctx → List Value → DeferredOutcome) : Env where
  mem := fun _ => true
  decodeMem := .granting
  payloadMem := true
  coroutine := none
  lookup := lookup
  handler := handler
  deferred := deferred
  modify := true
  register := true

/-- Nothing is short, and there are no routes. -/
def Env.quiet : Env :=
  .plenty (fun _ => none) (fun _ _ _ => ⟨-1, ⟨[], Nat.zero_le _⟩⟩) (fun _ _ _ => ⟨-1, []⟩)

/-- The settings of a server. The key is an array of the server, so there always is one. -/
structure ServerConfig where
  integrity : Integrity
  key_isSome : integrity.macKey.isSome
  /-- The address of the connection arena. -/
  arenaBase : ℕ

/-- The settings after `wirecall_server_set_integrity` with the mode 0: neither a checksum nor a MAC is
checked. -/
def ServerConfig.plain : ServerConfig where
  integrity := ⟨.little, 0, some (List.replicate 16 0)⟩
  key_isSome := rfl
  arenaBase := 0

/-- A request: the connection it arrived on and its number among all dispatches. -/
structure Request where
  inst : ℕ
  tick : ℕ
  deriving DecidableEq, Repr

/-- `wirecall_connection`. A buffer is its bytes below the length field. -/
structure Conn where
  fd : Int
  readBuf : List UInt8
  readCap : ℕ
  writeBuf : List UInt8
  writeCap : ℕ
  writeOff : ℕ
  interests : Interest
  closing : Bool
  detached : Bool
  writeQueued : Bool
  pendingDeferred : UInt32
  /-- Which connection the slot holds: the number of its allocation. -/
  inst : ℕ
  /-- The bytes received on it so far. -/
  received : List UInt8
  /-- The bytes the socket accepted so far. -/
  sent : List UInt8
  /-- How often bytes were offered to the socket. -/
  offers : ℕ
  deriving DecidableEq, Repr

/-- A slot after `memset`. -/
def Conn.zero : Conn where
  fd := 0
  readBuf := []
  readCap := 0
  writeBuf := []
  writeCap := 0
  writeOff := 0
  interests := ⟨false, false⟩
  closing := false
  detached := false
  writeQueued := false
  pendingDeferred := 0
  inst := 0
  received := []
  sent := []
  offers := 0

/-- `wirecall_deferred`. -/
structure Deferred where
  conn : ℕ
  callId : UInt64
  procId : UInt64
  response : List UInt8
  result : Int
  error : List UInt8
  completed : Bool
  request : Request
  deriving DecidableEq, Repr

/-- A slot after `memset`. -/
def Deferred.zero : Deferred := ⟨0, 0, 0, [], 0, [], false, ⟨0, 0⟩⟩

/-- `wirecall_call`, a call of the scheduler. `done_data` is its connection. -/
structure Call where
  conn : ℕ
  ctx : Ctx
  handler : ℕ
  handlerData : ℕ
  args : List Value
  request : Request
  deriving DecidableEq

/-- The record of a worker. -/
inductive Entry where
  /-- `parse_available` hands a packet to `handle_packet`. `slotFree` says whether the deferred
  arena has a slot left. -/
  | dispatched (request : Request) (header : Header) (payload : List UInt8) (slotFree : Bool)
  /-- A packet is queued on the connection `target`, in answer to `request`. -/
  | reply (target : ℕ) (request : Request) (op : Op) (procId callId : UInt64)
  /-- A thread completes or fails the deferred call of `request`. -/
  | completion (request : Request) (ok : Bool)
  /-- The slot of a connection is given back, while `pointing` deferred calls point to it. -/
  | freed (slot inst : ℕ) (detached : Bool) (pointing : ℕ)
  deriving DecidableEq

/-- `wirecall_worker` and its scheduler. -/
structure Worker where
  conns : ℕ → Conn
  connectionArena : Arena
  connections : List ℕ
  pendingWrites : List ℕ
  deferreds : ℕ → Deferred
  deferredArena : Arena
  completed : List ℕ
  pendingFds : List Int
  calls : ℕ → Option Call
  callArena : Arena
  ready : List ℕ
  /-- The deferred calls that were issued and not yet drained. -/
  undrained : List ℕ
  nextInst : ℕ
  tick : ℕ
  log : List Entry
  /-- A buffer for a reply could not grow. -/
  queueFailed : Bool
  /-- A buffer for input could not grow. -/
  readFailed : Bool

/-- `worker_init`. -/
def workerInit : Worker where
  conns := fun _ => .zero
  connectionArena := .init 65536
  connections := []
  pendingWrites := []
  deferreds := fun _ => .zero
  deferredArena := .init 262144
  completed := []
  pendingFds := []
  calls := fun _ => none
  callArena := .init 262144
  ready := []
  undrained := []
  nextInst := 0
  tick := 0
  log := []
  queueFailed := false
  readFailed := false

namespace Worker

/-- The store of a connection into its slot. -/
def setConn (w : Worker) (c : ℕ) (conn : Conn) : Worker :=
  { w with conns := Function.update w.conns c conn }

/-- An entry of the record. -/
def logEntry (w : Worker) (entry : Entry) : Worker := { w with log := w.log ++ [entry] }

/-- `conn->closing = 1`. -/
def setClosing (w : Worker) (c : ℕ) : Worker := w.setConn c { w.conns c with closing := true }

/-- A slot of the deferred arena is taken for a call. -/
def takeDeferred (w : Worker) (d : ℕ) (arena : Arena) (call : Deferred) : Worker :=
  { w with deferredArena := arena, deferreds := Function.update w.deferreds d call }

/-- A slot of the call arena is taken for a call. -/
def takeCall (w : Worker) (k : ℕ) (arena : Arena) (call : Call) : Worker :=
  { w with callArena := arena, calls := Function.update w.calls k (some call) }

/-- `enqueue` of a call that can start. -/
def startCall (w : Worker) (k : ℕ) (call : Call) : Worker :=
  { w with calls := Function.update w.calls k (some call), ready := w.ready ++ [k] }

/-- A buffer for a reply could not grow. -/
def failQueue (w : Worker) : Worker := { w with queueFailed := true }

/-- The undrained deferred calls that point to a slot. -/
def pointing (w : Worker) (c : ℕ) : ℕ := w.undrained.countP fun d => (w.deferreds d).conn == c

end Worker

/-! ## Queueing output -/

/-- `worker_queue_write`. -/
def workerQueueWrite (w : Worker) (c : ℕ) : Worker :=
  if (w.conns c).writeQueued then w
  else
    { w.setConn c { w.conns c with writeQueued := true } with
      pendingWrites := c :: w.pendingWrites }

/-- `queue_packet`, in answer to `request`. -/
def queuePacket (cfg : ServerConfig) (mem : Mem) (w : Worker) (c : ℕ) (request : Request)
    (op : Op) (procId callId : UInt64) (payload : List UInt8) : Rc × Worker :=
  let conn := w.conns c
  if conn.detached ∨ conn.fd < 0 then (.err, w)
  else if payload.length > maxPayloadSize then (.err, w)
  else match signedHeader cfg.integrity op procId callId payload with
    | none => (.err, w)
    | some header =>
      match appendBytes mem conn.writeBuf conn.writeCap header with
      | none => (.err, w.failQueue)
      | some (buf, cap) =>
        let w := w.setConn c { conn with writeBuf := buf, writeCap := cap }
        match appendBytes mem buf cap payload with
        | none => (.err, w.failQueue)
        | some (buf, cap) =>
          let w := w.setConn c { conn with writeBuf := buf, writeCap := cap }
          (.ok, (workerQueueWrite w c).logEntry (.reply conn.inst request op procId callId))

/-- The value `queue_string_error` writes. -/
def stringBlob (message : List UInt8) : Blob := .copy message (UInt32.ofNat message.length)

/-- `queue_string_error`. -/
def queueStringError (cfg : ServerConfig) (mem : Mem) (w : Worker) (c : ℕ) (request : Request)
    (procId callId : UInt64) (message : List UInt8) : Rc × Worker :=
  match writerString mem writerInit (stringBlob message) with
  | (.err, _) => (.err, w.failQueue)
  | (.ok, writer) => queuePacket cfg mem w c request .error procId callId writer.data

/-! ## The end of a connection -/

/-- The low half of the word `wirecall_fixed_arena_free` writes over the start of a slot, where
a connection keeps its `fd`. A connection takes 112 bytes. -/
def linkWord (base : ℕ) : List ℕ → Int
  | [] => 0
  | s :: _ => (BitVec.ofNat 32 (base + s * 112)).toInt

/-- The slot is given back to the connection arena. -/
def freeConnection (cfg : ServerConfig) (w : Worker) (c : ℕ) : Worker :=
  let conn := w.conns c
  { w.setConn c { conn with fd := linkWord cfg.arenaBase w.connectionArena.freeList } with
    connectionArena := w.connectionArena.free c
    log := w.log ++ [.freed c conn.inst conn.detached (w.pointing c)] }

/-- The part of `connection_destroy` that a connection goes through once: the socket is closed,
the buffers are freed and the connection leaves both lists. -/
def detachConnection (w : Worker) (c : ℕ) : Worker :=
  let conn := w.conns c
  { w.setConn c
      { conn with
        fd := -1
        readBuf := []
        readCap := 0
        writeBuf := []
        writeCap := 0
        writeOff := 0
        writeQueued := false
        detached := true } with
    connections := w.connections.erase c
    pendingWrites := if conn.writeQueued then w.pendingWrites.erase c else w.pendingWrites }

/-- `connection_destroy`. -/
def connectionDestroy (cfg : ServerConfig) (w : Worker) (c : ℕ) : Worker :=
  let w := if (w.conns c).detached then w else detachConnection w c
  if (w.conns c).pendingDeferred ≠ 0 then w else freeConnection cfg w c

/-- `maybe_close`. -/
def maybeClose (cfg : ServerConfig) (w : Worker) (c : ℕ) : Worker :=
  let conn := w.conns c
  if conn.closing ∧ conn.writeBuf.length = conn.writeOff then connectionDestroy cfg w c else w

/-! ## Slots of connections -/

namespace Worker

variable (w : Worker) (c : ℕ) (conn : Conn)

@[simp] theorem conns_setConn_self : (w.setConn c conn).conns c = conn := by
  simp only [setConn, Function.update_self]

theorem conns_setConn_of_ne {c' : ℕ} (h : c' ≠ c) : (w.setConn c conn).conns c' = w.conns c' := by
  simp only [setConn, Function.update_of_ne h]

@[simp] theorem setConn_setConn (conn' : Conn) :
    (w.setConn c conn).setConn c conn' = w.setConn c conn' := by
  simp only [setConn, Function.update_idem]

@[simp] theorem setConn_self : w.setConn c (w.conns c) = w := by
  simp only [setConn, Function.update_eq_self]

/-- A connection is put on the list of pending writes unless it is there. -/
theorem workerQueueWrite_eq :
    workerQueueWrite w c = { w.setConn c { w.conns c with writeQueued := true } with
      pendingWrites :=
        if (w.conns c).writeQueued then w.pendingWrites else c :: w.pendingWrites } := by
  unfold workerQueueWrite
  split_ifs with hqueued
  · have hsame : { w.conns c with writeQueued := true } = w.conns c := by rw [← hqueued]
    rw [hsame, setConn_self]
  · rfl

/-- The worker after a packet was queued on a connection: the buffer holds it, the connection is
on the list of pending writes, and the reply is on record. -/
def queued (entry : Entry) : Worker := (workerQueueWrite (w.setConn c conn) c).logEntry entry

theorem queued_eq (entry : Entry) :
    w.queued c conn entry = { w.setConn c { conn with writeQueued := true } with
      pendingWrites := if conn.writeQueued then w.pendingWrites else c :: w.pendingWrites
      log := w.log ++ [entry] } := by
  rw [queued, workerQueueWrite_eq, conns_setConn_self, setConn_setConn]
  rfl

end Worker

/-! ## What queueing does -/

/-- The connection takes output: it is attached and has a socket. -/
def Conn.Open (conn : Conn) : Prop := conn.detached = false ∧ 0 ≤ conn.fd

instance (conn : Conn) : Decidable conn.Open :=
  inferInstanceAs (Decidable (conn.detached = false ∧ 0 ≤ conn.fd))

/-- Bytes are added to the output of a connection. -/
def Conn.appendOut (conn : Conn) (bytes : List UInt8) (cap : ℕ) : Conn :=
  { conn with writeBuf := conn.writeBuf ++ bytes, writeCap := cap }

/-- What an attempt to queue a packet comes to: the whole packet is queued, or a buffer could not
grow and part of it may be left in the output. -/
inductive Queues (cfg : ServerConfig) (w : Worker) (c : ℕ) (request : Request) (op : Op)
    (procId callId : UInt64) (payload : List UInt8) : Rc × Worker → Prop
  | queued {front : List UInt8} {cap : ℕ}
      (hfront : signedHeader cfg.integrity op procId callId payload = some front) :
      Queues cfg w c request op procId callId payload
        (.ok, w.queued c ((w.conns c).appendOut (front ++ payload) cap)
          (.reply (w.conns c).inst request op procId callId))
  | failed (bytes : List UInt8) (cap : ℕ) :
      Queues cfg w c request op procId callId payload
        (.err, (w.setConn c ((w.conns c).appendOut bytes cap)).failQueue)

/-- An attempt that leaves the output as it was. -/
theorem Queues.refused {cfg : ServerConfig} {w : Worker} {c : ℕ} {request : Request} {op : Op}
    {procId callId : UInt64} {payload : List UInt8} :
    Queues cfg w c request op procId callId payload (.err, w.failQueue) := by
  have hsame : (w.conns c).appendOut [] (w.conns c).writeCap = w.conns c := by
    rw [Conn.appendOut, List.append_nil]
  have hfailed : Queues cfg w c request op procId callId payload _ :=
    .failed [] (w.conns c).writeCap
  rwa [hsame, Worker.setConn_self] at hfailed

/-- The connection after an attempt that did not run out of memory. -/
theorem Queues.conns_or_failed {cfg : ServerConfig} {w : Worker} {c : ℕ} {request : Request}
    {op : Op} {procId callId : UInt64} {payload : List UInt8} {result : Rc × Worker}
    (h : Queues cfg w c request op procId callId payload result) :
    result.2.queueFailed = true ∨ ∃ front cap,
      signedHeader cfg.integrity op procId callId payload = some front ∧
      result.2.conns c =
        { (w.conns c).appendOut (front ++ payload) cap with writeQueued := true } := by
  cases h with
  | failed bytes cap => exact .inl rfl
  | @queued front cap hfront =>
    refine .inr ⟨front, cap, hfront, ?_⟩
    rw [Worker.queued_eq]
    exact Worker.conns_setConn_self _ _ _

/-- An attempt changes connections, the list of pending writes and the record, and nothing else. -/
theorem Queues.eq {cfg : ServerConfig} {w : Worker} {c : ℕ} {request : Request} {op : Op}
    {procId callId : UInt64} {payload : List UInt8} {result : Rc × Worker}
    (h : Queues cfg w c request op procId callId payload result) :
    ∃ conns writes entries failed,
      (entries = [] ∨ entries = [.reply (w.conns c).inst request op procId callId]) ∧
      result.2 = { w with
        conns := conns, pendingWrites := writes, log := w.log ++ entries, queueFailed := failed } := by
  cases h with
  | failed bytes cap =>
    refine ⟨(w.setConn c ((w.conns c).appendOut bytes cap)).conns, w.pendingWrites, [], true,
      .inl rfl, ?_⟩
    rw [List.append_nil]
    rfl
  | queued hfront =>
    rw [Worker.queued_eq]
    exact ⟨_, _, _, w.queueFailed, .inr rfl, rfl⟩

/-- **A packet is queued whole, or a buffer could not grow.** -/
theorem queuePacket_cases (cfg : ServerConfig) (mem : Mem) {w : Worker} {c : ℕ}
    (hopen : (w.conns c).Open) (request : Request) (op : Op) (procId callId : UInt64)
    {payload : List UInt8} (hlen : payload.length ≤ maxPayloadSize) :
    Queues cfg w c request op procId callId payload
      (queuePacket cfg mem w c request op procId callId payload) := by
  obtain ⟨front, checksum, mac, hfront, -⟩ := exists_signedHeader cfg.key_isSome op procId callId hlen
  have hclosed : ¬ ((w.conns c).detached = true ∨ (w.conns c).fd < 0) := by
    rw [hopen.1]
    simpa using hopen.2
  unfold queuePacket
  simp only
  rw [if_neg hclosed, if_neg (by omega), hfront]
  simp only
  cases happ : appendBytes mem (w.conns c).writeBuf (w.conns c).writeCap front with
  | none => exact .refused
  | some grown =>
    obtain ⟨buf, cap⟩ := grown
    obtain rfl := appendBytes_eq_some happ
    simp only
    cases happ' : appendBytes mem ((w.conns c).writeBuf ++ front) cap payload with
    | none => exact .failed front cap
    | some grown' =>
      obtain ⟨buf', cap'⟩ := grown'
      obtain rfl := appendBytes_eq_some happ'
      simp only [Worker.setConn_setConn, List.append_assoc]
      exact .queued hfront

/-- The payload of an error message. -/
def errorPayload (message : List UInt8) : List UInt8 := (Value.string (stringBlob message)).encode

theorem length_errorPayload_le (message : List UInt8) :
    (errorPayload message).length ≤ message.length + 5 := by
  simp only [errorPayload, Value.encode, stringBlob, Blob.copy, List.length_cons,
    List.length_append, length_putU32]
  have := List.length_take_le' (UInt32.ofNat message.length).toNat message
  omega

/-- **An error message is queued whole, or memory was short.** -/
theorem queueStringError_cases (cfg : ServerConfig) (mem : Mem) {w : Worker} {c : ℕ}
    (hopen : (w.conns c).Open) (request : Request) (procId callId : UInt64)
    {message : List UInt8} (hlen : message.length ≤ 1000) :
    Queues cfg w c request .error procId callId (errorPayload message)
      (queueStringError cfg mem w c request procId callId message) := by
  have hmax : maxPayloadSize = 1048576 := rfl
  have hle := length_errorPayload_le message
  unfold queueStringError
  cases hwrite : writerString mem writerInit (stringBlob message) with
  | mk rc writer =>
    cases rc with
    | err => exact .refused
    | ok =>
      have hdata : writer.data = errorPayload message :=
        (writeValue_eq_ok (v := .string (stringBlob message)) hwrite).trans (List.nil_append _)
      simp only [hdata]
      exact queuePacket_cases cfg mem hopen request .error procId callId (by omega)

/-- What an attempt to queue a packet comes to on any slot: nothing is queued on one that takes no
output. -/
inductive Attempts (cfg : ServerConfig) (w : Worker) (c : ℕ) (request : Request) (op : Op)
    (procId callId : UInt64) : Worker → Prop
  | queues {payload : List UInt8} {result : Rc × Worker} (hopen : (w.conns c).Open)
      (hqueues : Queues cfg w c request op procId callId payload result) :
      Attempts cfg w c request op procId callId result.2
  | refused : Attempts cfg w c request op procId callId w
  | failed : Attempts cfg w c request op procId callId w.failQueue

theorem Attempts.eq {cfg : ServerConfig} {w w' : Worker} {c : ℕ} {request : Request} {op : Op}
    {procId callId : UInt64} (h : Attempts cfg w c request op procId callId w') :
    ∃ conns writes entries failed,
      (entries = [] ∨ entries = [.reply (w.conns c).inst request op procId callId]) ∧
      w' = { w with
        conns := conns, pendingWrites := writes, log := w.log ++ entries, queueFailed := failed } := by
  cases h with
  | queues hopen hqueues => exact hqueues.eq
  | refused =>
    refine ⟨w.conns, w.pendingWrites, [], w.queueFailed, .inl rfl, ?_⟩
    rw [List.append_nil]
  | failed =>
    refine ⟨w.conns, w.pendingWrites, [], true, .inl rfl, ?_⟩
    rw [List.append_nil]
    rfl

/-- **Any packet, on any slot.** -/
theorem queuePacket_attempts (cfg : ServerConfig) (mem : Mem) (w : Worker) (c : ℕ)
    (request : Request) (op : Op) (procId callId : UInt64) (payload : List UInt8) :
    Attempts cfg w c request op procId callId
      (queuePacket cfg mem w c request op procId callId payload).2 := by
  by_cases hclosed : (w.conns c).detached = true ∨ (w.conns c).fd < 0
  · rw [queuePacket, if_pos hclosed]
    exact .refused
  by_cases hlong : payload.length > maxPayloadSize
  · simp only [queuePacket]
    rw [if_neg hclosed, if_pos hlong]
    exact .refused
  · have hopen : (w.conns c).Open := by
      rw [not_or] at hclosed
      exact ⟨by simpa using hclosed.1, not_lt.mp hclosed.2⟩
    exact .queues hopen (queuePacket_cases cfg mem hopen request op procId callId (by omega))

/-- **Any error message, on any slot.** -/
theorem queueStringError_attempts (cfg : ServerConfig) (mem : Mem) (w : Worker) (c : ℕ)
    (request : Request) (procId callId : UInt64) (message : List UInt8) :
    Attempts cfg w c request .error procId callId
      (queueStringError cfg mem w c request procId callId message).2 := by
  unfold queueStringError
  split
  · exact .failed
  · exact queuePacket_attempts cfg mem w c request .error procId callId _

end Wirecall

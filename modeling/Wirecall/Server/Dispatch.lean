import Wirecall.Server.Worker

/-!
# Handling a packet

`handle_packet` and everything it calls: sync calls, deferred calls with their completion by any
thread, and the submission of async calls to the scheduler.

## Main definitions

* `deferredComplete`, `deferredFail`: the two ways a deferred call is completed
* `handleSyncCall`, `handleDeferredCall`, `schedulerSubmit`: the three ways a call is made
* `onCallDone`: the reply of the scheduler
* `handlePacket`: the dispatch over the operations
* `CallSucceeds`: when the reply to a call is a response
* `Handles`: everything `handle_packet` can do

## Main results

* `handlePacket_handles`: on an open connection it does one of these things
-/

namespace Wirecall

/-! ## Completing deferred calls -/

/-- `worker_queue_completed`. The wake-up is an event of a later batch. -/
def workerQueueCompleted (w : Worker) (d : ℕ) : Worker := { w with completed := w.completed ++ [d] }

/-- `wirecall_deferred_complete`, after `response` was written. -/
def deferredComplete (w : Worker) (d : ℕ) (response : Response) : Rc × Worker :=
  let call := w.deferreds d
  let w := w.logEntry (.completion call.request true)
  if call.completed then (.err, w)
  else
    let call := { call with completed := true, result := 0, response := response.data }
    (.ok, workerQueueCompleted { w with deferreds := Function.update w.deferreds d call } d)

/-- The error text `wirecall_deferred_fail` keeps. -/
def failText : Option (List UInt8) → List UInt8
  | some message =>
    if errorText message ≠ [] then errorText message else text "deferred procedure failed"
  | none => text "deferred procedure failed"

theorem length_errorText_le (message : List UInt8) : (errorText message).length ≤ 1000 := by
  have := List.length_take_le 159 (message.takeWhile (· ≠ 0))
  unfold errorText
  omega

theorem length_failText_le (message : Option (List UInt8)) : (failText message).length ≤ 1000 := by
  cases message with
  | none => decide
  | some message =>
    rw [failText]
    split_ifs
    · exact length_errorText_le message
    · decide

/-- `wirecall_deferred_fail`. -/
def deferredFail (w : Worker) (d : ℕ) (message : Option (List UInt8)) : Rc × Worker :=
  let call := w.deferreds d
  let w := w.logEntry (.completion call.request false)
  if call.completed then (.err, w)
  else
    let call := { call with completed := true, result := -1, error := failText message }
    (.ok, workerQueueCompleted { w with deferreds := Function.update w.deferreds d call } d)

/-- One completion of a deferred call. -/
def complete (w : Worker) (d : ℕ) : Completion → Worker
  | .complete response => (deferredComplete w d response).2
  | .fail message => (deferredFail w d message).2

/-- Whether a completion reports success. -/
def Completion.isOk : Completion → Bool
  | .complete _ => true
  | .fail _ => false

/-- A completion of a call that is completed already is only put on record. -/
theorem complete_of_completed {w : Worker} {d : ℕ} (h : (w.deferreds d).completed = true)
    (completion : Completion) :
    complete w d completion =
      w.logEntry (.completion (w.deferreds d).request completion.isOk) := by
  cases completion with
  | complete response =>
    simp only [complete, deferredComplete, if_pos h]
    rfl
  | fail message =>
    simp only [complete, deferredFail, if_pos h]
    rfl

/-- The first completion of a call decides its result and queues it. -/
theorem complete_of_open {w : Worker} {d : ℕ} (h : (w.deferreds d).completed = false)
    (completion : Completion) :
    ∃ response result error, ((result = 0 ↔ completion.isOk = true) ∧
        ((w.deferreds d).response.length ≤ maxPayloadSize → response.length ≤ maxPayloadSize) ∧
        ((w.deferreds d).error.length ≤ 1000 → error.length ≤ 1000)) ∧
      complete w d completion =
        { w.logEntry (.completion (w.deferreds d).request completion.isOk) with
          deferreds := Function.update w.deferreds d { w.deferreds d with
            completed := true, response := response, result := result, error := error }
          completed := w.completed ++ [d] } := by
  have hopen : ¬ (w.deferreds d).completed = true := by simp [h]
  cases completion with
  | complete response =>
    refine ⟨response.data, 0, (w.deferreds d).error,
      ⟨by simp [Completion.isOk], fun _ => response.len_le, id⟩, ?_⟩
    simp only [complete, deferredComplete, if_neg hopen]
    rfl
  | fail message =>
    refine ⟨(w.deferreds d).response, -1, failText message,
      ⟨by simp [Completion.isOk], id, fun _ => length_failText_le message⟩, ?_⟩
    simp only [complete, deferredFail, if_neg hopen]
    rfl

/-- A completion changes the calls, the queue of completed calls and the record, and nothing else. -/
theorem complete_eq (w : Worker) (d : ℕ) (completion : Completion) :
    ∃ deferreds completed log, complete w d completion =
      { w with deferreds := deferreds, completed := completed, log := log } := by
  cases hdone : (w.deferreds d).completed with
  | true =>
    rw [complete_of_completed hdone]
    exact ⟨_, _, _, rfl⟩
  | false =>
    obtain ⟨response, result, error, -, heq⟩ := complete_of_open hdone completion
    rw [heq]
    exact ⟨_, _, _, rfl⟩

/-- `deferred_free`. -/
def deferredFree (w : Worker) (d : ℕ) : Worker :=
  { w with deferredArena := w.deferredArena.free d }

/-! ## The three ways a call is made -/

/-- The deferred call `handle_deferred_call` fills in. -/
def newDeferred (c : ℕ) (request : Request) (header : Header) : Deferred :=
  { Deferred.zero with
    conn := c, callId := header.callId, procId := header.procId, request := request }

/-- A decoded deferred call is counted on its connection and handed to its handler. -/
def issueDeferred (w : Worker) (c d : ℕ) : Worker :=
  let conn := w.conns c
  { w.setConn c { conn with pendingDeferred := conn.pendingDeferred + 1 } with
    undrained := w.undrained ++ [d] }

/-- The handler of a deferred call, with what became of the call before it returned. -/
def runDeferred (w : Worker) (d : ℕ) (outcome : DeferredOutcome) : Worker :=
  let w := outcome.completions.foldl (fun w completion => complete w d completion) w
  if outcome.result ≠ 0 ∧ (w.deferreds d).completed = false then
    (deferredFail w d (some (text "deferred procedure failed"))).2
  else w

/-- **Rule for the handler of a deferred call**: what every completion preserves holds when the
handler has returned. -/
theorem runDeferred_rule {P : Worker → Prop} {d : ℕ}
    (hcomplete : ∀ w completion, P w → P (complete w d completion)) {w : Worker} (hP : P w)
    (outcome : DeferredOutcome) : P (runDeferred w d outcome) := by
  have hfold : ∀ (completions : List Completion) (w : Worker), P w →
      P (completions.foldl (fun w completion => complete w d completion) w) := by
    intro completions
    induction completions with
    | nil => exact fun w hw => hw
    | cons completion completions ih => exact fun w hw => ih _ (hcomplete w completion hw)
  unfold runDeferred
  simp only
  split_ifs with hfail
  · exact hcomplete _ (.fail _) (hfold outcome.completions w hP)
  · exact hfold outcome.completions w hP

/-- `handle_deferred_call`. -/
def handleDeferredCall (cfg : ServerConfig) (env : Env) (w : Worker) (c : ℕ) (request : Request)
    (header : Header) (route : Route) (payload : List UInt8) : Rc × Worker :=
  match w.deferredArena.alloc with
  | none =>
    queueStringError cfg env.mem w c request header.procId header.callId
      (text "deferred call allocation failed")
  | some (d, arena) =>
    let w := w.takeDeferred d arena (newDeferred c request header)
    if payload.length > 0 ∧ env.payloadMem = false then
      queueStringError cfg env.mem (deferredFree w d) c request header.procId header.callId
        (text "deferred payload allocation failed")
    else match payloadDecode env.decodeMem payload with
      | .ok args =>
        (.ok, runDeferred (issueDeferred w c d) d
          (env.deferred route ⟨header.callId, header.procId⟩ args))
      | _ =>
        queueStringError cfg env.mem (deferredFree w d) c request header.procId header.callId
          (text "malformed payload")

/-- `handle_sync_call`. -/
def handleSyncCall (cfg : ServerConfig) (env : Env) (w : Worker) (c : ℕ) (request : Request)
    (header : Header) (route : Route) (payload : List UInt8) : Rc × Worker :=
  match payloadDecode env.decodeMem payload with
  | .ok args =>
    let outcome := env.handler route ⟨header.callId, header.procId⟩ args
    if outcome.result = 0 then
      queuePacket cfg env.mem w c request .response header.procId header.callId
        outcome.response.data
    else
      queueStringError cfg env.mem w c request header.procId header.callId
        (text "procedure failed")
  | _ =>
    queueStringError cfg env.mem w c request header.procId header.callId
      (text "malformed payload")

/-- How a scheduler call ended: the response of a call that returned `0`, or the error text. -/
inductive CallEnd where
  | response (data : Response)
  | failed (error : List UInt8)

/-- `on_call_done`: the reply goes to the slot the call was submitted for. -/
def onCallDone (cfg : ServerConfig) (mem : Mem) (w : Worker) (call : Call) : CallEnd → Worker
  | .response data =>
    (queuePacket cfg mem w call.conn call.request .response call.ctx.procId call.ctx.callId
      data.data).2
  | .failed error =>
    (queueStringError cfg mem w call.conn call.request call.ctx.procId call.ctx.callId
      (if error ≠ [] then error else text "procedure failed")).2

/-- `call_free`. -/
def callFree (w : Worker) (k : ℕ) : Worker :=
  { w with calls := Function.update w.calls k none, callArena := w.callArena.free k }

/-- `wirecall_scheduler_submit`. A call that cannot start is answered on the spot. -/
def schedulerSubmit (cfg : ServerConfig) (env : Env) (w : Worker) (c : ℕ) (request : Request)
    (header : Header) (route : Route) (payload : List UInt8) : Rc × Worker :=
  match route.handler, w.callArena.alloc with
  | none, _ => (.err, w)
  | some _, none => (.err, w)
  | some handler, some (k, arena) =>
    let ctx : Ctx := ⟨header.callId, header.procId⟩
    let call : Call := ⟨c, ctx, handler, route.userData, [], request⟩
    let w := w.takeCall k arena call
    if payload.length > 0 ∧ env.payloadMem = false then (.err, callFree w k)
    else match payloadDecode env.decodeMem payload with
      | .ok args =>
        match env.coroutine with
        | some description =>
          (.ok, callFree (onCallDone cfg env.mem w call
            (.failed (errorText (text "coroutine create failed: " ++ description)))) k)
        | none => (.ok, w.startCall k { call with args := args })
      | _ =>
        (.ok, callFree (onCallDone cfg env.mem w call (.failed (text "malformed payload"))) k)

/-! ## The dispatch -/

/-- The call of a route that was looked up. -/
def handleRoute (cfg : ServerConfig) (env : Env) (w : Worker) (c : ℕ) (request : Request)
    (header : Header) (route : Route) (payload : List UInt8) : Rc × Worker :=
  if route.isDeferred then handleDeferredCall cfg env w c request header route payload
  else if route.isAsync = false then handleSyncCall cfg env w c request header route payload
  else match schedulerSubmit cfg env w c request header route payload with
    | (.ok, w) => (.ok, w)
    | (.err, w) =>
      queueStringError cfg env.mem w c request header.procId header.callId
        (text "scheduler failure")

/-- The dispatch table of `handle_packet`. -/
def dispatchOp (cfg : ServerConfig) (env : Env) (w : Worker) (c : ℕ) (request : Request)
    (header : Header) (payload : List UInt8) : Rc × Worker :=
  if header.op = Op.rpc.code then
    match env.lookup header.procId with
    | none =>
      queueStringError cfg env.mem w c request header.procId header.callId
        (text "unknown procedure")
    | some route => handleRoute cfg env w c request header route payload
  else if header.op = Op.ping.code then
    queuePacket cfg env.mem w c request .response 0 header.callId []
  else if header.op = Op.disconnect.code then (.ok, w.setClosing c)
  else
    queueStringError cfg env.mem w c request header.procId header.callId
      (text "unsupported operation")

/-- The record of a dispatch. -/
def logDispatch (w : Worker) (request : Request) (header : Header) (payload : List UInt8) :
    Worker :=
  { w.logEntry (.dispatched request header payload w.deferredArena.alloc.isSome) with
    tick := w.tick + 1 }

/-- `handle_packet`, in the environment of its dispatch. -/
def handlePacket (cfg : ServerConfig) (env : ℕ → Env) (w : Worker) (c : ℕ) (header : Header)
    (payload : List UInt8) : Rc × Worker :=
  let request : Request := ⟨(w.conns c).inst, w.tick⟩
  dispatchOp cfg (env w.tick) (logDispatch w request header payload) c request header payload

/-! ## Everything that handling a packet can do -/

/-- **When a call is answered by a response**: its route exists, its payload decodes, and its
handler returns `0`; for a deferred route, there is memory for the call and its first completion
is a success. -/
def CallSucceeds (env : Env) (header : Header) (payload : List UInt8) (slotFree : Bool)
    (firstCompletion : Option Bool) : Prop :=
  ∃ route args, env.lookup header.procId = some route ∧
    payloadDecode env.decodeMem payload = .ok args ∧
    if route.isDeferred then
      slotFree = true ∧ (payload.length > 0 → env.payloadMem = true) ∧ firstCompletion = some true
    else (env.handler route ⟨header.callId, header.procId⟩ args).result = 0

/-- No async route is called. -/
def NotAsync (env : Env) (header : Header) : Prop :=
  ∀ route, env.lookup header.procId = some route → route.isDeferred = true ∨ route.isAsync = false

/-- A reply that is queued while its request is being handled. -/
structure IsReply (env : Env) (header : Header) (payload : List UInt8) (slotFree : Bool) (op : Op)
    (procId callId : UInt64) : Prop where
  callId_eq : callId = header.callId
  op_ne : header.op ≠ Op.disconnect.code
  procId_eq : header.op = Op.rpc.code → procId = header.procId
  response_iff : header.op = Op.rpc.code → NotAsync env header →
    ∀ first, op = .response ↔ CallSucceeds env header payload slotFree first
  op_eq : op = .response ∨ op = .error

/-- Slots that a call takes and gives back when it cannot be made. A deferred call is that of the
request that was dispatched last. -/
inductive Churn (w : Worker) : Worker → Prop
  | none : Churn w w
  | deferred {d : ℕ} {arena : Arena} (call : Deferred)
      (halloc : w.deferredArena.alloc = some (d, arena))
      (htick : call.request.tick + 1 = w.tick) :
      Churn w (deferredFree (w.takeDeferred d arena call) d)
  | call {k : ℕ} {arena : Arena} (call : Call) (halloc : w.callArena.alloc = some (k, arena)) :
      Churn w (callFree (w.takeCall k arena call) k)

/-- The request that a packet on a connection makes. -/
def Worker.request (w : Worker) (c : ℕ) : Request := ⟨(w.conns c).inst, w.tick⟩

/-- The worker when the dispatch of a packet is on record. -/
def Worker.dispatching (w : Worker) (c : ℕ) (header : Header) (payload : List UInt8) : Worker :=
  logDispatch w (w.request c) header payload

/-- **Everything that handling a packet can do.** -/
inductive Handles (cfg : ServerConfig) (env : Env) (w : Worker) (c : ℕ) (header : Header)
    (payload : List UInt8) : Rc × Worker → Prop
  /-- A reply is queued, or memory is short. -/
  | replied {w₁ : Worker} {op : Op} {procId callId : UInt64} {data : List UInt8}
      {result : Rc × Worker} (hchurn : Churn (w.dispatching c header payload) w₁)
      (hreply : IsReply env header payload w.deferredArena.alloc.isSome op procId callId)
      (hqueues : Queues cfg w₁ c (w.request c) op procId callId data result) :
      Handles cfg env w c header payload result
  /-- The scheduler answers a call that cannot start. -/
  | notStarted {k : ℕ} {arena : Arena} {call : Call} {op : Op} {procId callId : UInt64}
      {data : List UInt8} {result : Rc × Worker}
      (halloc : w.callArena.alloc = some (k, arena))
      (hreply : IsReply env header payload w.deferredArena.alloc.isSome op procId callId)
      (hqueues : Queues cfg ((w.dispatching c header payload).takeCall k arena call) c
        (w.request c) op procId callId data result) :
      Handles cfg env w c header payload (.ok, callFree result.2 k)
  /-- The connection is to be closed. -/
  | disconnected (hop : header.op = Op.disconnect.code) :
      Handles cfg env w c header payload (.ok, (w.dispatching c header payload).setClosing c)
  /-- A deferred call is issued. -/
  | issued {d : ℕ} {arena : Arena} (outcome : DeferredOutcome)
      (hop : header.op = Op.rpc.code) (halloc : w.deferredArena.alloc = some (d, arena))
      (hsucceeds : ∀ first, CallSucceeds env header payload w.deferredArena.alloc.isSome first ↔
        first = some true) :
      Handles cfg env w c header payload (.ok, runDeferred (issueDeferred
        ((w.dispatching c header payload).takeDeferred d arena
          (newDeferred c (w.request c) header)) c d) d outcome)
  /-- An async call is submitted. -/
  | submitted {k : ℕ} {arena : Arena} (call : Call) (args : List Value) (hop : header.op = Op.rpc.code)
      (hasync : ¬ NotAsync env header) (halloc : w.callArena.alloc = some (k, arena))
      (hconn : call.conn = c) (hrequest : call.request = w.request c) :
      Handles cfg env w c header payload (.ok,
        ((w.dispatching c header payload).takeCall k arena call).startCall k
          { call with args := args })

section Handles

variable {cfg : ServerConfig} {env : Env} {w : Worker} {c : ℕ} {header : Header}
  {payload : List UInt8}

/-- A call that fails before its handler runs is answered by an error. -/
theorem isReply_error {procId : UInt64} {slotFree : Bool} (hop : header.op ≠ Op.disconnect.code)
    (hproc : header.op = Op.rpc.code → procId = header.procId)
    (hfails : header.op = Op.rpc.code → NotAsync env header →
      ∀ first, ¬ CallSucceeds env header payload slotFree first) :
    IsReply env header payload slotFree .error procId header.callId where
  callId_eq := rfl
  op_ne := hop
  procId_eq := hproc
  response_iff := by
    intro hrpc hsync first
    exact iff_of_false (fun h => by cases h) (hfails hrpc hsync first)
  op_eq := .inr rfl

theorem not_callSucceeds_of_decode {slotFree : Bool} {first : Option Bool}
    (hdecode : ∀ args, payloadDecode env.decodeMem payload ≠ .ok args) :
    ¬ CallSucceeds env header payload slotFree first := by
  rintro ⟨route, args, -, hargs, -⟩
  exact hdecode args hargs

theorem callSucceeds_iff {route : Route} {args : List Value} {slotFree : Bool}
    {first : Option Bool} (hroute : env.lookup header.procId = some route)
    (hargs : payloadDecode env.decodeMem payload = .ok args) :
    CallSucceeds env header payload slotFree first ↔
      if route.isDeferred then
        slotFree = true ∧ (payload.length > 0 → env.payloadMem = true) ∧ first = some true
      else (env.handler route ⟨header.callId, header.procId⟩ args).result = 0 := by
  refine ⟨?_, fun h => ⟨route, args, hroute, hargs, h⟩⟩
  rintro ⟨route', args', hroute', hargs', h⟩
  rw [hroute] at hroute'
  rw [hargs] at hargs'
  cases hroute'
  cases hargs'
  exact h

/-- An error message while a packet is handled. -/
theorem Handles.errorReply {w₁ : Worker} {message : List UInt8} {procId : UInt64}
    (hopen : (w₁.conns c).Open) (hchurn : Churn (w.dispatching c header payload) w₁)
    (hlen : message.length ≤ 1000)
    (hreply : IsReply env header payload w.deferredArena.alloc.isSome .error procId
      header.callId) :
    Handles cfg env w c header payload
      (queueStringError cfg env.mem w₁ c (w.request c) procId header.callId message) :=
  .replied hchurn hreply (queueStringError_cases cfg env.mem hopen _ _ _ hlen)

theorem Conn.Open.dispatching (hopen : (w.conns c).Open) (header : Header)
    (payload : List UInt8) : ((w.dispatching c header payload).conns c).Open := hopen

theorem op_ne_disconnect (hop : header.op = Op.rpc.code) : header.op ≠ Op.disconnect.code := by
  rw [hop]
  decide

variable (hopen : (w.conns c).Open) (hop : header.op = Op.rpc.code)
include hopen hop

theorem handleSyncCall_handles {route : Route} (hroute : env.lookup header.procId = some route)
    (hdeferred : route.isDeferred = false) :
    Handles cfg env w c header payload (handleSyncCall cfg env (w.dispatching c header payload) c
      (w.request c) header route payload) := by
  have hne : header.op ≠ Op.disconnect.code := op_ne_disconnect hop
  unfold handleSyncCall
  split
  · rename_i args hargs
    have hsucceeds : ∀ first, CallSucceeds env header payload w.deferredArena.alloc.isSome first ↔
        (env.handler route ⟨header.callId, header.procId⟩ args).result = 0 := by
      intro first
      rw [callSucceeds_iff hroute hargs, hdeferred]
      rfl
    simp only
    split
    · rename_i hresult
      refine .replied .none ⟨rfl, hne, fun _ => rfl, ?_, .inl rfl⟩
        (queuePacket_cases cfg env.mem (hopen.dispatching header payload) _ _ _ _
          (Response.len_le _))
      intro _ _ first
      exact iff_of_true rfl ((hsucceeds first).mpr hresult)
    · rename_i hresult
      refine .errorReply hopen .none (by decide) (isReply_error hne (fun _ => rfl) ?_)
      intro _ _ first h
      exact hresult ((hsucceeds first).mp h)
  · rename_i hdecode
    exact .errorReply hopen .none (by decide)
      (isReply_error hne (fun _ => rfl) fun _ _ _ => not_callSucceeds_of_decode hdecode)

theorem handleDeferredCall_handles {route : Route}
    (hroute : env.lookup header.procId = some route) (hdeferred : route.isDeferred = true) :
    Handles cfg env w c header payload (handleDeferredCall cfg env (w.dispatching c header payload)
      c (w.request c) header route payload) := by
  have hne : header.op ≠ Op.disconnect.code := op_ne_disconnect hop
  -- what is missing makes the call fail, whatever its completions
  have hfails : (w.deferredArena.alloc.isSome = false ∨
      (payload.length > 0 ∧ env.payloadMem = false)) →
      ∀ first, ¬ CallSucceeds env header payload w.deferredArena.alloc.isSome first := by
    rintro hmissing first ⟨route', args, hroute', -, h⟩
    rw [hroute] at hroute'
    cases hroute'
    rw [hdeferred, if_pos rfl] at h
    rcases hmissing with hslot | ⟨hpos, hmem⟩
    · rw [hslot] at h
      exact absurd h.1 (by simp)
    · rw [hmem] at h
      exact absurd (h.2.1 hpos) (by simp)
  unfold handleDeferredCall
  split
  · rename_i halloc
    refine .errorReply hopen .none (by decide) (isReply_error hne (fun _ => rfl) ?_)
    intro _ _ first
    refine hfails (.inl ?_) first
    rw [show w.deferredArena.alloc = none from halloc]
    rfl
  · rename_i d arena halloc
    have halloc' : w.deferredArena.alloc = some (d, arena) := halloc
    simp only
    split
    · rename_i hmem
      exact .errorReply hopen (.deferred _ halloc rfl) (by decide)
        (isReply_error hne (fun _ => rfl) fun _ _ first => hfails (.inr hmem) first)
    · rename_i hmem
      split
      · rename_i args hargs
        refine .issued _ hop halloc' ?_
        intro first
        rw [callSucceeds_iff hroute hargs, hdeferred, if_pos rfl, halloc']
        refine ⟨fun h => h.2.2, fun h => ⟨rfl, fun hpos => ?_, h⟩⟩
        by_contra hfalse
        exact hmem ⟨hpos, by simpa using hfalse⟩
      · rename_i hdecode
        exact .errorReply hopen (.deferred _ halloc rfl) (by decide)
          (isReply_error hne (fun _ => rfl) fun _ _ _ => not_callSucceeds_of_decode hdecode)

theorem handleRoute_handles {route : Route} (hroute : env.lookup header.procId = some route) :
    Handles cfg env w c header payload (handleRoute cfg env (w.dispatching c header payload) c
      (w.request c) header route payload) := by
  have hne : header.op ≠ Op.disconnect.code := op_ne_disconnect hop
  unfold handleRoute
  by_cases hdeferred : route.isDeferred = true
  · rw [if_pos hdeferred]
    exact handleDeferredCall_handles hopen hop hroute hdeferred
  rw [if_neg hdeferred]
  by_cases hasync : route.isAsync = false
  · rw [if_pos hasync]
    exact handleSyncCall_handles hopen hop hroute (by simpa using hdeferred)
  rw [if_neg hasync]
  have hnot : ¬ NotAsync env header := by
    intro h
    rcases h route hroute with h | h
    · exact hdeferred h
    · exact hasync h
  -- of a reply to an async call nothing is said about its kind
  have hreply : IsReply env header payload w.deferredArena.alloc.isSome .error header.procId
      header.callId :=
    isReply_error hne (fun _ => rfl) fun _ hsync => absurd hsync hnot
  unfold schedulerSubmit
  cases hhandler : route.handler with
  | none => exact .errorReply hopen .none (by decide) hreply
  | some handler =>
    cases halloc : w.callArena.alloc with
    | none =>
      rw [show (w.dispatching c header payload).callArena.alloc = none from halloc]
      exact .errorReply hopen .none (by decide) hreply
    | some slot =>
      obtain ⟨k, arena⟩ := slot
      have halloc' : (w.dispatching c header payload).callArena.alloc = some (k, arena) := halloc
      have notStarted (call : Call) (message : List UInt8) (hlen : message.length ≤ 1000) :
          Handles cfg env w c header payload (.ok, callFree (queueStringError cfg env.mem
            ((w.dispatching c header payload).takeCall k arena call) c (w.request c)
            header.procId header.callId message).2 k) :=
        have hopen' : (((w.dispatching c header payload).takeCall k arena call).conns c).Open :=
          hopen
        .notStarted halloc hreply (queueStringError_cases cfg env.mem hopen' _ _ _ hlen)
      rw [halloc']
      simp only
      split_ifs with hmem
      · exact .errorReply hopen (.call _ halloc') (by decide) hreply
      · cases hargs : payloadDecode env.decodeMem payload with
        | ok args =>
          cases hco : env.coroutine with
          | none =>
            exact .submitted ⟨c, ⟨header.callId, header.procId⟩, handler, route.userData, [],
              w.request c⟩ args hop hnot halloc rfl rfl
          | some description =>
            refine notStarted _ _ ?_
            split
            · exact length_errorText_le _
            · decide
        | error => exact notStarted _ _ (by decide)
        | outOfBounds => exact notStarted _ _ (by decide)
        | outOfFuel => exact notStarted _ _ (by decide)

end Handles

/-- **On an open connection, handling a packet does one of these things.** -/
theorem handlePacket_handles (cfg : ServerConfig) (env : ℕ → Env) {w : Worker} {c : ℕ}
    (hopen : (w.conns c).Open) (header : Header) (payload : List UInt8) :
    Handles cfg (env w.tick) w c header payload (handlePacket cfg env w c header payload) := by
  change Handles cfg (env w.tick) w c header payload
    (dispatchOp cfg (env w.tick) (w.dispatching c header payload) c (w.request c) header payload)
  unfold dispatchOp
  by_cases hrpc : header.op = Op.rpc.code
  · rw [if_pos hrpc]
    cases hroute : (env w.tick).lookup header.procId with
    | none =>
      refine .errorReply hopen .none (by decide)
        (isReply_error (op_ne_disconnect hrpc) (fun _ => rfl) ?_)
      rintro _ _ first ⟨route, args, hsome, -⟩
      rw [hroute] at hsome
      cases hsome
    | some route => exact handleRoute_handles hopen hrpc hroute
  rw [if_neg hrpc]
  by_cases hping : header.op = Op.ping.code
  · rw [if_pos hping]
    exact .replied .none ⟨rfl, by rw [hping]; decide, fun h => absurd h hrpc,
      fun h => absurd h hrpc, .inl rfl⟩
      (queuePacket_cases cfg _ (hopen.dispatching header payload) _ _ _ _ (Nat.zero_le _))
  rw [if_neg hping]
  by_cases hdisc : header.op = Op.disconnect.code
  · rw [if_pos hdisc]
    exact .disconnected hdisc
  · rw [if_neg hdisc]
    exact .errorReply hopen .none (by decide)
      (isReply_error hdisc (fun h => absurd h hrpc) fun h => absurd h hrpc)

end Wirecall

import Wirecall.Memory.Fifo
import Wirecall.Server.Worker

/-!
# The scheduler

`scheduler.c`: a call is put into a slot of an arena, its payload is decoded, and a coroutine is made
for its handler. Calls that wait are linked through their slots. `wirecall_scheduler_run_ready` takes
them off the queue and resumes them, and puts those that yield back, until the queue is empty.

A coroutine is what its handler does: it yields a number of times and then returns. Every call has a
number, its place among all that were submitted. Resumes and calls of `done` are kept in a log, the
latter with what the accessors of the call give then.

## Main definitions

* `Program`, `Call`, `Scheduler`: the state
* `enqueue`, `dequeue`, `submit`, `runReady`: the functions of `scheduler.c`
* `Submission`, `Submission.program`, `Submission.report`: a submission, what becomes of it, and what
  `done` is to see
-/

namespace Wirecall

namespace Scheduler

/-! ## The state -/

/-- What a handler does with its arguments: it yields so many times, and then returns. -/
structure Program where
  yields : ℕ
  outcome : HandlerOutcome

/-- A coroutine: the number of yields before it returns, and whether it has returned. -/
structure Coroutine where
  left : ℕ
  dead : Bool
  deriving DecidableEq, Repr

/-- `wirecall_call`, without the link `next_ready`. -/
structure Call where
  co : Option Coroutine
  ctx : Ctx
  handler : Ctx → List Value → Program
  payload : List UInt8
  args : List Value
  response : List UInt8
  result : Int
  error : List UInt8
  completed : Bool
  /-- Its place among all calls. -/
  number : ℕ

/-- What `done` sees of a call: `wirecall_call_id`, `wirecall_call_proc_id`, `wirecall_call_result`,
`wirecall_call_response` and `wirecall_call_error`. -/
structure Report where
  callId : UInt64
  procId : UInt64
  result : Int
  response : List UInt8
  error : List UInt8
  deriving DecidableEq, Repr

def Call.report (call : Call) : Report where
  callId := call.ctx.callId
  procId := call.ctx.procId
  result := call.result
  response := call.response
  error := if call.error ≠ [] then call.error else text "procedure failed"

/-- A call is resumed, or `done` is called for it. -/
inductive Event where
  | resumed (number : ℕ)
  | done (number : ℕ) (report : Report)
  deriving DecidableEq, Repr

/-- `wirecall_scheduler`. The queue holds `head`, `tail` and the `next_ready` of every slot. -/
structure State where
  queue : Fifo ℕ
  callArena : Arena
  calls : ℕ → Call
  /-- The number of calls so far. -/
  submitted : ℕ
  log : List Event

/-- A slot after `memset`. -/
def Call.zero : Call where
  co := none
  ctx := ⟨0, 0⟩
  handler := fun _ _ => ⟨0, ⟨0, ⟨[], Nat.zero_le _⟩⟩⟩
  payload := []
  args := []
  response := []
  result := 0
  error := []
  completed := false
  number := 0

/-- `wirecall_scheduler_init`. -/
def init : State where
  queue := ⟨none, none, fun _ => none⟩
  callArena := .init 262144
  calls := fun _ => .zero
  submitted := 0
  log := []

/-- A call is written to its slot. -/
def State.setCall (s : State) (k : ℕ) (call : Call) : State :=
  { s with calls := Function.update s.calls k call }

/-! ## The functions -/

/-- `call_free`. -/
def callFree (s : State) (k : ℕ) : State := { s with callArena := s.callArena.free k }

/-- `enqueue`. -/
def enqueue (s : State) (k : ℕ) : State := { s with queue := s.queue.push k }

/-- `dequeue`. -/
def dequeue (s : State) : Option (ℕ × State) :=
  s.queue.pop.map fun (k, queue) => (k, { s with queue := queue })

/-- `done` is called. -/
def callDone (s : State) (k : ℕ) : State :=
  { s with log := s.log ++ [.done (s.calls k).number (s.calls k).report] }

/-- `call_finish`. -/
def callFinish (s : State) (k : ℕ) : State := callFree (callDone s k) k

/-- The end of `call_entry`, when the handler has returned. -/
def Call.leave (call : Call) : Call :=
  let outcome := (call.handler call.ctx call.args).outcome
  { call with
    co := some ⟨0, true⟩
    response := outcome.response.data
    result := outcome.result
    completed := true
    error :=
      if outcome.result ≠ 0 ∧ call.error = [] then
        errorText (text s!"procedure returned {outcome.result}")
      else call.error }

/-- `call_resume`, when `mco_resume` fails. -/
def Call.refused (call : Call) (description : String) : Call :=
  { call with
    error := errorText (text "coroutine resume failed: " ++ text description)
    result := -1
    completed := true }

/-- `call_resume`: the coroutine runs to its next yield, or returns. -/
def callResume (s : State) (k : ℕ) : State :=
  let call := s.calls k
  let s := { s with log := s.log ++ [Event.resumed call.number] }
  match call.co with
  | none => s.setCall k (call.refused "Invalid coroutine")
  | some ⟨_, true⟩ => s.setCall k (call.refused "Coroutine not suspended")
  | some ⟨left + 1, false⟩ => s.setCall k { call with co := some ⟨left, false⟩ }
  | some ⟨0, false⟩ => s.setCall k call.leave

/-- The coroutine has yielded: `mco_status` is `MCO_SUSPENDED`. -/
def Call.suspended (call : Call) : Bool :=
  match call.co with
  | some co => !co.dead
  | none => false

/-- `wirecall_scheduler_run_ready`, with at most `fuel` turns; `none` if they are not enough. -/
def runReady : ℕ → State → Option State
  | 0, _ => none
  | fuel + 1, s =>
    match dequeue s with
    | none => some s
    | some (k, s) =>
      let s := callResume s k
      if (s.calls k).completed = false ∧ (s.calls k).suspended then runReady fuel (enqueue s k)
      else runReady fuel (callFinish s k)

/-- The arguments of `wirecall_scheduler_submit`, with the answers of the allocator and of
`mco_create`. -/
structure Submission where
  ctx : Ctx
  handler : Ctx → List Value → Program
  payload : List UInt8
  /-- Whether the payload can be copied. -/
  copied : Bool
  decodeMem : DecodeMem
  /-- The description of the error of `mco_create`, if it fails. -/
  coroutine : Option (List UInt8)

/-- The end of `wirecall_scheduler_submit` for a call without a coroutine. -/
def reject (s : State) (k : ℕ) (call : Call) (message : List UInt8) : State :=
  callFinish (s.setCall k { call with error := errorText message, result := -1, completed := true }) k

/-- `wirecall_scheduler_submit`. -/
def submit (s : State) (sub : Submission) : Rc × State :=
  match s.callArena.alloc with
  | none => (.err, s)
  | some (k, arena) =>
    let call : Call :=
      { Call.zero with
        ctx := sub.ctx, handler := sub.handler, payload := sub.payload, number := s.submitted }
    let s := { s with callArena := arena, submitted := s.submitted + 1 }
    if sub.payload.length > 0 ∧ sub.copied = false then (.err, callFree (s.setCall k call) k)
    else match payloadDecode sub.decodeMem sub.payload with
      | .ok args =>
        let call := { call with args := args }
        match sub.coroutine with
        | some description =>
          (.ok, reject s k call (text "coroutine create failed: " ++ description))
        | none =>
          let co : Coroutine := ⟨(sub.handler sub.ctx args).yields, false⟩
          (.ok, enqueue (s.setCall k { call with co := some co }) k)
      | _ => (.ok, reject s k call (text "malformed payload"))

/-- Submissions one after the other, all with success. -/
def submitAll : List Submission → State → Option State
  | [], s => some s
  | sub :: subs, s =>
    match submit s sub with
    | (.ok, s) => submitAll subs s
    | (.err, _) => none

/-! ## What becomes of a submission -/

/-- What its coroutine does, if there is one. -/
def Submission.program (sub : Submission) : Option Program :=
  match payloadDecode sub.decodeMem sub.payload, sub.coroutine with
  | .ok args, none => some (sub.handler sub.ctx args)
  | _, _ => none

/-- What `done` is to see of it: the handler's own result and response, or why there is no
coroutine. -/
def Submission.report (sub : Submission) : Report :=
  match payloadDecode sub.decodeMem sub.payload, sub.coroutine with
  | .ok args, none =>
    let outcome := (sub.handler sub.ctx args).outcome
    ⟨sub.ctx.callId, sub.ctx.procId, outcome.result, outcome.response.data,
      if outcome.result ≠ 0 then errorText (text s!"procedure returned {outcome.result}")
      else text "procedure failed"⟩
  | .ok _, some description =>
    ⟨sub.ctx.callId, sub.ctx.procId, -1, [],
      errorText (text "coroutine create failed: " ++ description)⟩
  | _, _ => ⟨sub.ctx.callId, sub.ctx.procId, -1, [], errorText (text "malformed payload")⟩

end Scheduler

end Wirecall

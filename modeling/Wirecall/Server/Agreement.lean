import Wirecall.Machine.RoundRobin
import Wirecall.Server.Pending

/-!
# Sync and async routes agree

A handler may be registered as a sync route, and then runs inside of `handle_packet`, or as an async
route, and then runs in a coroutine that the scheduler resumes. The two ways decode, run and report
through different code. Here one request is followed on each of them, through any actions of the
worker that come between, and what is queued for it is compared.

## Main definitions

* `syncEnd`, `asyncEnd`: how a call ends on either way
* `Served`: a request was handled, and the worker went on
* `AnsweredOnce`: exactly one packet was queued for the request
* `runReady`: the scheduler, for calls that yield finitely often

## Main results

* `Served.sync_answers`, `Served.async_answers`: what is queued for the request
* `runReady_ends`: the scheduler ends
* `sync_async_agree`: **sync and async routes agree**
-/

namespace Wirecall

/-- A handler that is deterministic: what it returns depends on its user data, its context and its
arguments only. How often it yields is left open. -/
abbrev Handler := ℕ → Ctx → List Value → HandlerOutcome

/-- The payload of a request is no encoding. -/
def Malformed (payload : List UInt8) : Prop := ∀ args, payloadDecode .granting payload ≠ .ok args

/-! ## How a call ends -/

section CallEnd

variable (handler : Handler) (userData : ℕ) (header : Header) (payload : List UInt8)

/-- How a sync call ends. -/
def syncEnd : CallEnd :=
  match payloadDecode .granting payload with
  | .ok args =>
    let outcome := handler userData ⟨header.callId, header.procId⟩ args
    if outcome.result = 0 then .response outcome.response else .failed (text "procedure failed")
  | _ => .failed (text "malformed payload")

/-- How an async call ends. -/
def asyncEnd : CallEnd :=
  match payloadDecode .granting payload with
  | .ok args => (handler userData ⟨header.callId, header.procId⟩ args).callEnd
  | _ => .failed (text "malformed payload")

/-- **The two ends are reported alike**, but for the text of a handler that fails. -/
theorem syncEnd_asyncEnd : (asyncEnd handler userData header payload).op =
      (syncEnd handler userData header payload).op ∧
    ((syncEnd handler userData header payload).op = .response ∨ Malformed payload →
      (asyncEnd handler userData header payload).payload =
        (syncEnd handler userData header payload).payload) := by
  unfold syncEnd asyncEnd
  cases hdecode : payloadDecode .granting payload with
  | ok args =>
    dsimp only [HandlerOutcome.callEnd]
    split_ifs
    · exact ⟨rfl, fun _ => rfl⟩
    · refine ⟨rfl, fun h => ?_⟩
      rcases h with hop | hmalformed
      · cases hop
      · exact absurd hdecode (hmalformed args)
  | _ => exact ⟨rfl, fun _ => rfl⟩

theorem asyncEnd_of_ok {args : List Value} (h : payloadDecode .granting payload = .ok args) :
    asyncEnd handler userData header payload =
      (handler userData ⟨header.callId, header.procId⟩ args).callEnd := by
  rw [asyncEnd, h]

theorem asyncEnd_of_malformed (h : Malformed payload) :
    asyncEnd handler userData header payload = .failed (text "malformed payload") := by
  unfold asyncEnd
  cases hdecode : payloadDecode .granting payload with
  | ok args => exact absurd hdecode (h args)
  | _ => rfl

end CallEnd

/-! ## Handling the request -/

/-- The procedure of a header is the handler, as a route of its kind, and nothing is short when the
request is handled. -/
structure Offers (env : Env) (handler : Handler) (userData : ℕ) (isAsync : Bool) (procId : UInt64)
    (route : Route) : Prop where
  lookup : env.lookup procId = some route
  not_deferred : route.isDeferred = false
  isAsync_eq : route.isAsync = isAsync
  handler_isSome : route.handler.isSome
  userData_eq : route.userData = userData
  /-- A sync route calls the handler, which yields to nobody. -/
  runs : isAsync = false → ∀ ctx args, env.handler route ctx args = handler userData ctx args
  decodeMem : env.decodeMem.Grants
  payloadMem : env.payloadMem = true
  coroutine : env.coroutine = none

/-- What the handler makes of a call of the scheduler. -/
def Handler.outcome (handler : Handler) (call : Call) : HandlerOutcome :=
  handler call.handlerData call.ctx call.args

section Handling

variable {cfg : ServerConfig} {env : ℕ → Env} {handler : Handler} {userData : ℕ} {header : Header}
  {payload : List UInt8} {route : Route} {c inst k : ℕ} {w w' : Worker} {m m' : Mid} {call : Call}
  {request : Request}

theorem DecodeMem.Grants.eq {mem : DecodeMem} (h : mem.Grants) : mem = .granting := by
  obtain ⟨hgrow, hcopy⟩ := h
  cases mem
  congr
  · exact funext₂ hgrow
  · exact funext₂ hcopy

/-- The dispatch of a call. -/
theorem handlePacket_rpc (hop : header.op = Op.rpc.code)
    (hroute : (env w.tick).lookup header.procId = some route) :
    handlePacket cfg env w c header payload = handleRoute cfg (env w.tick)
      (w.dispatching c header payload) c (w.request c) header route payload := by
  unfold handlePacket dispatchOp
  dsimp only
  rw [if_pos hop, hroute]
  rfl

/-- **A sync call** is answered by its end. -/
theorem handleSyncCall_queues (cfg : ServerConfig) (request : Request) (payload : List UInt8) {e : Env}
    (hopen : (w.conns c).Open)
    (hoffers : Offers e handler userData false header.procId route) :
    Queues cfg w c request (syncEnd handler userData header payload).op header.procId header.callId
      (syncEnd handler userData header payload).payload
      (handleSyncCall cfg e w c request header route payload) := by
  unfold syncEnd handleSyncCall
  rw [hoffers.decodeMem.eq]
  cases payloadDecode .granting payload with
  | ok args =>
    dsimp only
    rw [hoffers.runs rfl]
    split_ifs
    · exact queuePacket_cases cfg e.mem hopen _ _ _ _ (Response.len_le _)
    · exact queueStringError_cases cfg e.mem hopen _ _ _ (by decide)
  | _ => exact queueStringError_cases cfg e.mem hopen _ _ _ (by decide)

/-- **An async call** is answered on the spot if its payload is malformed, and waits otherwise. -/
theorem schedulerSubmit_eq (cfg : ServerConfig) (c : ℕ) (request : Request) (payload : List UInt8)
    {e : Env} {arena : Arena}
    (hoffers : Offers e handler userData true header.procId route)
    (halloc : w.callArena.alloc = some (k, arena)) :
    ∃ call : Call, call.conn = c ∧ call.request = request ∧ call.handlerData = userData ∧
      call.ctx = ⟨header.callId, header.procId⟩ ∧
      (∀ args, payloadDecode .granting payload = .ok args →
        schedulerSubmit cfg e w c request header route payload =
          (.ok, (w.takeCall k arena call).startCall k { call with args := args })) ∧
      (Malformed payload → schedulerSubmit cfg e w c request header route payload =
        (.ok, callFree (onCallDone cfg e.mem (w.takeCall k arena call) call
          (.failed (text "malformed payload"))) k)) := by
  obtain ⟨number, hnumber⟩ := Option.isSome_iff_exists.mp hoffers.handler_isSome
  refine ⟨⟨c, ⟨header.callId, header.procId⟩, number, route.userData, [], request⟩, rfl, rfl,
    hoffers.userData_eq, rfl, ?_⟩
  -- the copy of the payload, the decoded values and the coroutine are there
  have hmem : ¬ (payload.length > 0 ∧ e.payloadMem = false) := by
    rw [hoffers.payloadMem]
    exact fun h => Bool.false_ne_true h.2.symm
  unfold schedulerSubmit
  rw [hnumber, halloc]
  dsimp only
  rw [if_neg hmem, hoffers.decodeMem.eq, hoffers.coroutine]
  constructor
  · intro args hdecode
    rw [hdecode]
  · intro hmalformed
    cases hdecode : payloadDecode .granting payload with
    | ok args => exact absurd hdecode (hmalformed args)
    | _ => rfl

/-! ### What waits while the request is handled -/

/-- Nothing waits for a request that is being dispatched. -/
theorem Worker.Past.only_dispatching (h : w.Past) :
    (w.dispatching c header payload).Only (w.request c) ∅ := by
  refine ⟨fun k hk call hcall heq => ?_, fun d hd heq => ?_, Nat.lt_succ_self _⟩
  · exact absurd (congrArg Request.tick heq) (h.called k hk call hcall).ne
  · exact absurd (congrArg Request.tick heq) (h.deferred d hd).ne

/-- A call that is queued waits for its request. -/
theorem Worker.Only.startCall (h : w.Only call.request ∅) : (w.startCall k call).Awaits k call where
  called k' hk' call' hcall' heq := by
    by_cases hk : k' = k
    · exact hk
    · have hcall : w.calls k' = some call' := by
        change Function.update w.calls k (some call) k' = some call' at hcall'
        rwa [Function.update_of_ne hk] at hcall'
      have hready : k' ∈ w.ready := by
        rcases List.mem_append.mp hk' with hold | hnew
        · exact hold
        · exact absurd (List.mem_singleton.mp hnew) hk
      exact absurd (h.called k' hready call' hcall heq) (Set.notMem_empty k')
  deferred := h.deferred
  past := h.past
  ready := List.mem_append_right _ (List.mem_singleton_self k)
  call_eq := Function.update_self _ _ _

/-- A packet that is queued answers its request. -/
theorem Queues.answered {w₀ : Worker} {rc : Rc} {op : Op} {procId callId : UInt64} {data : List UInt8}
    (h : Queues cfg w₀ c request op procId callId data (rc, w'))
    (hinst : (w₀.conns c).inst = inst) (hdelivers : w.Delivers cfg c inst w₀ [])
    (honly : w₀.Only request ∅) :
    w.Answered cfg c inst ⟨inst, request, op, procId, callId, data⟩ w' := by
  have hqueued : w₀.Steps cfg c inst 0 w' _ :=
    h.steps (fun _ hne => absurd rfl hne) (.inl (Nat.zero_le _))
  rw [hinst] at hqueued
  refine ⟨?_, _, hdelivers.trans hqueued.toDelivers, fun _ => by simp⟩
  obtain ⟨conns, writes, entries, failed, -, heq⟩ := h.eq
  rw [show w' = _ from heq]
  exact ⟨honly.called, honly.deferred, honly.past⟩

/-! ### The request -/

variable (hinv : Inv m) (hpast : m.worker.Past) (hc : c ∈ m.worker.connections)
  (hop : header.op = Op.rpc.code)
include hinv hpast hc hop

/-- **A sync call is answered** while it is handled. -/
theorem handlePacket_answered
    (hoffers : Offers (env m.worker.tick) handler userData false header.procId route) :
    m.worker.Answered cfg c (m.worker.conns c).inst
      ⟨(m.worker.conns c).inst, m.worker.request c, (syncEnd handler userData header payload).op,
        header.procId, header.callId, (syncEnd handler userData header payload).payload⟩
      (handlePacket cfg env m.worker c header payload).2 := by
  have hsync : ¬ route.isDeferred = true := by
    rw [hoffers.not_deferred]
    exact Bool.false_ne_true
  rw [handlePacket_rpc hop hoffers.lookup, handleRoute, if_neg hsync, if_pos hoffers.isAsync_eq]
  have hqueues := handleSyncCall_queues cfg (m.worker.request c) payload
    ((hinv.isOpen hc).dispatching header payload) hoffers
  generalize handleSyncCall cfg (env m.worker.tick) (m.worker.dispatching c header payload) c
    (m.worker.request c) header route payload = result at hqueues ⊢
  obtain ⟨rc, w'⟩ := result
  exact hqueues.answered rfl (dispatching_steps (t := 0) m.worker c header payload).toDelivers
    hpast.only_dispatching

/-- **An async call waits** when it was handled, or it was answered. -/
theorem handlePacket_answers
    (hoffers : Offers (env m.worker.tick) handler userData true header.procId route)
    (hslot : m.worker.callArena.alloc.isSome) :
    m.worker.Answers cfg handler.outcome c (m.worker.conns c).inst
      ⟨(m.worker.conns c).inst, m.worker.request c, (asyncEnd handler userData header payload).op,
        header.procId, header.callId, (asyncEnd handler userData header payload).payload⟩
      (handlePacket cfg env m.worker c header payload).2 := by
  obtain ⟨⟨k, arena⟩, halloc⟩ := Option.isSome_iff_exists.mp hslot
  have hdeferred : ¬ route.isDeferred = true := by
    rw [hoffers.not_deferred]
    exact Bool.false_ne_true
  have hasync : ¬ route.isAsync = false := by
    rw [hoffers.isAsync_eq]
    exact Bool.false_ne_true.symm
  rw [handlePacket_rpc hop hoffers.lookup, handleRoute, if_neg hdeferred, if_neg hasync]
  have halloc' : (m.worker.dispatching c header payload).callArena.alloc = some (k, arena) := halloc
  obtain ⟨call, hconn, hrequest, hdata, hctx, hok, hmalformed⟩ :=
    schedulerSubmit_eq cfg c (m.worker.request c) payload hoffers halloc'
  -- a slot is taken, which holds no queued call
  have hk : k ∉ (m.worker.dispatching c header payload).ready := (hinv.call.take call halloc).2.2
  have htaken : (m.worker.dispatching c header payload).Steps cfg c (m.worker.conns c).inst
      (m.worker.dispatching c header payload).tick
      ((m.worker.dispatching c header payload).takeCall k arena call) [] := takeCall_steps hk arena call
  have honly := (htaken.only hpast.only_dispatching).1
  have hdelivers :=
    (dispatching_steps (t := 0) m.worker c header payload).toDelivers.trans htaken.toDelivers
  by_cases hpayload : Malformed payload
  · -- the call is answered and its slot given back
    rw [hmalformed hpayload, asyncEnd_of_malformed _ _ _ _ hpayload]
    have hopen : (((m.worker.dispatching c header payload).takeCall k arena call).conns
        call.conn).Open := by
      rw [hconn]
      exact hinv.isOpen hc
    have hshort : (CallEnd.failed (text "malformed payload")).Short := by
      rw [CallEnd.Short]
      decide
    obtain ⟨rc, hqueues⟩ := onCallDone_queues cfg (env m.worker.tick).mem hopen hshort
    rw [hconn, hrequest, hctx] at hqueues
    have hanswered := hqueues.answered rfl hdelivers honly
    obtain ⟨-, hready, -⟩ := hqueues.scheduler
    generalize onCallDone cfg (env m.worker.tick).mem _ call _ = w₁ at hanswered hready ⊢
    have hk₁ : k ∉ w₁.ready := by
      rw [show w₁.ready = _ from hready]
      exact hk
    have hfreed : w₁.Steps cfg c (m.worker.conns c).inst w₁.tick (callFree w₁ k) [] :=
      callFree_steps hk₁
    exact .answered (hanswered.trans hfreed.toDelivers (hfreed.only hanswered.1).1
      (List.forall_mem_nil _))
  · obtain ⟨args, hdecode⟩ := not_forall_not.mp hpayload
    rw [hok args hdecode, asyncEnd_of_ok _ _ _ _ hdecode]
    rw [← hrequest] at honly
    have hawaits := @Worker.Only.startCall k _ { call with args := args } honly
    have hstarted : ((m.worker.dispatching c header payload).takeCall k arena call).Steps cfg c
        (m.worker.conns c).inst 0
        (((m.worker.dispatching c header payload).takeCall k arena call).startCall k
          { call with args := args }) [] := startCall_steps hk (Nat.zero_le _) honly.past
    refine .waiting (hdelivers.trans hstarted.toDelivers) hawaits hconn ?_ (List.forall_mem_nil _)
    simp only [Call.answer, Handler.outcome, hrequest, hdata, hctx]

end Handling

/-! ## Serving the request -/

/-- **A request was handled, and the worker went on** to `m'`: from a state that it reaches, it handles
a call of the procedure on an open connection, and then anything may happen, as long as the connection
stays open and the handler follows its course. -/
structure Served (cfg : ServerConfig) (env : ℕ → Env) (handler : Handler) (userData : ℕ)
    (header : Header) (payload : List UInt8) (isAsync : Bool) (c : ℕ) (m m' : Mid) : Prop where
  reached : Reaches cfg env workerInit.mid m
  listed : c ∈ m.worker.connections
  rpc : header.op = Op.rpc.code
  offers : ∃ route, Offers (env m.worker.tick) handler userData isAsync header.procId route
  /-- There is a slot for a call of the scheduler. -/
  slot : isAsync = true → m.worker.callArena.alloc.isSome
  run : ∃ rest, Machine.exec (Mid.act cfg env) m (.packet c header payload :: rest) = some m' ∧
    Machine.Meets (Mid.act cfg env) (Follows handler.outcome (m.worker.request c)) m
      (.packet c header payload :: rest)
  stays : m'.worker.Has c (m.worker.conns c).inst

/-- **Exactly one packet was queued for the request** that a packet on the connection made in `w`: of
the packets that were put on record, on any connection, one is for it. It is on this connection, with
the bytes that were added to its output. -/
def AnsweredOnce (cfg : ServerConfig) (c : ℕ) (w w' : Worker) (op : Op) (procId callId : UInt64)
    (payload : List UInt8) : Prop :=
  ∃ packets : List QueuedPacket,
    w'.log.filter Entry.isReply = w.log.filter Entry.isReply ++ packets.map QueuedPacket.entry ∧
    (w'.conns c).output = (w.conns c).output ++ bytesOn cfg (w.conns c).inst packets ∧
    packets.filter (fun p => p.request = w.request c) =
      [⟨(w.conns c).inst, w.request c, op, procId, callId, payload⟩]

/-- A call of the scheduler waits that was made by the request. -/
def Worker.Waits (w : Worker) (request : Request) : Prop :=
  ∃ k ∈ w.ready, ∃ call, w.calls k = some call ∧ call.request = request

section Served

variable {cfg : ServerConfig} {env : ℕ → Env} {handler : Handler} {userData : ℕ} {header : Header}
  {payload : List UInt8} {isAsync : Bool} {c : ℕ} {w w' : Worker} {m m' : Mid}

theorem Worker.Answered.once {op : Op} {procId callId : UInt64} {body : List UInt8}
    (h : w.Answered cfg c (w.conns c).inst
      ⟨(w.conns c).inst, w.request c, op, procId, callId, body⟩ w')
    (hhas : w'.Has c (w.conns c).inst) (hok : w'.queueFailed = false) (hpast : w.Past) :
    AnsweredOnce cfg c w w' op procId callId body := by
  obtain ⟨-, packets, hdelivers, honce⟩ := h
  have hemits := hdelivers.emits hhas hok
  obtain ⟨entries, hlog, hentries⟩ := hemits.log
  refine ⟨packets, ?_, hemits.conn.output (hpast.within c), honce hhas⟩
  rw [hlog, List.filter_append, hentries]

/-- The first action is the request. -/
theorem Served.exists_rest (h : Served cfg env handler userData header payload isAsync c m m') :
    ∃ m₁ rest, m₁.worker = (handlePacket cfg env m.worker c header payload).2 ∧
      (Inv m₁ ∧ (m.worker.conns c).inst < m₁.worker.nextInst) ∧
      Machine.exec (Mid.act cfg env) m₁ rest = some m' ∧
      Machine.Meets (Mid.act cfg env) (Follows handler.outcome (m.worker.request c)) m₁ rest := by
  obtain ⟨rest, hexec, hmeets⟩ := h.run
  obtain ⟨m₁, hact, hrest⟩ := Machine.exec_cons_eq_some.mp hexec
  have hinv := h.reached.past.1
  have hinst := hinv.conn.inst_lt c ((hinv.conn.mem_connections c).mp h.listed).1
  have hacts := Mid.act_eq_some_iff.mp hact
  have hnumbered := hacts.numbered ⟨hinv, hinst⟩
  cases hacts with
  | packet _ hc hvalid => exact ⟨_, rest, rfl, hnumbered, hrest, hmeets.2 _ hact⟩

/-- **What is queued for a sync call.** -/
theorem Served.sync_answers (h : Served cfg env handler userData header payload false c m m')
    (hok : m'.worker.queueFailed = false) :
    AnsweredOnce cfg c m.worker m'.worker (syncEnd handler userData header payload).op
      header.procId header.callId (syncEnd handler userData header payload).payload := by
  obtain ⟨hinv, hpast⟩ := h.reached.past
  obtain ⟨route, hoffers⟩ := h.offers
  obtain ⟨m₁, rest, hm₁, hnumbered, hexec, -⟩ := h.exists_rest
  have hfirst : m.worker.Answered cfg c (m.worker.conns c).inst _
      (handlePacket cfg env m.worker c header payload).2 :=
    handlePacket_answered hinv hpast h.listed h.rpc hoffers
  rw [← hm₁] at hfirst
  exact (hfirst.exec hnumbered hexec).once h.stays hok hpast

/-- **What is queued for an async call** that does not wait any more. -/
theorem Served.async_answers (h : Served cfg env handler userData header payload true c m m')
    (hok : m'.worker.queueFailed = false) (hended : ¬ m'.worker.Waits (m.worker.request c)) :
    AnsweredOnce cfg c m.worker m'.worker (asyncEnd handler userData header payload).op
      header.procId header.callId (asyncEnd handler userData header payload).payload := by
  obtain ⟨hinv, hpast⟩ := h.reached.past
  obtain ⟨route, hoffers⟩ := h.offers
  obtain ⟨m₁, rest, hm₁, hnumbered, hexec, hmeets⟩ := h.exists_rest
  have hfirst : m.worker.Answers cfg handler.outcome c (m.worker.conns c).inst _
      (handlePacket cfg env m.worker c header payload).2 :=
    handlePacket_answers hinv hpast h.listed h.rpc hoffers (h.slot rfl)
  rw [← hm₁] at hfirst
  cases hfirst.exec hnumbered hmeets hexec with
  | answered hanswered => exact hanswered.once h.stays hok hpast
  | @waiting packets k call hdelivers hawaits hconn hanswer hsilent =>
    exact absurd ⟨k, hawaits.ready, call, hawaits.call_eq, congrArg QueuedPacket.request hanswer⟩ hended

end Served

/-! ## The scheduler ends -/

/-- What a call does next that yields so many times more. -/
def Call.next (outcome : Call → HandlerOutcome) (call : Call) (left : ℕ) : Resume :=
  if left = 0 then .returns (outcome call) else .yields

/-- `wirecall_scheduler_run_ready`, with at most `fuel` turns: it resumes the call at the front until no
call is ready. The call in the slot `k` yields `left k` times more. -/
def runReady (cfg : ServerConfig) (env : ℕ → Env) (outcome : Call → HandlerOutcome) :
    ℕ → (ℕ → ℕ) → Worker → Option Worker
  | 0, _, _ => none
  | fuel + 1, left, w =>
    match w.ready with
    | [] => some w
    | k :: _ =>
      (w.calls k).bind fun call =>
        (resumeCall cfg env w (call.next outcome (left k))).bind
          (runReady cfg env outcome fuel (Function.update left k (left k - 1)))

/-- The resumes take the worker to one where no call is ready, and follow the handlers. -/
structure Drains (cfg : ServerConfig) (env : ℕ → Env) (outcome : Call → HandlerOutcome)
    (w w' : Worker) (resumes : List Resume) : Prop where
  empty : w'.ready = []
  exec : Machine.exec (Mid.act cfg env) w.mid (resumes.map .resume) = some w'.mid
  follows : Machine.Meets (Mid.act cfg env)
    (fun m action => ∀ request, Follows outcome request m action) w.mid (resumes.map .resume)
  stays : ∀ c inst, w.Has c inst → w'.Has c inst

section Drains

variable {cfg : ServerConfig} {env : ℕ → Env} {outcome : Call → HandlerOutcome} {k : ℕ} {w w' : Worker}
  {rest : List ℕ} {call : Call}

/-- A turn of a call that yields so many times more. -/
theorem exists_resumeCall_next (cfg : ServerConfig) (env : ℕ → Env) (outcome : Call → HandlerOutcome)
    (hinv : Inv w.mid) (hready : w.ready = k :: rest) (hcall : w.calls k = some call) (left : ℕ) :
    ∃ w₁, resumeCall cfg env w (call.next outcome left) = some w₁ ∧
      w₁.ready = rest ++ (if left = 0 then [] else [k]) ∧ ∀ c inst, w.Has c inst → w₁.Has c inst := by
  obtain ⟨w₁, hresume⟩ : ∃ w₁, resumeCall cfg env w (call.next outcome left) = some w₁ := by
    unfold resumeCall
    rw [hready]
    dsimp only
    rw [hcall]
    dsimp only
    cases (call.next outcome left).callEnd with
    | none => exact ⟨_, rfl⟩
    | some callEnd => exact ⟨_, rfl⟩
  refine ⟨w₁, hresume, ?_, ?_⟩
  · obtain ⟨k', rest', call', packets, hturn, hyields, hreturns⟩ :=
      @resumeCall_resumes cfg env 0 0 _ _ _ hinv hresume
    obtain ⟨rfl, rfl⟩ := List.cons.inj (hready.symm.trans hturn.ready)
    unfold Call.next at hyields hreturns
    split_ifs at hyields hreturns ⊢ with hleft
    · rw [(hreturns _ rfl).1, List.append_nil]
    · exact (hyields rfl).1
  · intro c inst
    obtain ⟨k', rest', call', packets, hturn, -⟩ :=
      @resumeCall_resumes cfg env c inst _ _ _ hinv hresume
    exact hturn.stays

/-- One turn before the others. -/
theorem Drains.cons {w₁ : Worker} {resumes : List Resume} {left : ℕ} (hready : w.ready = k :: rest)
    (hcall : w.calls k = some call) (hresume : resumeCall cfg env w (call.next outcome left) = some w₁)
    (hstays : ∀ c inst, w.Has c inst → w₁.Has c inst) (h : Drains cfg env outcome w₁ w' resumes) :
    Drains cfg env outcome w w' (call.next outcome left :: resumes) := by
  have hact : w.mid.act cfg env (.resume (call.next outcome left)) = some w₁.mid :=
    Mid.act_eq_some_iff.mpr (.resume hresume)
  refine ⟨h.empty, Machine.exec_cons_eq_some.mpr ⟨w₁.mid, hact, h.exec⟩, ⟨?_, ?_⟩,
    fun c inst hhas => h.stays c inst (hstays c inst hhas)⟩
  · intro request k' rest' call' hready' hcall' _
    obtain ⟨rfl, -⟩ := List.cons.inj (hready.symm.trans hready')
    obtain rfl : call = call' := Option.some.inj (hcall.symm.trans hcall')
    unfold Call.next
    split_ifs
    · exact .inr rfl
    · exact .inl rfl
  · intro m hm
    obtain rfl : w₁.mid = m := Option.some.inj (hact.symm.trans hm)
    exact h.follows

/-- The calls that are ready after a turn, with their yields. -/
theorem map_left_update {left : ℕ → ℕ} (hk : k ∉ rest) :
    (rest ++ (if left k = 0 then [] else [k])).map
        (fun k' => (k', Function.update left k (left k - 1) k')) =
      rest.map (fun k => (k, left k)) ++ (RoundRobin.requeue (k, left k)).toList := by
  rw [List.map_append]
  congr 1
  · refine List.map_congr_left fun k' hk' => ?_
    have hne : k' ≠ k := fun heq => hk (heq ▸ hk')
    rw [Function.update_of_ne hne]
  · cases hleft : left k with
    | zero => rfl
    | succ n =>
      rw [if_neg n.succ_ne_zero, List.map_singleton, Function.update_self]
      rfl

/-- **The scheduler ends**, for calls that yield finitely often. -/
theorem runReady_ends (cfg : ServerConfig) (env : ℕ → Env) (outcome : Call → HandlerOutcome)
    (left : ℕ → ℕ) (hinv : Inv w.mid) :
    ∃ fuel w' resumes, runReady cfg env outcome fuel left w = some w' ∧
      Drains cfg env outcome w w' resumes := by
  -- by induction over the turns of the queue, whose jobs are the calls with their yields
  obtain ⟨events, hruns⟩ := RoundRobin.exists_runs (w.ready.map fun k => (k, left k))
  generalize hq : (w.ready.map fun k => (k, left k)) = q at hruns
  induction hruns generalizing w left with
  | nil =>
    have hempty := List.map_eq_nil_iff.mp hq
    refine ⟨1, w, [], ?_, hempty, rfl, trivial, fun _ _ hhas => hhas⟩
    rw [runReady, hempty]
  | @cons job q events hruns ih =>
    obtain ⟨k, rest, hready, rfl, rfl⟩ := List.map_eq_cons_iff.mp hq
    obtain ⟨call, hcall, -⟩ := hinv.call.call k (by
      rw [show w.mid.worker.ready = k :: rest from hready]
      exact List.mem_cons_self)
    obtain ⟨w₁, hresume, hready₁, hstays⟩ :=
      exists_resumeCall_next cfg env outcome hinv hready hcall (left k)
    have hk : k ∉ rest := by
      have hnodup := hinv.call.nodup
      rw [show w.mid.worker.ready = k :: rest from hready] at hnodup
      exact (List.nodup_cons.mp hnodup).1
    obtain ⟨fuel, w', resumes, hrun, hdrains⟩ := ih (Function.update left k (left k - 1))
      (hinv.resume hresume) (by rw [hready₁]; exact map_left_update hk)
    refine ⟨fuel + 1, w', _, ?_, hdrains.cons hready hcall hresume hstays⟩
    rw [runReady, hready]
    dsimp only
    rw [show w.calls k = some call from hcall, Option.bind_some, hresume, Option.bind_some, hrun]

end Drains

/-! ## Agreement -/

/-- The scheduler goes on with a request that was served. -/
theorem Served.drain {cfg : ServerConfig} {env : ℕ → Env} {handler : Handler} {userData : ℕ}
    {header : Header} {payload : List UInt8} {isAsync : Bool} {c : ℕ} {m : Mid} {w w' : Worker}
    {outcome : Call → HandlerOutcome} {resumes : List Resume}
    (h : Served cfg env handler userData header payload isAsync c m w.mid)
    (houtcome : ∀ call, call.request = m.worker.request c → outcome call = handler.outcome call)
    (hdrains : Drains cfg env outcome w w' resumes) :
    Served cfg env handler userData header payload isAsync c m w'.mid := by
  obtain ⟨rest, hexec, hmeets⟩ := h.run
  refine { h with run := ⟨rest ++ resumes.map .resume, ?_, ?_⟩, stays := hdrains.stays _ _ h.stays }
  · rw [← List.cons_append, Machine.exec_append, hexec]
    exact hdrains.exec
  · rw [← List.cons_append]
    refine hmeets.append fun m₁ hm₁ => ?_
    obtain rfl : w.mid = m₁ := Option.some.inj (hexec.symm.trans hm₁)
    refine hdrains.follows.mono fun m₂ action hfollows => ?_
    cases action with
    | resume resume =>
      intro k rest' call hready hcall hrequest
      rw [← houtcome call hrequest]
      exact hfollows _ k rest' call hready hcall rfl
    | _ => trivial

/-- **Sync and async routes agree.** For every call and every deterministic handler, whether it is
registered as a sync route or as an async route, exactly one packet is queued for the call while its
connection stays open and no buffer is refused, and it is for the same operation, procedure and call.
Its payload is the same if it is a response or if the payload of the call is malformed. An async call
is answered when it does not wait any more, and the scheduler comes to that whatever the number of
yields of the calls that are ready. -/
theorem sync_async_agree (handler : Handler) (userData : ℕ) (header : Header) (payload : List UInt8) :
    ∃ op body body', (op = .response ∨ Malformed payload → body' = body) ∧
      (∀ cfg env c m m', Served cfg env handler userData header payload false c m m' →
        m'.worker.queueFailed = false →
        AnsweredOnce cfg c m.worker m'.worker op header.procId header.callId body) ∧
      (∀ cfg env c m m', Served cfg env handler userData header payload true c m m' →
        m'.worker.queueFailed = false → ¬ m'.worker.Waits (m.worker.request c) →
        AnsweredOnce cfg c m.worker m'.worker op header.procId header.callId body') ∧
      ∀ cfg env c m w, Served cfg env handler userData header payload true c m w.mid →
        ∀ outcome, (∀ call, call.request = m.worker.request c → outcome call = handler.outcome call) →
        ∀ left, ∃ fuel w', runReady cfg env outcome fuel left w = some w' ∧ w'.ready = [] ∧
          Served cfg env handler userData header payload true c m w'.mid := by
  obtain ⟨hop, hpayload⟩ := syncEnd_asyncEnd handler userData header payload
  refine ⟨(syncEnd handler userData header payload).op,
    (syncEnd handler userData header payload).payload,
    (asyncEnd handler userData header payload).payload, hpayload, ?_, ?_, ?_⟩
  · exact fun cfg env c m m' hserved hok => hserved.sync_answers hok
  · intro cfg env c m m' hserved hok hended
    rw [← hop]
    exact hserved.async_answers hok hended
  · intro cfg env c m w hserved outcome houtcome left
    have hinv : Inv w.mid := by
      obtain ⟨rest, hexec, -⟩ := hserved.run
      exact (hserved.reached.trans ⟨_, hexec⟩).past.1
    obtain ⟨fuel, w', resumes, hrun, hdrains⟩ := runReady_ends cfg env outcome left hinv
    exact ⟨fuel, w', hrun, hdrains.empty, hserved.drain houtcome hdrains⟩

theorem length_twoBytes_le : [(1 : UInt8), 2].length ≤ maxPayloadSize := by decide

/-- A handler that returns `0` and two bytes. -/
def twoBytes : HandlerOutcome := ⟨0, [1, 2], length_twoBytes_le⟩

/-- A server with this handler only, as a route of either kind. -/
def eitherEnv (isAsync : Bool) : Env :=
  .plenty (fun id => if id = 1 then some ⟨1, some 0, none, 0, none, isAsync, false⟩ else none)
    (fun _ _ _ => twoBytes) fun _ _ _ => ⟨-1, []⟩

/-- A socket is added, and the first packet on it is served. -/
theorem exists_served {isAsync : Bool} {header : Header} {payload : List UInt8} {rest : List Action}
    (hop : header.op = Op.rpc.code) (hproc : header.procId = 1)
    (hrest : ∀ action ∈ rest, action = .resume .yields ∨ action = .resume (.returns twoBytes))
    (hrun : (Machine.exec (Mid.act .plain fun _ => eitherEnv isAsync) workerInit.mid
      [.accept [3], .takeFds, .add]).any (fun m => decide (m.worker.Has 0 0 ∧
        m.worker.callArena.alloc.isSome ∧
        (Machine.exec (Mid.act .plain fun _ => eitherEnv isAsync) m
          (.packet 0 header payload :: rest)).any
          (fun m' => decide (m'.worker.Has 0 0 ∧ m'.worker.queueFailed = false ∧ m'.worker.ready = []))
          = true)) = true) :
    ∃ m m', Served .plain (fun _ => eitherEnv isAsync) (fun _ _ _ => twoBytes) 0 header payload isAsync
        0 m m' ∧ m'.worker.queueFailed = false ∧ m'.worker.ready = [] := by
  obtain ⟨m, hm, hfacts⟩ := Machine.exists_of_any hrun
  obtain ⟨hhas, hslot, hserve⟩ := of_decide_eq_true hfacts
  obtain ⟨m', hm', hfacts'⟩ := Machine.exists_of_any hserve
  obtain ⟨hhas', hok, hready⟩ := of_decide_eq_true hfacts'
  have hoffers : Offers (eitherEnv isAsync) (fun _ _ _ => twoBytes) 0 isAsync header.procId
      ⟨1, some 0, none, 0, none, isAsync, false⟩ := by
    rw [hproc]
    exact ⟨rfl, rfl, rfl, rfl, rfl, fun _ _ _ => rfl, DecodeMem.granting_grants, rfl, rfl⟩
  refine ⟨m, m', ⟨⟨_, hm⟩, hhas.1, hop, ⟨_, hoffers⟩, fun _ => hslot, ⟨rest, hm', ?_⟩, ?_⟩, hok, hready⟩
  · refine ⟨trivial, fun m₁ _ => .of_forall fun m₂ action haction => ?_⟩
    rcases hrest action haction with rfl | rfl
    · exact fun _ _ _ _ _ _ => .inl rfl
    · exact fun _ _ _ _ _ _ => .inr rfl
  · rw [hhas.2]
    exact hhas'

/-- A call without arguments on either kind of route: the sync call is answered when it is handled, and
the async call when it has yielded twice. -/
theorem sync_async_agree_two_yields :
    let handler : Handler := fun _ _ _ => twoBytes
    let header : Header := ⟨Op.rpc.code, 0, 1, 0, 7, 0, 0⟩
    ∃ op body body' m₁ m₁' m₂ m₂', (op = .response ∨ Malformed [] → body' = body) ∧
      Served .plain (fun _ => eitherEnv false) handler 0 header [] false 0 m₁ m₁' ∧
      AnsweredOnce .plain 0 m₁.worker m₁'.worker op 1 7 body ∧
      Served .plain (fun _ => eitherEnv true) handler 0 header [] true 0 m₂ m₂' ∧
      AnsweredOnce .plain 0 m₂.worker m₂'.worker op 1 7 body' := by
  intro handler header
  obtain ⟨op, body, body', hsame, hsync, hasync, -⟩ := sync_async_agree handler 0 header []
  obtain ⟨m₁, m₁', hserved₁, hok₁, -⟩ := @exists_served false header [] [] rfl rfl
    (List.forall_mem_nil _) (by decide +kernel)
  obtain ⟨m₂, m₂', hserved₂, hok₂, hready₂⟩ := @exists_served true header []
    [.resume .yields, .resume .yields, .resume (.returns twoBytes)] rfl rfl (by simp)
    (by decide +kernel)
  have hended : ¬ m₂'.worker.Waits (m₂.worker.request 0) := by
    rintro ⟨k, hk, -⟩
    rw [hready₂] at hk
    cases hk
  exact ⟨op, body, body', m₁, m₁', m₂, m₂', hsame, hserved₁, hsync _ _ _ _ _ hserved₁ hok₁, hserved₂,
    hasync _ _ _ _ _ hserved₂ hok₂ hended⟩

end Wirecall

import Wirecall.Server.Packets

/-!
# Calls that wait for their answer

A call that was submitted waits in the scheduler until it returns, and every other action leaves it
there: other packets, other calls, completions of deferred calls, and connections that come and go.
Its own resumes put it back at the end of the queue, or answer it and give its slot back. After that
nothing is left that could answer the request a second time.

## Main definitions

* `CallEnd.op`, `CallEnd.payload`: the packet that reports the end of a call
* `Worker.Resumes`: what a turn of the scheduler does
* `Worker.Past`: whatever waits was requested earlier
* `Worker.Only`, `Worker.Awaits`: nothing waits for a request but calls in some slots, or one call
* `Worker.Answers`: between two states a request waits, or it was answered once

## Main results

* `resumeCall_resumes`: the packets of a turn
* `Reaches.past`: `Worker.Past` holds in every reachable state
* `Worker.Answers.exec`: **a call that waits is answered at most once, by what its handler returns**
-/

namespace Wirecall

/-! ## The end of a call -/

/-- The operation of the packet that reports the end of a call. -/
def CallEnd.op : CallEnd → Op
  | .response _ => .response
  | .failed _ => .error

/-- Its payload. -/
def CallEnd.payload : CallEnd → List UInt8
  | .response data => data.data
  | .failed error => errorPayload (if error ≠ [] then error else text "procedure failed")

/-- The error text fits into the buffer of a call. -/
def CallEnd.Short : CallEnd → Prop
  | .response _ => True
  | .failed error => error.length ≤ 1000

/-- How a call ends whose handler returned. -/
def HandlerOutcome.callEnd (outcome : HandlerOutcome) : CallEnd :=
  if outcome.result = 0 then .response outcome.response
  else .failed (errorText (text s!"procedure returned {outcome.result}"))

theorem callEnd_returns (outcome : HandlerOutcome) :
    (Resume.returns outcome).callEnd = some outcome.callEnd := by
  unfold Resume.callEnd HandlerOutcome.callEnd
  dsimp only
  split_ifs <;> rfl

theorem HandlerOutcome.callEnd_short (outcome : HandlerOutcome) : outcome.callEnd.Short := by
  unfold HandlerOutcome.callEnd
  split_ifs
  · trivial
  · exact length_errorText_le _

/-- **The end of a call is reported by its packet**, on a connection that takes output. -/
theorem onCallDone_queues (cfg : ServerConfig) (mem : Mem) {w : Worker} {call : Call}
    {callEnd : CallEnd} (hopen : (w.conns call.conn).Open) (hshort : callEnd.Short) :
    ∃ rc, Queues cfg w call.conn call.request callEnd.op call.ctx.procId call.ctx.callId
      callEnd.payload (rc, onCallDone cfg mem w call callEnd) := by
  cases callEnd with
  | response data => exact ⟨_, queuePacket_cases cfg mem hopen _ _ _ _ data.len_le⟩
  | failed error =>
    refine ⟨_, queueStringError_cases cfg mem hopen _ _ _ ?_⟩
    split_ifs
    · exact hshort
    · decide

section Resumes

variable {cfg : ServerConfig} {env : ℕ → Env} {c inst k : ℕ} {w w' : Worker} {call : Call}
  {rest : List ℕ} {request : Request} {packets : List QueuedPacket}

/-- **What a turn of the scheduler does**: the call at the front yields and goes to the end of the
queue, or it leaves the queue and its slot is given back. All packets are for its request. -/
structure Worker.Resumes (cfg : ServerConfig) (c inst : ℕ) (w w' : Worker) (k : ℕ) (rest : List ℕ)
    (call : Call) (packets : List QueuedPacket) : Prop
    extends Worker.Delivers cfg c inst w w' packets where
  ready : w.ready = k :: rest
  call_eq : w.calls k = some call
  deferred : w'.undrained = w.undrained ∧ w'.deferreds = w.deferreds
  origin : ∀ p ∈ packets, p.request = call.request
  stays : w.Has c inst → w'.Has c inst
  left : (w'.ready = rest ++ [k] ∧ w'.calls = w.calls) ∨
    (w'.ready = rest ∧ w'.calls = Function.update w.calls k none)

/-- A connection stays open while packets are queued. -/
theorem Attempts.has {c' : ℕ} {op : Op} {procId callId : UInt64}
    (h : Attempts cfg w c' request op procId callId w') (hhas : w.Has c inst) : w'.Has c inst := by
  cases h with
  | @queues payload _ hopen hqueues =>
    refine ⟨?_, Eq.trans ?_ hhas.2⟩
    · obtain ⟨conns, writes, entries, failed, -, heq⟩ := hqueues.eq
      rw [heq]
      exact hhas.1
    · cases hqueues with
      | failed bytes cap =>
        have hinst : ((w.conns c').appendOut bytes cap).inst = (w.conns c').inst := rfl
        exact Worker.inst_setConn hinst c
      | @queued front cap hfront =>
        have hinst : ({ (w.conns c').appendOut (front ++ payload) cap with
            writeQueued := true } : Conn).inst = (w.conns c').inst := rfl
        rw [Worker.queued_eq]
        exact Worker.inst_setConn hinst c
  | refused => exact hhas
  | failed => exact hhas

/-- A slot below the watermark that takes output is live. -/
theorem Inv.live_of_open {m : Mid} (hinv : Inv m) (hlt : c < m.worker.connectionArena.watermark)
    (hopen : (m.worker.conns c).Open) : m.worker.connectionArena.Live c := by
  refine ⟨hlt, fun hfree => ?_⟩
  have hdetached := hinv.conn.gone c hfree
  rw [hopen.1] at hdetached
  cases hdetached

/-- The report of a call that was taken off the queue: it goes to the connection in the slot of the
call, if there is one, and so to another connection than `inst` if the slot is another. -/
theorem onCallDone_delivers {w₀ : Worker} (mem : Mem) (callEnd : CallEnd) (hinv : Inv w.mid)
    (hconns : w₀.conns = w.conns) (hlist : w₀.connections = w.connections)
    (hlt : call.conn < w.connectionArena.watermark) :
    ∃ packets, w₀.Delivers cfg c inst (onCallDone cfg mem w₀ call callEnd) packets ∧
      (∀ p ∈ packets, p.request = call.request) ∧
      (callEnd.Short → call.conn = c → w.Has c inst → packets = [⟨inst, call.request, callEnd.op,
        call.ctx.procId, call.ctx.callId, callEnd.payload⟩]) := by
  by_cases hown : callEnd.Short ∧ call.conn = c ∧ w.Has c inst
  · obtain ⟨hshort, rfl, hhas⟩ := hown
    have hopen : (w₀.conns call.conn).Open := by
      rw [hconns]
      exact hinv.isOpen hhas.1
    obtain ⟨rc, hqueues⟩ := onCallDone_queues cfg mem hopen hshort
    have hsteps : w₀.Steps cfg call.conn inst call.request.tick
        (onCallDone cfg mem w₀ call callEnd) _ :=
      hqueues.steps (fun _ hne => absurd rfl hne) (.inl le_rfl)
    rw [hconns, hhas.2] at hsteps
    refine ⟨_, hsteps.toDelivers, fun p hp => ?_, fun _ _ _ => rfl⟩
    rw [List.mem_singleton.mp hp]
  · have hother : (w₀.conns call.conn).Open → w₀.Has c inst → call.conn ≠ c →
        (w₀.conns call.conn).inst ≠ inst := by
      rintro hopen ⟨hc, hinst⟩ hne
      rw [hconns] at hopen hinst ⊢
      rw [hlist] at hc
      exact hinv.inst_ne (hinv.live_of_open hlt hopen) ⟨hc, hinst⟩ hne
    obtain ⟨op, hattempts⟩ := onCallDone_attempts cfg mem w₀ call callEnd
    obtain ⟨packets, hsteps, horigin⟩ := hattempts.steps hother (.inl (le_refl call.request.tick))
    exact ⟨packets, hsteps.toDelivers, horigin,
      fun hshort hconn hhas => absurd ⟨hshort, hconn, hhas⟩ hown⟩

/-- **The packets of a turn**: none if the call yields, and its answer if it ends while its connection
is open. -/
theorem resumeCall_resumes {resume : Resume} (hinv : Inv w.mid)
    (h : resumeCall cfg env w resume = some w') :
    ∃ k rest call packets, w.Resumes cfg c inst w' k rest call packets ∧
      (resume = .yields → w'.ready = rest ++ [k] ∧ w'.calls = w.calls ∧ packets = []) ∧
      ∀ outcome, resume = .returns outcome →
        w'.ready = rest ∧ w'.calls = Function.update w.calls k none ∧
        (call.conn = c → w.Has c inst → packets = [⟨inst, call.request, outcome.callEnd.op,
          call.ctx.procId, call.ctx.callId, outcome.callEnd.payload⟩]) := by
  obtain ⟨k, rest, call, hready, hcall, ⟨hend, rfl⟩ | ⟨callEnd, hend, rfl⟩⟩ := resumeCall_eq_some h
  · refine ⟨k, rest, call, [], ⟨?_, hready, hcall, ⟨rfl, rfl⟩, List.forall_mem_nil _, id,
      .inl ⟨rfl, rfl⟩⟩, fun _ => ⟨rfl, rfl, rfl⟩, ?_⟩
    · exact .quiet (fun _ => .refl _) rfl (List.append_nil _).symm (List.forall_mem_nil _) rfl
        (Nat.le_succ _) le_rfl
    · rintro outcome rfl
      rw [callEnd_returns] at hend
      cases hend
  · -- the call leaves the queue, its end is reported, and its slot is given back
    have hlt : call.conn < w.connectionArena.watermark := by
      obtain ⟨call', hcall', hlt⟩ := hinv.call.call k (by
        rw [show w.mid.worker.ready = k :: rest from hready]
        exact List.mem_cons_self)
      rwa [Option.some.inj (hcall.symm.trans hcall')]
    have htaken : w.Delivers cfg c inst { w with ready := rest, tick := w.tick + 1 } [] :=
      .quiet (fun _ => .refl _) rfl (List.append_nil _).symm (List.forall_mem_nil _) rfl
        (Nat.le_succ _) le_rfl
    obtain ⟨packets, hreplied, horigin, hexact⟩ := @onCallDone_delivers cfg c inst w call
      { w with ready := rest, tick := w.tick + 1 } (env w.tick).mem callEnd hinv rfl rfl hlt
    obtain ⟨op, hattempts⟩ := onCallDone_attempts cfg (env w.tick).mem
      { w with ready := rest, tick := w.tick + 1 } call callEnd
    obtain ⟨conns, writes, entries, failed, -, hdone⟩ := hattempts.eq
    have hstays : w.Has c inst → _ := fun hhas => hattempts.has hhas
    generalize onCallDone cfg (env w.tick).mem { w with ready := rest, tick := w.tick + 1 } call
      callEnd = w₁ at hreplied hdone hstays ⊢
    have hfreed : w₁.Delivers cfg c inst (callFree w₁ k) [] :=
      .quiet (fun _ => .refl _) rfl (List.append_nil _).symm (List.forall_mem_nil _) rfl le_rfl le_rfl
    have hdelivers := (htaken.trans hreplied).trans hfreed
    rw [List.nil_append, List.append_nil] at hdelivers
    have hleft : (callFree w₁ k).ready = rest ∧
        (callFree w₁ k).calls = Function.update w.calls k none := by
      rw [hdone]
      exact ⟨rfl, rfl⟩
    refine ⟨k, rest, call, packets, ⟨hdelivers, hready, hcall, ?_, horigin, hstays, .inr hleft⟩, ?_, ?_⟩
    · rw [hdone]
      exact ⟨rfl, rfl⟩
    · rintro rfl
      cases hend
    · rintro outcome rfl
      rw [callEnd_returns] at hend
      cases hend
      exact ⟨hleft.1, hleft.2, hexact outcome.callEnd_short⟩

/-- Whatever is queued after a turn was queued before. -/
theorem Worker.Resumes.called (h : w.Resumes cfg c inst w' k rest call packets) {k' : ℕ}
    {call' : Call} (hk' : k' ∈ w'.ready) (hcall' : w'.calls k' = some call') :
    k' ∈ w.ready ∧ w.calls k' = some call' := by
  rw [h.ready]
  rcases h.left with ⟨hready, hcalls⟩ | ⟨hready, hcalls⟩
  · rw [hready] at hk'
    rw [hcalls] at hcall'
    refine ⟨?_, hcall'⟩
    rcases List.mem_append.mp hk' with hrest | hlast
    · exact List.mem_cons_of_mem k hrest
    · rw [List.mem_singleton.mp hlast]
      exact List.mem_cons_self
  · rw [hready] at hk'
    rw [hcalls] at hcall'
    -- the slot of the call that ended is empty
    have hne : k' ≠ k := by
      rintro rfl
      rw [Function.update_self] at hcall'
      cases hcall'
    rw [Function.update_of_ne hne] at hcall'
    exact ⟨List.mem_cons_of_mem k hk', hcall'⟩

/-- Another call stays in the queue. -/
theorem Worker.Resumes.kept (h : w.Resumes cfg c inst w' k rest call packets) {k' : ℕ} (hne : k' ≠ k)
    (hk' : k' ∈ w.ready) : k' ∈ w'.ready ∧ w'.calls k' = w.calls k' := by
  rw [h.ready] at hk'
  have hrest := (List.mem_cons.mp hk').resolve_left hne
  rcases h.left with ⟨hready, hcalls⟩ | ⟨hready, hcalls⟩
  · rw [hready, hcalls]
    exact ⟨List.mem_append_left _ hrest, rfl⟩
  · rw [hready, hcalls]
    exact ⟨hrest, Function.update_of_ne hne _ _⟩

end Resumes

/-! ## What waits -/

section Waiting

variable {cfg : ServerConfig} {env : ℕ → Env} {c inst k : ℕ} {w w' : Worker} {call : Call}
  {rest : List ℕ} {request : Request} {packets : List QueuedPacket} {m m' : Mid} {action : Action}

/-- **Whatever waits was requested earlier**: the calls of the scheduler and the deferred calls. -/
structure Worker.Past (w : Worker) : Prop where
  called : ∀ k ∈ w.ready, ∀ call, w.calls k = some call → call.request.tick < w.tick
  deferred : ∀ d ∈ w.undrained, (w.deferreds d).request.tick < w.tick
  within : ∀ c, (w.conns c).Within

/-- For a request that was made, only calls in the slots wait, and no deferred call does. -/
structure Worker.Only (w : Worker) (request : Request) (slots : Set ℕ) : Prop where
  called : ∀ k ∈ w.ready, ∀ call, w.calls k = some call → call.request = request → k ∈ slots
  deferred : ∀ d ∈ w.undrained, (w.deferreds d).request ≠ request
  past : request.tick < w.tick

/-- The call waits in the slot `k`, and nothing else waits for its request. -/
structure Worker.Awaits (w : Worker) (k : ℕ) (call : Call) : Prop
    extends Worker.Only w call.request {k} where
  ready : k ∈ w.ready
  call_eq : w.calls k = some call

theorem Worker.Steps.past (h : w.Steps cfg c inst w.tick w' packets) (hpast : w.Past) : w'.Past where
  called k hk call hcall := by
    rcases h.called k hk call hcall with ⟨hold, hsame⟩ | ⟨-, hlt⟩
    · exact (hpast.called k hold call hsame).trans_le h.tick
    · exact hlt
  deferred d hd := by
    rcases h.deferred d hd with ⟨hold, hsame⟩ | ⟨-, hlt⟩
    · rw [hsame]
      exact (hpast.deferred d hold).trans_le h.tick
    · exact hlt
  within := h.within hpast.within

theorem Worker.Resumes.past (h : w.Resumes cfg c inst w' k rest call packets) (hpast : w.Past) :
    w'.Past where
  called k' hk' call' hcall' := by
    obtain ⟨hold, hsame⟩ := h.called hk' hcall'
    exact (hpast.called k' hold call' hsame).trans_le h.tick
  deferred d hd := by
    rw [h.deferred.1] at hd
    rw [h.deferred.2]
    exact (hpast.deferred d hd).trans_le h.tick
  within := h.within hpast.within

/-- **Every action is a step, or a turn of the scheduler.** -/
theorem Mid.Acts.steps_or_resumes (h : Mid.Acts cfg env m action m') (hinv : Inv m)
    (hinst : inst ≠ m.worker.nextInst) :
    (∃ packets, m.worker.Steps cfg c inst m.worker.tick m'.worker packets) ∨
      ∃ resume, action = .resume resume ∧ m = m.worker.mid ∧
        resumeCall cfg env m.worker resume = some m'.worker := by
  by_cases hresume : ∃ resume, action = .resume resume
  · obtain ⟨resume, rfl⟩ := hresume
    cases h with
    | resume hresumed => exact .inr ⟨resume, rfl, rfl, hresumed⟩
  · exact .inl (h.steps hinv hinst fun resume heq => hresume ⟨resume, heq⟩)

/-- **Whatever waits was requested earlier**, in every state a worker reaches. -/
theorem Reaches.past (h : Reaches cfg env workerInit.mid m) : Inv m ∧ m.worker.Past := by
  obtain ⟨actions, hexec⟩ := h
  refine Machine.exec_invariant (P := fun m => Inv m ∧ m.worker.Past) ?_ ⟨inv_workerInit, ?_⟩
    (.of_forall fun _ _ _ => trivial) hexec
  · rintro m action m' ⟨hinv, hpast⟩ - hact
    have hacts := Mid.act_eq_some_iff.mp hact
    refine ⟨hacts.inv hinv, ?_⟩
    -- which connection is looked at does not matter here
    rcases hacts.steps_or_resumes (c := 0) hinv (Nat.succ_ne_self _) with
      ⟨packets, hsteps⟩ | ⟨resume, -, hm, hresumed⟩
    · exact hsteps.past hpast
    · obtain ⟨k, rest, call, packets, hturn, -⟩ :=
        @resumeCall_resumes cfg env 0 0 _ _ resume (hm ▸ hinv) hresumed
      exact hturn.past hpast
  · exact ⟨(fun k hk => by cases hk), (fun d hd => by cases hd), fun c => Nat.le_refl 0⟩

/-- A step answers no request that was made before, and makes no call for it. -/
theorem Worker.Steps.only {slots : Set ℕ} (h : w.Steps cfg c inst w.tick w' packets)
    (honly : w.Only request slots) :
    w'.Only request slots ∧ ∀ p ∈ packets, p.request ≠ request := by
  -- whatever is new has a later tick
  have hnew : ∀ request' : Request, w.tick ≤ request'.tick → request' ≠ request := by
    rintro request' hle rfl
    exact absurd honly.past (not_lt.mpr hle)
  refine ⟨⟨?_, ?_, honly.past.trans_le h.tick⟩, ?_⟩
  · intro k hk call hcall heq
    rcases h.called k hk call hcall with ⟨hold, hsame⟩ | ⟨hle, -⟩
    · exact honly.called k hold call hsame heq
    · exact absurd heq (hnew _ hle)
  · intro d hd
    rcases h.deferred d hd with ⟨hold, hsame⟩ | ⟨hle, -⟩
    · rw [hsame]
      exact honly.deferred d hold
    · exact hnew _ hle
  · intro p hp
    rcases h.origin p hp with hle | ⟨d, hd, heq⟩
    · exact hnew _ hle
    · rw [← heq]
      exact honly.deferred d hd

/-- A turn of the scheduler makes no call. -/
theorem Worker.Resumes.only {slots : Set ℕ} (h : w.Resumes cfg c inst w' k rest call packets)
    (honly : w.Only request slots) : w'.Only request slots := by
  refine ⟨?_, ?_, honly.past.trans_le h.tick⟩
  · intro k' hk' call' hcall' heq
    obtain ⟨hold, hsame⟩ := h.called hk' hcall'
    exact honly.called k' hold call' hsame heq
  · rw [h.deferred.1, h.deferred.2]
    exact honly.deferred

/-- A turn of another call does not answer the request. -/
theorem Worker.Resumes.request_ne {slots : Set ℕ} (h : w.Resumes cfg c inst w' k rest call packets)
    (honly : w.Only request slots) (hk : k ∉ slots) : ∀ p ∈ packets, p.request ≠ request := by
  intro p hp heq
  rw [h.origin p hp] at heq
  exact hk (honly.called k (by rw [h.ready]; exact List.mem_cons_self) call h.call_eq heq)

/-- The turn at which the call ends. -/
theorem Worker.Resumes.settles {call' : Call} (h : w.Resumes cfg c inst w' k rest call' packets)
    (hawaits : w.Awaits k call) (hempty : w'.calls k = none) : w'.Only call.request ∅ := by
  have honly := h.only hawaits.toOnly
  refine ⟨?_, honly.deferred, honly.past⟩
  intro k' hk' call'' hcall'' heq
  obtain rfl : k' = k := honly.called k' hk' call'' hcall'' heq
  rw [hempty] at hcall''
  cases hcall''

end Waiting

/-! ## Runs -/

/-- A resume of a call that was made by a request leads to what its handler does: it yields, or it
returns its outcome. -/
def Follows (outcome : Call → HandlerOutcome) (request : Request) (m : Mid) : Action → Prop
  | .resume resume => ∀ k rest call, m.worker.ready = k :: rest → m.worker.calls k = some call →
      call.request = request → resume = .yields ∨ resume = .returns (outcome call)
  | _ => True

/-- The packet by which a call is answered on a connection. -/
def Call.answer (outcome : Call → HandlerOutcome) (inst : ℕ) (call : Call) : QueuedPacket :=
  ⟨inst, call.request, (outcome call).callEnd.op, call.ctx.procId, call.ctx.callId,
    (outcome call).callEnd.payload⟩

/-- Between two states a request was answered once, and nothing waits for it. -/
def Worker.Answered (cfg : ServerConfig) (c inst : ℕ) (answer : QueuedPacket) (w w' : Worker) : Prop :=
  w'.Only answer.request ∅ ∧ ∃ packets, w.Delivers cfg c inst w' packets ∧
    (w'.Has c inst → packets.filter (fun p => p.request = answer.request) = [answer])

/-- **Between two states a request waits, or it was answered once.** -/
inductive Worker.Answers (cfg : ServerConfig) (outcome : Call → HandlerOutcome) (c inst : ℕ)
    (answer : QueuedPacket) (w w' : Worker) : Prop
  | waiting {packets : List QueuedPacket} {k : ℕ} {call : Call}
      (hdelivers : w.Delivers cfg c inst w' packets) (hawaits : w'.Awaits k call)
      (hconn : call.conn = c) (hanswer : call.answer outcome inst = answer)
      (hsilent : ∀ p ∈ packets, p.request ≠ answer.request) : Answers cfg outcome c inst answer w w'
  | answered (hanswered : w.Answered cfg c inst answer w') : Answers cfg outcome c inst answer w w'

section Answers

variable {cfg : ServerConfig} {env : ℕ → Env} {c inst : ℕ} {w : Worker} {m m' : Mid}
  {outcome : Call → HandlerOutcome} {answer : QueuedPacket} {actions : List Action} {action : Action}

theorem filter_request_eq_nil {packets : List QueuedPacket} {request : Request}
    (h : ∀ p ∈ packets, p.request ≠ request) :
    packets.filter (fun p => p.request = request) = [] :=
  List.filter_eq_nil_iff.mpr fun p hp => by simpa using h p hp

/-- Other packets may follow the answer. -/
theorem Worker.Answered.trans {w' w'' : Worker} {packets : List QueuedPacket}
    (h : w.Answered cfg c inst answer w') (hdelivers : w'.Delivers cfg c inst w'' packets)
    (honly : w''.Only answer.request ∅) (hsilent : ∀ p ∈ packets, p.request ≠ answer.request) :
    w.Answered cfg c inst answer w'' := by
  obtain ⟨-, packets', hdelivers', honce⟩ := h
  refine ⟨honly, packets' ++ packets, hdelivers'.trans hdelivers, fun hhas => ?_⟩
  rw [List.filter_append, honce (hdelivers.listed hhas), filter_request_eq_nil hsilent,
    List.append_nil]

/-- Connections are numbered upwards. -/
theorem Mid.Acts.numbered (h : Mid.Acts cfg env m action m')
    (hnumbered : Inv m ∧ inst < m.worker.nextInst) :
    Inv m' ∧ inst < m'.worker.nextInst := by
  obtain ⟨hinv, hinst⟩ := hnumbered
  refine ⟨h.inv hinv, ?_⟩
  rcases h.steps_or_resumes (c := 0) hinv hinst.ne with
    ⟨packets, hsteps⟩ | ⟨resume, -, hm, hresumed⟩
  · exact hinst.trans_le hsteps.nextInst
  · obtain ⟨k, rest, call, packets, hturn, -⟩ :=
      @resumeCall_resumes cfg env 0 inst _ _ resume (hm ▸ hinv) hresumed
    exact hinst.trans_le hturn.nextInst

/-- **No action answers a request again.** -/
theorem Worker.Answered.act (h : w.Answered cfg c inst answer m.worker) (hinv : Inv m)
    (hinst : inst ≠ m.worker.nextInst) (hacts : Mid.Acts cfg env m action m') :
    w.Answered cfg c inst answer m'.worker := by
  rcases hacts.steps_or_resumes (c := c) hinv hinst with
    ⟨packets, hsteps⟩ | ⟨resume, -, hm, hresumed⟩
  · obtain ⟨honly, hsilent⟩ := hsteps.only h.1
    exact h.trans hsteps.toDelivers honly hsilent
  · obtain ⟨k, rest, call, packets, hturn, -⟩ :=
      @resumeCall_resumes cfg env c inst _ _ resume (hm ▸ hinv) hresumed
    exact h.trans hturn.toDelivers (hturn.only h.1) (hturn.request_ne h.1 (Set.notMem_empty _))

/-- **What an action does to a request that waits.** -/
theorem Worker.Answers.act (h : w.Answers cfg outcome c inst answer m.worker) (hinv : Inv m)
    (hinst : inst ≠ m.worker.nextInst) (hfollows : Follows outcome answer.request m action)
    (hacts : Mid.Acts cfg env m action m') : w.Answers cfg outcome c inst answer m'.worker := by
  cases h with
  | answered hanswered => exact .answered (hanswered.act hinv hinst hacts)
  | @waiting packets k call hdelivers hawaits hconn hanswer hsilent =>
    subst hanswer
    rcases hacts.steps_or_resumes (c := c) hinv hinst with
      ⟨packets', hsteps⟩ | ⟨resume, rfl, hm, hresumed⟩
    · obtain ⟨honly, hsilent'⟩ := hsteps.only hawaits.toOnly
      obtain ⟨hk, hcall⟩ := hsteps.kept k hawaits.ready
      exact .waiting (hdelivers.trans hsteps.toDelivers) ⟨honly, hk, hcall.trans hawaits.call_eq⟩ hconn
        rfl (List.forall_mem_append.mpr ⟨hsilent, hsilent'⟩)
    · obtain ⟨k', rest, call', packets', hturn, hyields, hreturns⟩ :=
        @resumeCall_resumes cfg env c inst _ _ resume (hm ▸ hinv) hresumed
      have honly := hturn.only hawaits.toOnly
      by_cases hk : k = k'
      · -- the call itself: it yields, or it is answered
        subst hk
        obtain rfl : call = call' := Option.some.inj (hawaits.call_eq.symm.trans hturn.call_eq)
        rcases hfollows k rest call hturn.ready hturn.call_eq rfl with rfl | rfl
        · obtain ⟨hready, hcalls, rfl⟩ := hyields rfl
          refine .waiting (hdelivers.trans hturn.toDelivers) ⟨honly, ?_, ?_⟩ hconn rfl ?_
          · rw [hready]
            exact List.mem_append_right _ (List.mem_singleton_self k)
          · rw [hcalls]
            exact hawaits.call_eq
          · rwa [List.append_nil]
        · obtain ⟨-, hcalls, hpackets⟩ := hreturns _ rfl
          have hempty : m'.worker.calls k = none := by rw [hcalls, Function.update_self]
          refine .answered ⟨hturn.settles hawaits hempty, _, hdelivers.trans hturn.toDelivers,
            fun hhas => ?_⟩
          rw [List.filter_append, filter_request_eq_nil hsilent, hpackets hconn (hturn.listed hhas),
            List.nil_append]
          exact List.filter_eq_self.mpr (by simp [Call.answer])
      · -- another call, which is for another request
        obtain ⟨hready, hcall⟩ := hturn.kept hk hawaits.ready
        have hsilent' : ∀ p ∈ packets', p.request ≠ call.request :=
          hturn.request_ne hawaits.toOnly fun heq => hk heq.symm
        exact .waiting (hdelivers.trans hturn.toDelivers) ⟨honly, hready, hcall.trans hawaits.call_eq⟩
          hconn rfl (List.forall_mem_append.mpr ⟨hsilent, hsilent'⟩)

/-- **No run answers a request again.** -/
theorem Worker.Answered.exec (h : w.Answered cfg c inst answer m.worker)
    (hnumbered : Inv m ∧ inst < m.worker.nextInst)
    (hexec : Machine.exec (Mid.act cfg env) m actions = some m') :
    w.Answered cfg c inst answer m'.worker := by
  refine (Machine.exec_invariant (P := fun m => (Inv m ∧ inst < m.worker.nextInst) ∧
    w.Answered cfg c inst answer m.worker) ?_ ⟨hnumbered, h⟩ (.of_forall fun _ _ _ => trivial) hexec).2
  rintro m action m' ⟨hnumbered, h⟩ - hact
  have hacts := Mid.act_eq_some_iff.mp hact
  exact ⟨hacts.numbered hnumbered, h.act hnumbered.1 hnumbered.2.ne hacts⟩

/-- **A run answers a request that waits at most once**, by what its handler returns. -/
theorem Worker.Answers.exec (h : w.Answers cfg outcome c inst answer m.worker)
    (hnumbered : Inv m ∧ inst < m.worker.nextInst)
    (hfollows : Machine.Meets (Mid.act cfg env) (Follows outcome answer.request) m actions)
    (hexec : Machine.exec (Mid.act cfg env) m actions = some m') :
    w.Answers cfg outcome c inst answer m'.worker := by
  refine (Machine.exec_invariant (P := fun m => (Inv m ∧ inst < m.worker.nextInst) ∧
    w.Answers cfg outcome c inst answer m.worker) ?_ ⟨hnumbered, h⟩ hfollows hexec).2
  rintro m action m' ⟨hnumbered, h⟩ hfollows hact
  have hacts := Mid.act_eq_some_iff.mp hact
  exact ⟨hacts.numbered hnumbered, h.act hnumbered.1 hnumbered.2.ne hfollows hacts⟩

end Answers

end Wirecall

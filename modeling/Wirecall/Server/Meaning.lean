import Wirecall.Server.Framing

/-!
# The server as a function of its stream

A packet that is neither a DISCONNECT nor a call of a deferred or an async route is answered while
it is handled: a PING with an empty response, a call of an unknown procedure and a payload that does
not decode with an error, a call of a sync route with what its handler wrote. For such packets the
output of a connection is a function of its input: the replies one after the other, whatever the
pieces in which the socket takes and gives the bytes.

A DISCONNECT only marks the connection. Packets that were received together with it are still
handled, so what follows the first DISCONNECT may be answered or not.

## Main definitions

* `Serves`: the routes and handlers of a server do not change
* `Exchange`, `exchangeAll`: reads and writes of the server on one connection
* `answerOf`: the operation, the procedure and the payload of the answer to a packet
* `AtOnce`: the packet is handled without an async or a deferred call
* `replyBytes`: the bytes that answer a packet

## Main results

* `handlePacket_answer`: handling a packet queues its answer
* `replying_exchangeAll`: reads and writes in any order keep the output the replies to the input
* `served_stream`: **the output is the replies to the packets of the stream**
-/

namespace Wirecall

open Framing

/-! ## What a packet is answered with -/

/-- The routes and the handlers of a server do not change, every handler manages to write the values
it means to, and payloads are decoded without running out of memory. -/
structure Serves (env : ℕ → Env) (routes : UInt64 → Option Route)
    (handle : Route → Ctx → List Value → Int × List Value) : Prop where
  lookup : ∀ t, (env t).lookup = routes
  result : ∀ t route ctx args, (encode args).length ≤ maxPayloadSize →
    ((env t).handler route ctx args).result = (handle route ctx args).1
  response : ∀ t route ctx args, (encode args).length ≤ maxPayloadSize →
    ((env t).handler route ctx args).response.data = encode (handle route ctx args).2
  decodes : ∀ t, (env t).decodeMem.Grants

/-- A sync route. -/
def Route.IsSync (route : Route) : Prop := route.isDeferred = false ∧ route.isAsync = false

/-- The operation and the payload that answer a call of a sync route. -/
def replyTo (outcome : Int × List Value) : Op × List UInt8 :=
  if outcome.1 = 0 then (.response, encode outcome.2)
  else (.error, errorPayload (text "procedure failed"))

/-- The operation, the procedure and the payload of the answer to a packet; a DISCONNECT has none. -/
def answerOf (routes : UInt64 → Option Route)
    (handle : Route → Ctx → List Value → Int × List Value) (p : Header × List UInt8) :
    Option (Op × UInt64 × List UInt8) :=
  if p.1.op = Op.rpc.code then
    match routes p.1.procId with
    | none => some (.error, p.1.procId, errorPayload (text "unknown procedure"))
    | some route =>
      match payloadDecode .granting p.2 with
      | .ok args =>
        let reply := replyTo (handle route ⟨p.1.callId, p.1.procId⟩ args)
        some (reply.1, p.1.procId, reply.2)
      | _ => some (.error, p.1.procId, errorPayload (text "malformed payload"))
  else if p.1.op = Op.ping.code then some (.response, 0, [])
  else if p.1.op = Op.disconnect.code then none
  else some (.error, p.1.procId, errorPayload (text "unsupported operation"))

/-- A packet that is not a call of a deferred or an async route. -/
structure AtOnce (routes : UInt64 → Option Route) (p : Header × List UInt8) : Prop where
  len_le : p.2.length ≤ maxPayloadSize
  isSync : p.1.op = Op.rpc.code → ∀ route, routes p.1.procId = some route → route.IsSync

/-- The bytes that answer a packet. -/
def replyBytes (i : Integrity) (routes : UInt64 → Option Route)
    (handle : Route → Ctx → List Value → Int × List Value) (p : Header × List UInt8) :
    List UInt8 :=
  match answerOf routes handle p with
  | none => []
  | some (op, procId, payload) =>
    (signedHeader i op procId p.1.callId payload).elim [] fun front => front ++ payload

theorem replyBytes_none {i : Integrity} {routes : UInt64 → Option Route}
    {handle : Route → Ctx → List Value → Int × List Value} {p : Header × List UInt8}
    (h : answerOf routes handle p = none) : replyBytes i routes handle p = [] := by
  rw [replyBytes, h]

theorem replyBytes_some {i : Integrity} {routes : UInt64 → Option Route}
    {handle : Route → Ctx → List Value → Int × List Value} {p : Header × List UInt8} {op : Op}
    {procId : UInt64} {payload front : List UInt8}
    (h : answerOf routes handle p = some (op, procId, payload))
    (hfront : signedHeader i op procId p.1.callId payload = some front) :
    replyBytes i routes handle p = front ++ payload := by
  rw [replyBytes, h]
  simp only
  rw [hfront]
  rfl

/-- An allocator that grants every request decodes like any other that does. -/
theorem DecodeMem.Grants.eq_granting {mem : DecodeMem} (h : mem.Grants) : mem = .granting := by
  obtain ⟨grow, copy⟩ := mem
  obtain rfl : grow = fun _ _ => true := funext fun k => funext fun n => h.1 k n
  obtain rfl : copy = fun _ _ => true := funext fun k => funext fun n => h.2 k n
  rfl

section Server

variable {cfg : ServerConfig} {env : ℕ → Env} {routes : UInt64 → Option Route}
  {handle : Route → Ctx → List Value → Int × List Value} {w : Worker} {c inst : ℕ}
  {header : Header} {payload : List UInt8}

/-- Only a DISCONNECT has no answer. -/
theorem answerOf_eq_none_iff {p : Header × List UInt8} :
    answerOf routes handle p = none ↔ p.1.op = Op.disconnect.code := by
  unfold answerOf
  constructor
  · intro h
    by_cases hrpc : p.1.op = Op.rpc.code
    · rw [if_pos hrpc] at h
      split at h
      · cases h
      · split at h
        · cases h
        · cases h
    · rw [if_neg hrpc] at h
      split_ifs at h with hping hdisconnect
      exact hdisconnect
  · intro h
    have hrpc : ¬ p.1.op = Op.rpc.code := by
      rw [h]
      decide
    have hping : ¬ p.1.op = Op.ping.code := by
      rw [h]
      decide
    rw [if_neg hrpc, if_neg hping, if_pos h]

theorem length_replyTo_le (hserves : Serves env routes handle) (route : Route) (ctx : Ctx)
    {args : List Value} (hlen : (encode args).length ≤ maxPayloadSize) :
    (replyTo (handle route ctx args)).2.length ≤ maxPayloadSize := by
  unfold replyTo
  split_ifs
  · rw [← hserves.response 0 route ctx args hlen]
    exact (HandlerOutcome.response _).len_le
  · exact (length_errorPayload_le _).trans (by decide)

/-- The answer to a packet fits a packet. -/
theorem length_answerOf_le (hserves : Serves env routes handle) {p : Header × List UInt8}
    (hatOnce : AtOnce routes p) {op : Op} {procId : UInt64} {data : List UInt8}
    (h : answerOf routes handle p = some (op, procId, data)) : data.length ≤ maxPayloadSize := by
  have herror (message : String) (hlen : (text message).length ≤ 1000) :
      (errorPayload (text message)).length ≤ maxPayloadSize := by
    have hmax : maxPayloadSize = 1048576 := rfl
    have hle := length_errorPayload_le (text message)
    omega
  unfold answerOf at h
  by_cases hrpc : p.1.op = Op.rpc.code
  · rw [if_pos hrpc] at h
    cases hroute : routes p.1.procId with
    | none =>
      rw [hroute] at h
      cases h
      exact herror _ (by decide)
    | some route =>
      rw [hroute] at h
      simp only at h
      cases hdecode : payloadDecode .granting p.2 with
      | ok args =>
        rw [hdecode] at h
        cases h
        refine length_replyTo_le hserves route _ ?_
        rw [← eq_encode_of_payloadDecode hatOnce.len_le hdecode]
        exact hatOnce.len_le
      | _ =>
        rw [hdecode] at h
        cases h
        exact herror _ (by decide)
  · rw [if_neg hrpc] at h
    split_ifs at h
    · cases h
      exact Nat.zero_le _
    · cases h
      exact herror _ (by decide)

variable (cfg) in
/-- **Handling a packet queues its answer.** -/
theorem handlePacket_answer (hserves : Serves env routes handle) (hopen : (w.conns c).Open)
    (hatOnce : AtOnce routes (header, payload)) {op : Op} {procId : UInt64} {data : List UInt8}
    (h : answerOf routes handle (header, payload) = some (op, procId, data)) :
    Queues cfg (w.dispatching c header payload) c (w.request c) op procId header.callId data
      (handlePacket cfg env w c header payload) := by
  have hopen' : ((w.dispatching c header payload).conns c).Open := hopen
  have hmem : (env w.tick).decodeMem = .granting := (hserves.decodes w.tick).eq_granting
  change Queues cfg _ c _ op procId header.callId data (dispatchOp cfg (env w.tick)
    (w.dispatching c header payload) c (w.request c) header payload)
  unfold answerOf at h
  by_cases hrpc : header.op = Op.rpc.code
  · rw [if_pos hrpc] at h
    rw [dispatchOp, if_pos hrpc, hserves.lookup]
    cases hroute : routes header.procId with
    | none =>
      simp only [hroute] at h
      cases h
      exact queueStringError_cases cfg _ hopen' _ _ _ (by decide)
    | some route =>
      obtain ⟨hdeferred, hasync⟩ := hatOnce.isSync hrpc route hroute
      simp only [hroute] at h
      simp only [handleRoute]
      rw [if_neg (by simp [hdeferred]), if_pos hasync, handleSyncCall, hmem]
      cases hdecode : payloadDecode .granting payload with
      | ok args =>
        have hlen : (encode args).length ≤ maxPayloadSize := by
          rw [← eq_encode_of_payloadDecode hatOnce.len_le hdecode]
          exact hatOnce.len_le
        have hresult := hserves.result w.tick route ⟨header.callId, header.procId⟩ args hlen
        have hresponse := hserves.response w.tick route ⟨header.callId, header.procId⟩ args hlen
        simp only [hdecode] at h
        -- the handler decides which of the two replies it is
        simp only [replyTo] at h
        simp only
        by_cases hzero : (handle route ⟨header.callId, header.procId⟩ args).1 = 0
        · rw [if_pos hzero] at h
          rw [if_pos (hresult.trans hzero), hresponse]
          cases h
          refine queuePacket_cases cfg _ hopen' _ _ _ _ ?_
          rw [← hresponse]
          exact (HandlerOutcome.response _).len_le
        · rw [if_neg hzero] at h
          rw [if_neg (fun h => hzero (hresult.symm.trans h))]
          cases h
          exact queueStringError_cases cfg _ hopen' _ _ _ (by decide)
      | _ =>
        simp only [hdecode] at h
        cases h
        exact queueStringError_cases cfg _ hopen' _ _ _ (by decide)
  · rw [if_neg hrpc] at h
    rw [dispatchOp, if_neg hrpc]
    by_cases hping : header.op = Op.ping.code
    · rw [if_pos hping] at h ⊢
      cases h
      exact queuePacket_cases cfg _ hopen' _ _ _ _ (Nat.zero_le _)
    · rw [if_neg hping] at h ⊢
      by_cases hdisconnect : header.op = Op.disconnect.code
      · rw [if_pos hdisconnect] at h
        cases h
      · rw [if_neg hdisconnect] at h ⊢
        cases h
        exact queueStringError_cases cfg _ hopen' _ _ _ (by decide)

variable (cfg) in
/-- The bytes that answer a packet are a packet, with the id of the call. -/
theorem isPacket_replyBytes (hserves : Serves env routes handle) {p : Header × List UInt8}
    (hatOnce : AtOnce routes p) {op : Op} {procId : UInt64} {data : List UInt8}
    (h : answerOf routes handle p = some (op, procId, data)) :
    ∃ checksum mac, IsPacket cfg.integrity (replyBytes cfg.integrity routes handle p)
      { newHeader op procId p.1.callId data with checksum := checksum, mac := mac } data := by
  obtain ⟨front, checksum, mac, hfront, hpacket⟩ := exists_signedHeader cfg.key_isSome op procId
    p.1.callId (length_answerOf_le hserves hatOnce h)
  refine ⟨checksum, mac, ?_⟩
  rwa [replyBytes_some h hfront]

/-- A DISCONNECT only marks the connection. -/
theorem handlePacket_disconnect (hop : header.op = Op.disconnect.code) :
    handlePacket cfg env w c header payload =
      (.ok, (w.dispatching c header payload).setClosing c) := by
  have hrpc : ¬ header.op = Op.rpc.code := by
    rw [hop]
    decide
  have hping : ¬ header.op = Op.ping.code := by
    rw [hop]
    decide
  change dispatchOp cfg (env w.tick) (w.dispatching c header payload) c (w.request c) header
    payload = _
  rw [dispatchOp, if_neg hrpc, if_neg hping, if_pos hop]

/-! ## Reads and writes in any order -/

/-- A read or a write of the server on a connection. -/
inductive Exchange where
  | read (script : List RecvResult)
  | write (script : List SendResult)

/-- No call of the socket fails, and the peer does not close the connection. -/
def Exchange.Clean : Exchange → Prop
  | .read script => ∀ r ∈ script, r ≠ .error ∧ r ≠ .data []
  | .write script => ∀ r ∈ script, r ≠ .error ∧ r ≠ .sent 0

instance : (op : Exchange) → Decidable op.Clean
  | .read script => inferInstanceAs (Decidable (∀ r ∈ script, r ≠ .error ∧ r ≠ .data []))
  | .write script => inferInstanceAs (Decidable (∀ r ∈ script, r ≠ .error ∧ r ≠ .sent 0))

/-- One of them, as the worker loop does it: not on a connection that is to be closed. -/
def exchange (cfg : ServerConfig) (env : ℕ → Env) (c : ℕ) (w : Worker) : Exchange → Worker
  | .read script => if (w.conns c).closing then w else connectionRead cfg env c script w
  | .write script => if (w.conns c).closing then w else connectionWrite env w c script

/-- Any number of them. -/
def exchangeAll (cfg : ServerConfig) (env : ℕ → Env) (c : ℕ) (ops : List Exchange) (w : Worker) :
    Worker :=
  ops.foldl (exchange cfg env c) w

theorem connectionWrite_conns (env : ℕ → Env) (w : Worker) (c : ℕ) (script : List SendResult) :
    (connectionWrite env w c script).conns c =
      sendLoop (env w.tick).modify script (w.conns c) := Worker.conns_setConn_self _ _ _

/-- A write keeps a connection framed. -/
theorem Framed.write (h : Framed cfg.integrity w c inst) {script : List SendResult}
    (hscript : ∀ r ∈ script, r ≠ .error ∧ r ≠ .sent 0) :
    Framed cfg.integrity (connectionWrite env w c script) c inst := by
  have hsends := sendLoop_sends (env w.tick).modify script (w.conns c)
  rw [← connectionWrite_conns] at hsends
  have hclosing := hsends.clean hscript
  have hreadBuf : ((connectionWrite env w c script).conns c).readBuf = (w.conns c).readBuf := by
    rw [hsends.same]
    rfl
  have hreceived : ((connectionWrite env w c script).conns c).received =
      (w.conns c).received := by
    rw [hsends.same]
    rfl
  refine ⟨?_, ?_, ?_, ?_⟩
  · rw [hsends.same]
    exact h.inst_eq
  · rw [hreceived, hreadBuf]
    exact h.parses
  · rw [hclosing, hreadBuf]
    exact h.idle
  · rw [hclosing, hreadBuf]
    exact h.closed

/-- A connection that was just added. -/
structure Conn.Fresh (conn : Conn) : Prop where
  isOpen : conn.Open
  closing : conn.closing = false
  readBuf : conn.readBuf = []
  received : conn.received = []
  writeBuf : conn.writeBuf = []
  writeOff : conn.writeOff = 0
  sent : conn.sent = []

/-! ## The output of a connection -/

/-- **A connection whose output is the replies to its packets**, as long as they are handled at once
and no buffer failed to grow. -/
structure Replying (i : Integrity) (routes : UInt64 → Option Route)
    (handle : Route → Ctx → List Value → Int × List Value) (w : Worker) (c inst : ℕ) : Prop where
  isOpen : (w.conns c).Open
  inst_eq : (w.conns c).inst = inst
  output : w.queueFailed = true ∨ ((∀ p ∈ packetsOf inst w.log, AtOnce routes p) →
    (w.conns c).writeOff ≤ (w.conns c).writeBuf.length ∧
      (w.conns c).output = (packetsOf inst w.log).flatMap (replyBytes i routes handle))

/-- A connection that received nothing yet. -/
theorem Replying.start {i : Integrity} (hfresh : (w.conns c).Fresh)
    (hnone : packetsOf (w.conns c).inst w.log = []) :
    Replying i routes handle w c (w.conns c).inst := by
  refine ⟨hfresh.isOpen, rfl, .inr fun _ => ⟨?_, ?_⟩⟩
  · rw [hfresh.writeOff]
    exact Nat.zero_le _
  · rw [hnone, Conn.output, hfresh.sent, hfresh.writeBuf, List.drop_nil]
    rfl

theorem Replying.touchRead (h : Replying cfg.integrity routes handle w c inst)
    (readBuf : List UInt8) (readCap : ℕ) (received : List UInt8) (closing : Bool) (ticks : ℕ)
    (failed : Bool) :
    Replying cfg.integrity routes handle
      (w.touchRead c readBuf readCap received closing ticks failed) c inst := by
  have hconn : (w.touchRead c readBuf readCap received closing ticks failed).conns c =
      { w.conns c with
        readBuf := readBuf
        readCap := readCap
        received := received
        closing := (w.conns c).closing || closing } := Worker.conns_setConn_self _ _ _
  refine ⟨hconn ▸ h.isOpen, hconn ▸ h.inst_eq, h.output.imp_right ?_⟩
  intro houtput hatOnce
  rw [hconn]
  exact houtput hatOnce

/-- **Handling a packet** adds its reply to the output. -/
theorem Replying.handlePacket (hserves : Serves env routes handle)
    (h : Replying cfg.integrity routes handle w c inst) (header : Header) (payload : List UInt8) :
    Replying cfg.integrity routes handle (handlePacket cfg env w c header payload).2 c inst := by
  obtain ⟨rc, w', hresult⟩ : ∃ rc w', Wirecall.handlePacket cfg env w c header payload = (rc, w') :=
    ⟨_, _, rfl⟩
  have hhandles := handlePacket_handles cfg env h.isOpen header payload
  rw [hresult] at hhandles ⊢
  have hhandled := hhandles.handled
  have hpackets := hhandled.packets
  rw [h.inst_eq] at hpackets
  refine ⟨hhandled.isOpen h.isOpen, ?_, ?_⟩
  · rw [hhandled.conn]
    exact h.inst_eq
  rcases h.output with hfailed | houtput
  · exact .inl (hhandles.queueFailed (.inl hfailed))
  rw [hpackets, List.flatMap_append, List.flatMap_singleton]
  -- what is promised of the packets so far, once it is asked for all of them
  have hbefore (hall : ∀ p ∈ packetsOf inst w.log ++ [(header, payload)], AtOnce routes p) :=
    houtput fun p hp => hall p (List.mem_append_left _ hp)
  cases hanswer : answerOf routes handle (header, payload) with
  | none =>
    rw [handlePacket_disconnect (answerOf_eq_none_iff.mp hanswer)] at hresult
    cases hresult
    refine .inr fun hall => ?_
    obtain ⟨hoff, heq⟩ := hbefore hall
    rw [replyBytes_none hanswer, List.append_nil, ← heq, Worker.setClosing,
      Worker.conns_setConn_self]
    exact ⟨hoff, rfl⟩
  | some answer =>
    obtain ⟨op, procId, data⟩ := answer
    by_cases hatOnce : AtOnce routes (header, payload)
    swap
    · -- a call of another route: nothing is promised from now on
      exact .inr fun hall => absurd (hall _ (List.mem_append_right _ List.mem_cons_self)) hatOnce
    have hqueues := handlePacket_answer cfg hserves h.isOpen hatOnce hanswer
    rw [hresult] at hqueues
    obtain hfailed | ⟨front, cap, hfront, hconn⟩ := hqueues.conns_or_failed
    · exact .inl hfailed
    refine .inr fun hall => ?_
    obtain ⟨hoff, heq⟩ := hbefore hall
    rw [hconn, replyBytes_some hanswer hfront, ← heq]
    refine ⟨?_, Conn.output_appendOut hoff _ cap⟩
    simp only [Conn.appendOut, List.length_append]
    exact hoff.trans (Nat.le_add_right _ _)

/-- A write moves output to the socket. -/
theorem Replying.write (h : Replying cfg.integrity routes handle w c inst)
    (script : List SendResult) :
    Replying cfg.integrity routes handle (connectionWrite env w c script) c inst := by
  have hsends := sendLoop_sends (env w.tick).modify script (w.conns c)
  rw [← connectionWrite_conns] at hsends
  refine ⟨?_, ?_, h.output.imp_right ?_⟩
  · rw [hsends.same]
    exact h.isOpen
  · rw [hsends.same]
    exact h.inst_eq
  · intro houtput hatOnce
    obtain ⟨hoff, heq⟩ := houtput hatOnce
    exact ⟨hsends.off_le hoff, hsends.output.trans heq⟩

/-- **Reads and writes in any order** keep a connection replying and framed, unless memory is
short. -/
theorem replying_exchangeAll (hserves : Serves env routes handle) {ops : List Exchange}
    (hops : ∀ op ∈ ops, op.Clean) (h : Replying cfg.integrity routes handle w c inst)
    (hframed : Failed w ∨ Framed cfg.integrity w c inst) :
    Replying cfg.integrity routes handle (exchangeAll cfg env c ops w) c inst ∧
      (Failed (exchangeAll cfg env c ops w) ∨
        Framed cfg.integrity (exchangeAll cfg env c ops w) c inst) := by
  induction ops generalizing w with
  | nil => exact ⟨h, hframed⟩
  | cons op ops ih =>
    have hclean := hops op List.mem_cons_self
    have hstep : Replying cfg.integrity routes handle (exchange cfg env c w op) c inst ∧
        (Failed (exchange cfg env c w op) ∨
          Framed cfg.integrity (exchange cfg env c w op) c inst) := by
      by_cases hclosing : (w.conns c).closing = true
      · -- nothing is done on a connection that is to be closed
        have hsame : exchange cfg env c w op = w := by
          cases op with
          | read script => rw [exchange, if_pos hclosing]
          | write script => rw [exchange, if_pos hclosing]
        rw [hsame]
        exact ⟨h, hframed⟩
      cases op with
      | read script =>
        rw [exchange, if_neg hclosing]
        refine ⟨?_, (framed_connectionRead cfg env hclean h.isOpen (by simpa using hclosing)
          hframed).2⟩
        exact connectionRead_invariant
          (P := fun w => Replying cfg.integrity routes handle w c inst)
          (fun w _ _ _ _ _ _ hw => hw.touchRead _ _ _ _ _ _)
          (fun w header payload hw _ => hw.handlePacket hserves header payload) h script
      | write script =>
        rw [exchange, if_neg hclosing]
        exact ⟨h.write script, hframed.imp id fun hframed => hframed.write hclean⟩
    exact ih (fun op hop => hops op (List.mem_cons_of_mem _ hop)) hstep.1 hstep.2

/-- Everything up to the first DISCONNECT of the stream is taken. -/
theorem Framed.takes {i : Integrity} (h : Framed i w c inst)
    {packets : List (Header × List UInt8)} {rest : List UInt8}
    (hmax : Maximal (packetFormat i) (w.conns c).received packets rest) :
    packets.takeWhile (fun p => p.1.op ≠ Op.disconnect.code) <+: packetsOf inst w.log ∧
      packetsOf inst w.log <+: packets := by
  obtain ⟨more, rfl, hmore, -⟩ := h.parses.split hmax
  refine ⟨?_, List.prefix_append _ _⟩
  -- unless a DISCONNECT was taken, no packet is left in the buffer
  have hall (hstuck : Stuck (packetFormat i) (w.conns c).readBuf) : more = [] := by
    generalize (w.conns c).readBuf = buf at hmore hstuck
    cases hmore with
    | nil => rfl
    | cons hhead => exact absurd hhead (hstuck _ _)
  have hwhole (hstuck : Stuck (packetFormat i) (w.conns c).readBuf) :
      (packetsOf inst w.log ++ more).takeWhile (fun p => p.1.op ≠ Op.disconnect.code) <+:
        packetsOf inst w.log := by
    rw [hall hstuck, List.append_nil]
    exact List.takeWhile_prefix _
  cases hclosing : (w.conns c).closing with
  | false => exact hwhole (.of_more (h.idle hclosing).1)
  | true =>
    rcases h.closed hclosing with hbad | ⟨p, hp, hop⟩
    · exact hwhole (.of_bad hbad)
    · rw [List.takeWhile_append, if_neg]
      · exact List.takeWhile_prefix _
      · intro hlength
        have heq := (List.takeWhile_prefix _).eq_of_length hlength
        rw [List.takeWhile_eq_self_iff] at heq
        simpa [hop] using heq p hp

/-- A stream of packets without a DISCONNECT is taken as a whole. -/
theorem Framed.packets_eq {i : Integrity} (h : Framed i w c inst)
    {packets : List (Header × List UInt8)}
    (hseq : PacketSeq i (w.conns c).received packets [])
    (hop : ∀ p ∈ packets, p.1.op ≠ Op.disconnect.code) : packetsOf inst w.log = packets := by
  obtain ⟨hfirst, htaken⟩ := h.takes ⟨parses_iff_packetSeq.mpr hseq, .of_more rfl⟩
  have hall : packets.takeWhile (fun p => p.1.op ≠ Op.disconnect.code) = packets :=
    List.takeWhile_eq_self_iff.mpr fun p hp => by simpa using hop p hp
  rw [hall] at hfirst
  exact htaken.eq_of_length (le_antisymm htaken.length_le hfirst.length_le)

/-- What a connection has sent, once it has sent all its output, is the replies to what it has
received. -/
theorem Replying.sent_eq {stream : List UInt8} {packets : List (Header × List UInt8)}
    (h : Replying cfg.integrity routes handle w c inst)
    (hframed : Framed cfg.integrity w c inst) (hqueue : w.queueFailed = false)
    (hsent : ¬ (w.conns c).Unsent) (hreceived : (w.conns c).received = stream)
    (hseq : PacketSeq cfg.integrity stream packets [])
    (hpackets : ∀ p ∈ packets, AtOnce routes p ∧ p.1.op ≠ Op.disconnect.code) :
    (w.conns c).sent = packets.flatMap (replyBytes cfg.integrity routes handle) := by
  have htaken := hframed.packets_eq (hreceived ▸ hseq) fun p hp => (hpackets p hp).2
  obtain ⟨-, houtput⟩ := h.output.resolve_left (by rw [hqueue]; decide)
    (by rw [htaken]; exact fun p hp => (hpackets p hp).1)
  rw [htaken] at houtput
  rw [← houtput, Conn.output, List.drop_eq_nil_of_le (Nat.not_lt.mp hsent), List.append_nil]

end Server

/-- Two sync routes. -/
def echoRoutes (id : UInt64) : Option Route :=
  if id = procId (some (text "echo")) then some ⟨id, some 0, none, 0, none, false, false⟩
  else if id = procId (some (text "fail")) then some ⟨id, some 1, none, 0, none, false, false⟩
  else none

/-- One handler echoes its arguments, the other one fails. -/
def echoHandle (route : Route) (_ : Ctx) (args : List Value) : Int × List Value :=
  if route.handler = some 0 then (0, args) else (-1, [])

/-- The server with these routes. -/
def echoEnv : Env :=
  .plenty echoRoutes
    (fun route ctx args => ⟨(echoHandle route ctx args).1,
      if h : (encode (echoHandle route ctx args).2).length ≤ maxPayloadSize then ⟨_, h⟩
      else ⟨[], Nat.zero_le _⟩⟩)
    (fun _ _ _ => ⟨-1, []⟩)

theorem serves_echoEnv : Serves (fun _ => echoEnv) echoRoutes echoHandle := by
  refine ⟨fun _ => rfl, fun _ _ _ _ _ => rfl, ?_, fun _ => DecodeMem.granting_grants⟩
  intro _ route ctx args hlen
  have hle : (encode (echoHandle route ctx args).2).length ≤ maxPayloadSize := by
    unfold echoHandle
    split_ifs
    · exact hlen
    · exact Nat.zero_le _
  simp only [echoEnv, Env.plenty, dif_pos hle]

end Wirecall

import Wirecall.Client.Recovery
import Wirecall.Server.Meaning

/-!
# A client and a server in dialogue

`wirecall_client_ping` and `wirecall_client_call_name` send one request and wait for one packet. The
packet they take is only theirs because nothing was left of the stream before. Here both sides run:
the server reads what the client sent and writes its replies, in any order and in any pieces, and
the client gets what the server sent. After every request the two are in step again, so requests of
any kind can follow each other, also after one that failed.

## Main definitions

* `Ask`, `Round`: a request of the client, and what both sides do until it returns
* `Dialogue`, `Dialogue.outcome`: both sides, and what a request returns
* `Ask.expected`: what the request has to return, read off the routes and the handlers
* `Dialogue.InStep`: nothing is left of either stream

## Main results

* `Dialogue.InStep.round`: a round returns what is expected and leaves both sides in step
* `dialogue_answered`: **every request of a session returns what is expected**
-/

namespace Wirecall

open Socket Framing

/-! ## Requests -/

/-- A request of the client that waits for its answer. -/
inductive Ask where
  | ping
  | call (name args : List UInt8)

/-- The operation of the request. -/
def Ask.op : Ask → Op
  | .ping => .ping
  | .call _ _ => .rpc

/-- The procedure of the request. -/
def Ask.procId : Ask → UInt64
  | .ping => 0
  | .call name _ => Wirecall.procId (some name)

/-- The payload of the request. -/
def Ask.payload : Ask → List UInt8
  | .ping => []
  | .call _ args => args

/-- The request is made: the return value, the decoded values and the session after it. -/
def Ask.run (mem : ClientMem) (s : Session) : Ask → Rc × List Value × Session
  | .ping => ((clientPing mem s).1, [], (clientPing mem s).2)
  | .call name args => callName mem s name args

/-- **What a request has to return**: the return value, the values, and the text of the error. -/
def Ask.expected (routes : UInt64 → Option Route)
    (handle : Route → Ctx → List Value → Int × List Value) (callId : UInt64) :
    Ask → Rc × List Value × Option (List UInt8)
  | .ping => (.ok, [], none)
  | .call name args =>
    match routes (Wirecall.procId (some name)) with
    | none => (.err, [], some (text "unknown procedure"))
    | some route =>
      match payloadDecode .granting args with
      | .ok values =>
        let outcome := handle route ⟨callId, Wirecall.procId (some name)⟩ values
        if outcome.1 = 0 then (.ok, outcome.2, none)
        else (.err, [], some (text "procedure failed"))
      | _ => (.err, [], some (text "malformed payload"))

section Client

variable {mem : ClientMem} {s : Session} {ask : Ask} {client : Client} {out : Outbound UInt8}

/-- A request that is sent leaves what it sent, whatever is received. -/
theorem Ask.run_out (hfd : ¬ s.client.fd < 0)
    (hsend : sendPacket { s.client with nextCallId := s.client.nextCallId + 1 } ask.op ask.procId
      s.client.nextCallId ask.payload s.out = (.ok, client, out)) :
    (ask.run mem s).2.2.out = out := by
  cases ask with
  | ping =>
    change (clientPing mem s).2.out = out
    rw [clientPing, if_neg hfd]
    simp only
    rw [show sendPacket _ Op.ping 0 s.client.nextCallId [] s.out = _ from hsend]
    simp only
    rcases recvPacket mem client s.inn with ⟨_ | ⟨header, body⟩, client', inn'⟩
    · rfl
    · simp only
      split_ifs <;> rfl
  | call name args =>
    change (clientCallId mem s (Wirecall.procId (some name)) args).2.2.out = out
    rw [clientCallId, if_neg hfd, sendCallId, if_neg hfd]
    simp only
    rw [show sendPacket _ Op.rpc (Wirecall.procId (some name)) s.client.nextCallId args s.out = _
      from hsend]
    simp only
    unfold finishCall
    split_ifs <;> rfl

/-- **A ping takes an empty response with its id.** -/
theorem clientPing_answered {header : Header} {body : List UInt8} {client' : Client}
    {inn : Inbound UInt8} (hfd : ¬ s.client.fd < 0)
    (hsend : sendPacket { s.client with nextCallId := s.client.nextCallId + 1 } .ping 0
      s.client.nextCallId [] s.out = (.ok, client, out))
    (hrecv : recvPacket mem client s.inn = (some (header, body), client', inn))
    (hop : header.op = Op.response.code) (hid : header.callId = s.client.nextCallId)
    (hsize : header.size = 0) : clientPing mem s = (.ok, ⟨client', out, inn⟩) := by
  rw [clientPing, if_neg hfd]
  simp only
  rw [hsend]
  simp only
  rw [hrecv]
  simp only
  rw [if_neg]
  simp [hop, hid, hsize]

/-- **A call returns the answer that carries its id.** -/
theorem callName_answer {name args : List UInt8} {header : Header} {body : List UInt8}
    {client' : Client} {inn : Inbound UInt8} (hfd : ¬ s.client.fd < 0)
    (hsend : sendPacket { s.client with nextCallId := s.client.nextCallId + 1 } .rpc
      (procId (some name)) s.client.nextCallId args s.out =
        (.ok, { s.client with nextCallId := s.client.nextCallId + 1 }, out))
    (hrecv : recvPacket mem { s.client with nextCallId := s.client.nextCallId + 1 } s.inn =
      (some (header, body), client', inn))
    (hid : header.callId = s.client.nextCallId) {answer : Answer} {error : List UInt8}
    (htake : takeAnswer mem.decode client' header body = (answer, { client' with error := error }))
    (hanswer : answer.callId = some header.callId) :
    callName mem s name args =
      (answer.rc, answer.values, ⟨{ client' with error := error }, out, inn⟩) := by
  have hresponse : recvResponse mem { s.client with nextCallId := s.client.nextCallId + 1 } s.inn =
      (answer, { client' with error := error }, inn) := by
    rw [recvResponse, if_neg (show ¬ s.client.fd < 0 from hfd), hrecv]
    simp only
    rw [htake]
  rw [callName, clientCallId, if_neg hfd, sendCallId, if_neg hfd]
  simp only
  rw [hsend]
  simp only
  rw [hresponse]
  simp only
  rw [finishCall, if_neg]
  simp [hanswer, hid]

end Client

/-! ## Rounds -/

/-- What happens from a request to its return: the memory of the client, the cuts of its socket, and
what the server does on the connection. -/
structure Round where
  ask : Ask
  mem : ClientMem
  sendCuts : List Cut
  recvCuts : List Cut
  ops : List Exchange

/-- A client and the worker of the server that has its connection. -/
structure Dialogue where
  session : Session
  worker : Worker

namespace Dialogue

variable (cfg : ServerConfig) (env : ℕ → Env) (c : ℕ)

/-- The worker when the request returns. -/
def served (d : Dialogue) (r : Round) : Worker := exchangeAll cfg env c r.ops d.worker

/-- The session while the request waits: what the server sends in the meantime comes. -/
def waiting (d : Dialogue) (r : Round) : Session where
  client := d.session.client
  out := ⟨d.session.out.accepted, r.sendCuts⟩
  inn := ⟨d.session.inn.bytes ++
    ((d.served cfg env c r).conns c).sent.drop (d.worker.conns c).sent.length, r.recvCuts⟩

/-- What the request returns. -/
def outcome (d : Dialogue) (r : Round) : Rc × List Value × Session :=
  r.ask.run r.mem (d.waiting cfg env c r)

/-- Both sides after the request. -/
def next (d : Dialogue) (r : Round) : Dialogue :=
  ⟨(d.outcome cfg env c r).2.2, d.served cfg env c r⟩

/-- A round as a step of the two. -/
def step (d : Dialogue) (r : Round) : Option Dialogue := some (d.next cfg env c r)

variable (routes : UInt64 → Option Route)

/-- **What a round asks of the rest of the world**: the sockets work, no memory is short, the
request fits a packet and calls no async or deferred route, and the server receives all that was
sent and sends all its replies. -/
structure Works (d : Dialogue) (r : Round) : Prop where
  sends : Clean r.sendCuts
  receives : Clean r.recvCuts
  ops : ∀ op ∈ r.ops, op.Clean
  mem : r.mem.Grants
  queue : (d.served cfg env c r).queueFailed = false
  read : (d.served cfg env c r).readFailed = false
  fits : r.ask.payload.length ≤ maxPayloadSize
  isSync : ∀ name args, r.ask = .call name args →
    ∀ route, routes (procId (some name)) = some route → route.IsSync
  received : ((d.served cfg env c r).conns c).received =
    (d.outcome cfg env c r).2.2.out.accepted
  sent : ¬ ((d.served cfg env c r).conns c).Unsent

variable (handle : Route → Ctx → List Value → Int × List Value)

/-- **Both sides are in step**: the server took all that was sent and sent all its replies, and the
client took all of them. -/
structure InStep (inst : ℕ) (d : Dialogue) : Prop where
  drained : d.session.Drained
  integrity : d.session.client.integrity = cfg.integrity
  replying : Replying cfg.integrity routes handle d.worker c inst
  framed : Framed cfg.integrity d.worker c inst
  queue : d.worker.queueFailed = false
  received : (d.worker.conns c).received = d.session.out.accepted
  sent : ¬ (d.worker.conns c).Unsent
  requests : ∃ packets, PacketSeq cfg.integrity d.session.out.accepted packets [] ∧
    ∀ p ∈ packets, AtOnce routes p ∧ p.1.op ≠ Op.disconnect.code

variable {cfg env c routes handle} {inst : ℕ} {d : Dialogue} {r : Round}

/-- The packet of a request is handled at once. -/
theorem Works.atOnce (h : d.Works cfg env c routes r) {header : Header}
    (hop : header.op = r.ask.op.code) (hprocId : header.procId = r.ask.procId) :
    AtOnce routes (header, r.ask.payload) ∧ header.op ≠ Op.disconnect.code := by
  have hfits := h.fits
  have hsync := h.isSync
  generalize r.ask = ask at hop hprocId hfits hsync ⊢
  cases ask with
  | ping =>
    refine ⟨⟨hfits, fun hrpc => ?_⟩, ?_⟩
    · rw [show header.op = Op.ping.code from hop] at hrpc
      exact absurd hrpc (by decide)
    · rw [show header.op = Op.ping.code from hop]
      decide
  | call name args =>
    refine ⟨⟨hfits, fun _ route hroute => hsync name args rfl route ?_⟩, ?_⟩
    · rw [← hroute]
      exact congrArg routes hprocId.symm
    · rw [show header.op = Op.rpc.code from hop]
      decide

end Dialogue

/-! ## What the client makes of the reply -/

/-- The answer to a request is an empty response, the values that are expected, or the text. -/
theorem Ask.answerOf_eq (routes : UInt64 → Option Route)
    (handle : Route → Ctx → List Value → Int × List Value) {ask : Ask} {header : Header}
    (hop : header.op = ask.op.code) (hprocId : header.procId = ask.procId) :
    (ask = .ping ∧ answerOf routes handle (header, ask.payload) = some (.response, 0, [])) ∨
      (∃ name args, ask = .call name args) ∧
        ((∃ values, ask.expected routes handle header.callId = (.ok, values, none) ∧
            answerOf routes handle (header, ask.payload) =
              some (.response, header.procId, encode values)) ∨
          ∃ message : String, errorText (stringBlob (text message)).data = text message ∧
            ask.expected routes handle header.callId = (.err, [], some (text message)) ∧
            answerOf routes handle (header, ask.payload) =
              some (.error, header.procId, errorPayload (text message))) := by
  cases ask with
  | ping =>
    refine .inl ⟨rfl, ?_⟩
    have hping : header.op = Op.ping.code := hop
    have hrpc : ¬ header.op = Op.rpc.code := by
      rw [hping]
      decide
    rw [answerOf, if_neg hrpc, if_pos hping]
  | call name args =>
    refine .inr ⟨⟨name, args, rfl⟩, ?_⟩
    have hid : header.procId = Wirecall.procId (some name) := hprocId
    rw [answerOf, if_pos (show header.op = Op.rpc.code from hop)]
    simp only [Ask.expected, Ask.payload]
    rw [← hid]
    cases routes header.procId with
    | none => exact .inr ⟨"unknown procedure", by decide, rfl, rfl⟩
    | some route =>
      simp only
      cases payloadDecode .granting args with
      | ok values =>
        simp only [replyTo]
        by_cases hzero : (handle route ⟨header.callId, header.procId⟩ values).1 = 0
        · rw [if_pos hzero, if_pos hzero]
          exact .inl ⟨_, rfl, rfl⟩
        · rw [if_neg hzero, if_neg hzero]
          exact .inr ⟨"procedure failed", by decide, rfl, rfl⟩
      | _ => exact .inr ⟨"malformed payload", by decide, rfl, rfl⟩

namespace Dialogue

variable {cfg : ServerConfig} {env : ℕ → Env} {c : ℕ} {routes : UInt64 → Option Route}
  {handle : Route → Ctx → List Value → Int × List Value} {inst : ℕ} {d : Dialogue} {r : Round}

/-- A request returned what is expected of it, and its error text is the one expected. -/
structure AsExpected (routes : UInt64 → Option Route)
    (handle : Route → Ctx → List Value → Int × List Value) (callId : UInt64) (ask : Ask)
    (outcome : Rc × List Value × Session) : Prop where
  rc_eq : outcome.1 = (ask.expected routes handle callId).1
  values_eq : outcome.2.1 = (ask.expected routes handle callId).2.1
  error_eq : ∀ message, (ask.expected routes handle callId).2.2 = some message →
    outcome.2.2.client.error = message

/-- **The reply is one packet**, with the id of the request, and nothing is left of the stream after
it. -/
theorem recvPacket_reply (hserves : Serves env routes handle) {mem : ClientMem} (hmem : mem.Grants)
    {client : Client} (hwf : client.WellFormed) (hi : client.integrity = cfg.integrity)
    {inn : Inbound UInt8} (hclean : Clean inn.cuts) {p : Header × List UInt8}
    (hatOnce : AtOnce routes p)
    (hpending : client.pending inn = replyBytes cfg.integrity routes handle p) {op : Op}
    {procId : UInt64} {data : List UInt8}
    (hanswer : answerOf routes handle p = some (op, procId, data)) :
    ∃ reply client' inn', reply.op = op.code ∧ reply.callId = p.1.callId ∧
      reply.size = UInt32.ofNat data.length ∧
      recvPacket mem client inn = (some (reply, data), client', inn') ∧
      client'.WellFormed ∧ client'.pending inn' = [] ∧ client'.fd = client.fd ∧
      client'.integrity = cfg.integrity := by
  obtain ⟨checksum, mac, hpacket⟩ := isPacket_replyBytes cfg hserves hatOnce hanswer
  rw [← hi] at hpacket hpending
  obtain ⟨client', inn', hrecv, hsame, hwf', hrest, -⟩ :=
    recvPacket_spec (hmem.receives _ _) hwf hclean hpacket
      (hpending.trans (List.append_nil _).symm)
  refine ⟨{ newHeader op procId p.1.callId data with checksum := checksum, mac := mac }, client', inn',
    rfl, rfl, rfl, hrecv, hwf', hrest, ?_, ?_⟩
  · rw [hsame]
    rfl
  · rw [hsame]
    exact hi

/-- The text of an error is decoded as the one value it is. -/
theorem payloadDecode_errorPayload {mem : DecodeMem} (hmem : mem.Grants) {message : List UInt8}
    (hlen : (errorPayload message).length ≤ maxPayloadSize) :
    payloadDecode mem (errorPayload message) = .ok [.string (stringBlob message)] := by
  have hpayload : errorPayload message = encode [.string (stringBlob message)] := by
    rw [encode_cons, encode_nil, List.append_nil]
    rfl
  rw [hpayload] at hlen ⊢
  exact payloadDecode_encode hlen hmem

/-- **A request takes its reply**, and nothing is left of the stream after it. -/
theorem run_of_reply (hserves : Serves env routes handle) {ask : Ask} {mem : ClientMem}
    (hmem : mem.Grants) {s : Session} (hwf : s.client.WellFormed) (hfd : ¬ s.client.fd < 0)
    (hi : s.client.integrity = cfg.integrity) (hclean : Clean s.inn.cuts) {out : Outbound UInt8}
    {header : Header} (hop : header.op = ask.op.code) (hprocId : header.procId = ask.procId)
    (hcallId : header.callId = s.client.nextCallId)
    (hatOnce : AtOnce routes (header, ask.payload))
    (hsend : sendPacket { s.client with nextCallId := s.client.nextCallId + 1 } ask.op ask.procId
      s.client.nextCallId ask.payload s.out =
        (.ok, { s.client with nextCallId := s.client.nextCallId + 1 }, out))
    (hpending : s.client.pending s.inn =
      replyBytes cfg.integrity routes handle (header, ask.payload)) :
    AsExpected routes handle s.client.nextCallId ask (ask.run mem s) ∧
      (ask.run mem s).2.2.Drained ∧
      (ask.run mem s).2.2.client.integrity = cfg.integrity := by
  have hwf₁ : Client.WellFormed { s.client with nextCallId := s.client.nextCallId + 1 } :=
    ⟨hwf.off_le, hwf.len_le⟩
  obtain ⟨rfl, hanswer⟩ | ⟨⟨name, args, rfl⟩, hanswer⟩ :=
    Ask.answerOf_eq routes handle hop hprocId
  · obtain ⟨reply, client', inn, hrop, hrid, hrsize, hrecv, hwf', hrest, hfd', hi'⟩ :=
      recvPacket_reply hserves hmem hwf₁ hi hclean hatOnce hpending hanswer
    have hping := clientPing_answered hfd hsend hrecv hrop (hrid.trans hcallId) hrsize
    have hrun : Ask.run mem s .ping = (.ok, [], ⟨client', out, inn⟩) := by
      rw [Ask.run, hping]
    rw [hrun]
    exact ⟨⟨rfl, rfl, fun _ h => by cases h⟩, ⟨hwf', hrest, hfd' ▸ hfd⟩, hi'⟩
  · have hsendCall : sendPacket { s.client with nextCallId := s.client.nextCallId + 1 } .rpc
        (Wirecall.procId (some name)) s.client.nextCallId args s.out =
          (.ok, { s.client with nextCallId := s.client.nextCallId + 1 }, out) := hsend
    rw [hcallId] at hanswer
    obtain ⟨values, hexpected, hanswer⟩ | ⟨message, htext, hexpected, hanswer⟩ := hanswer
    · have hlen := length_answerOf_le hserves hatOnce hanswer
      obtain ⟨reply, client', inn, hrop, hrid, -, hrecv, hwf', hrest, hfd', hi'⟩ :=
        recvPacket_reply hserves hmem hwf₁ hi hclean hatOnce hpending hanswer
      have hrun := callName_answer hfd hsendCall hrecv (hrid.trans hcallId)
        (takeAnswer_of_response hrop (payloadDecode_encode hlen hmem.2.2)) rfl
      rw [Ask.run, hrun]
      refine ⟨⟨?_, ?_, ?_⟩, ⟨hwf', hrest, hfd' ▸ hfd⟩, hi'⟩
      · rw [hexpected]
      · rw [hexpected]
      · rw [hexpected]
        exact fun _ h => by cases h
    · have hlen := length_answerOf_le hserves hatOnce hanswer
      obtain ⟨reply, client', inn, hrop, hrid, -, hrecv, hwf', hrest, hfd', hi'⟩ :=
        recvPacket_reply hserves hmem hwf₁ hi hclean hatOnce hpending hanswer
      have hrun := callName_answer hfd hsendCall hrecv (hrid.trans hcallId)
        (takeAnswer_of_error hrop (payloadDecode_errorPayload hmem.2.2 hlen)) rfl
      rw [Ask.run, hrun]
      refine ⟨⟨?_, ?_, ?_⟩, ⟨⟨hwf'.off_le, hwf'.len_le⟩, hrest, ?_⟩, hi'⟩
      · rw [hexpected]
      · rw [hexpected]
      · rw [hexpected]
        rintro _ ⟨⟩
        exact htext
      · exact hfd' ▸ hfd

/-- **A round returns what is expected and leaves both sides in step.** -/
theorem InStep.round (hserves : Serves env routes handle) (h : d.InStep cfg c routes handle inst)
    (hworks : d.Works cfg env c routes r) :
    AsExpected routes handle d.session.client.nextCallId r.ask (d.outcome cfg env c r) ∧
      (d.next cfg env c r).InStep cfg c routes handle inst := by
  obtain ⟨packets, hseq, hpackets⟩ := h.requests
  -- the request is one packet more on the stream of the client
  obtain ⟨front, checksum, mac, out, hpacket, hsend, haccepted, -⟩ :=
    sendPacket_spec { d.session.client with nextCallId := d.session.client.nextCallId + 1 } r.ask.op
      r.ask.procId d.session.client.nextCallId hworks.fits
      (show Clean (Outbound.cuts ⟨d.session.out.accepted, r.sendCuts⟩) from hworks.sends)
  have hout : (d.outcome cfg env c r).2.2.out = out :=
    Ask.run_out (s := d.waiting cfg env c r) h.drained.connected hsend
  have hreceived := hworks.received
  rw [hout] at hreceived
  generalize hheader : ({ newHeader r.ask.op r.ask.procId d.session.client.nextCallId r.ask.payload with
    checksum := checksum, mac := mac } : Header) = header at hpacket
  have hop : header.op = r.ask.op.code := by rw [← hheader]; rfl
  have hprocId : header.procId = r.ask.procId := by rw [← hheader]; rfl
  have hcallId : header.callId = d.session.client.nextCallId := by rw [← hheader]; rfl
  have hatOnce := hworks.atOnce hop hprocId
  have hseq' : PacketSeq cfg.integrity out.accepted (packets ++ [(header, r.ask.payload)]) [] := by
    obtain ⟨pieces, hpieces, hstream⟩ := hseq
    refine ⟨pieces ++ [front ++ r.ask.payload],
      List.rel_append hpieces (.cons (h.integrity ▸ hpacket) .nil), ?_⟩
    rw [haccepted, hstream]
    simp
  have hpackets' : ∀ p ∈ packets ++ [(header, r.ask.payload)],
      AtOnce routes p ∧ p.1.op ≠ Op.disconnect.code := by
    intro p hp
    rcases List.mem_append.mp hp with hp | hp
    · exact hpackets p hp
    · obtain rfl := List.mem_singleton.mp hp
      exact hatOnce
  -- the server answers it, after all it answered before
  obtain ⟨hreplying, hfailed | hframed⟩ :=
    replying_exchangeAll hserves hworks.ops h.replying (.inr h.framed)
  · rcases hfailed with hfailed | hfailed
    · exact absurd (hworks.queue.symm.trans hfailed) (by decide)
    · exact absurd (hworks.read.symm.trans hfailed) (by decide)
  have hbefore := h.replying.sent_eq h.framed h.queue h.sent h.received hseq hpackets
  have hafter := Replying.sent_eq (w := d.served cfg env c r) hreplying hframed hworks.queue
    hworks.sent hreceived hseq' hpackets'
  have hinn : (d.waiting cfg env c r).inn.bytes = d.session.inn.bytes ++
      replyBytes cfg.integrity routes handle (header, r.ask.payload) := by
    change d.session.inn.bytes ++ _ = _
    rw [hafter, hbefore, List.flatMap_append, List.flatMap_singleton, List.drop_left]
  have hpending : (d.waiting cfg env c r).client.pending (d.waiting cfg env c r).inn =
      replyBytes cfg.integrity routes handle (header, r.ask.payload) := by
    rw [Client.pending, hinn, ← List.append_assoc]
    rw [show (d.waiting cfg env c r).client.unread ++ d.session.inn.bytes = [] from h.drained.pending,
      List.nil_append]
  obtain ⟨hexpected, hdrained, hintegrity⟩ := run_of_reply hserves hworks.mem
    (s := d.waiting cfg env c r) h.drained.wellFormed h.drained.connected h.integrity
    hworks.receives hop hprocId hcallId hatOnce.1 hsend hpending
  refine ⟨hexpected, hdrained, hintegrity, hreplying, hframed, hworks.queue, ?_, hworks.sent,
    packets ++ [(header, r.ask.payload)], ?_, hpackets'⟩
  · exact hreceived.trans (congrArg Outbound.accepted hout.symm)
  · exact (show (d.next cfg env c r).session.out = out from hout) ▸ hseq'

/-- A new connection on both sides. -/
theorem InStep.start {w : Worker} {fd : Int} (hfd : 0 ≤ fd) (hfresh : (w.conns c).Fresh)
    (hnone : packetsOf (w.conns c).inst w.log = []) (hqueue : w.queueFailed = false) :
    InStep cfg c routes handle (w.conns c).inst
      ⟨.start fd cfg.integrity cfg.key_isSome ⟨[], []⟩ ⟨[], []⟩, w⟩ where
  drained := ⟨⟨le_rfl, le_rfl⟩, rfl, Int.not_lt.mpr hfd⟩
  integrity := rfl
  replying := .start hfresh hnone
  framed := .start hfresh.readBuf hfresh.received hfresh.closing hnone
  queue := hqueue
  received := hfresh.received
  sent := by
    rw [Conn.Unsent, hfresh.writeBuf, hfresh.writeOff]
    exact Nat.lt_irrefl 0
  requests := ⟨[], ⟨[], .nil, rfl⟩, fun _ hp => by cases hp⟩

end Dialogue

/-- The bytes of a request. -/
def Ask.bytes (ask : Ask) (callId : UInt64) : List UInt8 :=
  (signedHeader ServerConfig.plain.integrity ask.op ask.procId callId ask.payload).getD [] ++
    ask.payload

end Wirecall

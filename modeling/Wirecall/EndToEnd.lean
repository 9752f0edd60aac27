import Wirecall.Client.Calls
import Wirecall.Routes.Named
import Wirecall.Server.Meaning

/-!
# Calls from end to end

A client sends calls of sync routes on one connection without waiting, the server reads, handles
and writes in any order and in any pieces, and the client takes the answers: they are those of the
calls, in order.

## Main definitions

* `IsSyncCall`, `RepliesTo`: a call of a sync route, and the packet that answers it
* `Exchanged`: a client and a server that have exchanged all their bytes
* `Returned`: what the client gets for a call

## Main results

* `Exchanged.returned`: every call gets its answer
* `rpc_end_to_end`: **every call gets its answer**, for any routes
* `registered_calls_answered`: the same for routes that were registered by name
-/

namespace Wirecall

open Socket Framing

/-! ## Calls and their replies -/

/-- The packet calls a sync route with these arguments. -/
structure IsSyncCall (routes : UInt64 → Option Route) (p : Header × List UInt8) (route : Route)
    (args : List Value) : Prop where
  op_eq : p.1.op = Op.rpc.code
  route_eq : routes p.1.procId = some route
  isSync : route.IsSync
  payload_eq : p.2 = encode args
  len_le : p.2.length ≤ maxPayloadSize

theorem forall₂_exists_left {α β : Type*} {R : α → β → Prop} {as : List α} {bs : List β}
    (h : List.Forall₂ R as bs) : ∀ b ∈ bs, ∃ a ∈ as, R a b := by
  induction h with
  | nil => exact fun _ hb => by cases hb
  | cons hab _ ih =>
    rintro b (_ | ⟨_, hb⟩)
    · exact ⟨_, List.mem_cons_self, hab⟩
    · obtain ⟨a, ha, hab⟩ := ih b hb
      exact ⟨a, List.mem_cons_of_mem _ ha, hab⟩

theorem forall₂_trans {α β γ : Type*} {R : α → β → Prop} {S : β → γ → Prop} {T : α → γ → Prop}
    (h : ∀ a b c, R a b → S b c → T a c) {as : List α} {bs : List β} {cs : List γ}
    (hab : List.Forall₂ R as bs) (hbc : List.Forall₂ S bs cs) : List.Forall₂ T as cs := by
  induction hab generalizing cs with
  | nil =>
    cases hbc
    exact .nil
  | cons hr _ ih =>
    cases hbc with
    | cons hs htail => exact .cons (h _ _ _ hr hs) (ih htail)

section EndToEnd

variable {cfg : ServerConfig} {env : ℕ → Env} {routes : UInt64 → Option Route}
  {handle : Route → Ctx → List Value → Int × List Value}

theorem IsSyncCall.atOnce {p : Header × List UInt8} {route : Route} {args : List Value}
    (h : IsSyncCall routes p route args) :
    AtOnce routes p ∧ p.1.op ≠ Op.disconnect.code := by
  refine ⟨⟨h.len_le, fun _ route' hroute' => ?_⟩, ?_⟩
  · rw [h.route_eq] at hroute'
    cases hroute'
    exact h.isSync
  · rw [h.op_eq]
    decide

variable (handle) in
/-- **A call of a sync route** is answered with what its handler returned. -/
theorem IsSyncCall.answerOf_eq {p : Header × List UInt8} {route : Route} {args : List Value}
    (h : IsSyncCall routes p route args) :
    answerOf routes handle p =
      some ((replyTo (handle route ⟨p.1.callId, p.1.procId⟩ args)).1, p.1.procId,
        (replyTo (handle route ⟨p.1.callId, p.1.procId⟩ args)).2) := by
  have hdecode : payloadDecode .granting p.2 = .ok args := by
    have hlen := h.len_le
    rw [h.payload_eq] at hlen ⊢
    exact payloadDecode_encode hlen DecodeMem.granting_grants
  rw [answerOf, if_pos h.op_eq, h.route_eq]
  simp only [hdecode]

/-- A packet that answers another. -/
structure RepliesTo (routes : UInt64 → Option Route)
    (handle : Route → Ctx → List Value → Int × List Value) (p r : Header × List UInt8) : Prop where
  callId_eq : r.1.callId = p.1.callId
  reply_eq : ∃ route args, IsSyncCall routes p route args ∧
    r.1.op = (replyTo (handle route ⟨p.1.callId, p.1.procId⟩ args)).1.code ∧
    r.2 = (replyTo (handle route ⟨p.1.callId, p.1.procId⟩ args)).2

/-- The output of the server is one reply for each packet. -/
theorem exists_replies (hserves : Serves env routes handle) {packets : List (Header × List UInt8)}
    (hsync : ∀ p ∈ packets, ∃ route args, IsSyncCall routes p route args) :
    ∃ replies, PacketSeq cfg.integrity
        (packets.flatMap (replyBytes cfg.integrity routes handle)) replies [] ∧
      List.Forall₂ (RepliesTo routes handle) packets replies := by
  induction packets with
  | nil => exact ⟨[], ⟨[], .nil, rfl⟩, .nil⟩
  | cons p packets ih =>
    obtain ⟨⟨route, args, hcall⟩, hrest⟩ := List.forall_mem_cons.mp hsync
    obtain ⟨checksum, mac, hpacket⟩ :=
      isPacket_replyBytes cfg hserves hcall.atOnce.1 (hcall.answerOf_eq handle)
    obtain ⟨replies, ⟨pieces, hpieces, hflatten⟩, htail⟩ := ih hrest
    refine ⟨(_, _) :: replies, ⟨_ :: pieces, .cons hpacket hpieces, ?_⟩,
      .cons ⟨rfl, route, args, hcall, rfl, rfl⟩ htail⟩
    rw [List.flatMap_cons, List.flatten_cons, hflatten, List.append_assoc]

/-- What the client gets for a call that was given an id: the values its handler wrote for its
arguments, or the error text of the server. -/
def Returned (routes : UInt64 → Option Route)
    (handle : Route → Ctx → List Value → Int × List Value) (sent : UInt64 × NamedCall)
    (answer : Answer × List UInt8) : Prop :=
  ∃ route, routes (procId (some sent.2.name)) = some route ∧
    if (handle route ⟨sent.1, procId (some sent.2.name)⟩ sent.2.args).1 = 0 then
      answer.1 = ⟨.ok, some sent.1,
        (handle route ⟨sent.1, procId (some sent.2.name)⟩ sent.2.args).2⟩
    else answer = (⟨.err, some sent.1, []⟩, text "procedure failed")

/-- A call, the packet it is sent as, and the packet that answers it. -/
theorem RepliesTo.returned {sent : UInt64 × NamedCall} {p r : Header × List UInt8}
    {answer : Answer × List UInt8} (hcall : IsCallPacket sent p)
    (hreplies : RepliesTo routes handle p r) (hanswer : IsAnswer r answer) :
    Returned routes handle sent answer := by
  obtain ⟨hid, route, args, hsync, hop, hpayload⟩ := hreplies
  obtain rfl : args = sent.2.args := by
    refine encode_inj ?_ (hsync.payload_eq.symm.trans hcall.payload_eq)
    rw [← hsync.payload_eq]
    exact hsync.len_le
  have hroute := hsync.route_eq
  rw [hcall.procId_eq] at hroute hop hpayload
  rw [hcall.callId_eq] at hid hop hpayload
  refine ⟨route, hroute, ?_⟩
  simp only [replyTo] at hop hpayload
  split_ifs at hop hpayload ⊢ with hzero
  · rw [hanswer.response _ hop hpayload, hid]
  · have hencode : r.2 = encode [.string (stringBlob (text "procedure failed"))] := by
      rw [hpayload, encode_cons, encode_nil, List.append_nil]
      rfl
    rw [hanswer.error _ hop hencode, hid]
    rfl

/-! ## From end to end -/

/-- A client that was just connected has received nothing. -/
structure Client.Fresh (client : Client) : Prop where
  fd : 0 ≤ client.fd
  readBuf : client.readBuf = []
  readOff : client.readOff = 0

/-- **A client and a server that have exchanged all their bytes.** The client has sent calls on a new
connection without waiting, and the server has read and written on it, in any order and in any
pieces. No call of a socket failed and no buffer failed to grow, the server has received all that was
sent, and it has sent all its output. -/
structure Exchanged (cfg : ServerConfig) (env : ℕ → Env) (client : Client) (calls : List NamedCall)
    (sendCuts : List Cut) (w : Worker) (c : ℕ) (ops : List Exchange) : Prop where
  newClient : client.Fresh
  integrity : client.integrity = cfg.integrity
  sends : Clean sendCuts
  newConn : (w.conns c).Fresh
  untouched : packetsOf (w.conns c).inst w.log = []
  clean : ∀ op ∈ ops, op.Clean
  received : ((exchangeAll cfg env c ops w).conns c).received =
    (sendAll calls client ⟨[], sendCuts⟩).2.2.accepted
  sent : ¬ ((exchangeAll cfg env c ops w).conns c).Unsent
  queue : (exchangeAll cfg env c ops w).queueFailed = false
  read : (exchangeAll cfg env c ops w).readFailed = false

section Exchanged

variable {client : Client} {calls : List NamedCall} {sendCuts : List Cut} {w : Worker} {c : ℕ}
  {ops : List Exchange}

/-- **The server has sent the replies to the packets of the client**, and nothing else. -/
theorem Exchanged.sent_eq (h : Exchanged cfg env client calls sendCuts w c ops)
    (hserves : Serves env routes handle) {packets : List (Header × List UInt8)}
    (hseq : PacketSeq cfg.integrity (sendAll calls client ⟨[], sendCuts⟩).2.2.accepted packets [])
    (hatOnce : ∀ p ∈ packets, AtOnce routes p ∧ p.1.op ≠ Op.disconnect.code) :
    ((exchangeAll cfg env c ops w).conns c).sent =
      packets.flatMap (replyBytes cfg.integrity routes handle) := by
  obtain ⟨hreplying, hfailed | hframed⟩ := replying_exchangeAll hserves h.clean
    (.start h.newConn h.untouched)
    (.inr (.start h.newConn.readBuf h.newConn.received h.newConn.closing h.untouched))
  · rcases hfailed with hfailed | hfailed
    · exact absurd (h.queue.symm.trans hfailed) (by decide)
    · exact absurd (h.read.symm.trans hfailed) (by decide)
  · exact hreplying.sent_eq hframed h.queue h.sent h.received hseq hatOnce

/-- **Every call gets its answer**, once all bytes are exchanged. -/
theorem Exchanged.returned (h : Exchanged cfg env client calls sendCuts w c ops)
    (hserves : Serves env routes handle)
    (hcalls : ∀ call ∈ calls, (encode call.args).length ≤ maxPayloadSize ∧
      ∃ route, routes (procId (some call.name)) = some route ∧ route.IsSync)
    {mem : ℕ → ClientMem} (hmem : ∀ n, (mem n).Grants) {recvCuts : List Cut}
    (hrecvCuts : Clean recvCuts) :
    ∃ sent : List (UInt64 × NamedCall), sent.map (fun x => x.2) = calls ∧
      (sendAll calls client ⟨[], sendCuts⟩).1 = sent.map (fun x => some x.1) ∧
      List.Forall₂ (Returned routes handle) sent
        (recvAll mem calls.length (sendAll calls client ⟨[], sendCuts⟩).2.1
          ⟨((exchangeAll cfg env c ops w).conns c).sent, recvCuts⟩) := by
  obtain ⟨sent, packets, bytes, id, s, hall, hsentCalls, hpackets, hseq, haccepted⟩ :=
    sendAll_spec (s := ⟨[], sendCuts⟩) h.newClient.fd (fun call hcall => (hcalls call hcall).1)
      h.sends
  have hstream : PacketSeq cfg.integrity (sendAll calls client ⟨[], sendCuts⟩).2.2.accepted packets
      [] := by
    rw [hall, ← h.integrity]
    exact haccepted.symm ▸ hseq
  rw [hall]
  -- every packet the client sends calls a sync route
  have hsync : ∀ p ∈ packets, ∃ route args, IsSyncCall routes p route args := by
    intro p hp
    obtain ⟨x, hx, hcall⟩ := forall₂_exists_left hpackets p hp
    obtain ⟨hlen, route, hroute, hisSync⟩ := hcalls x.2 (hsentCalls ▸ List.mem_map_of_mem hx)
    refine ⟨route, x.2.args, hcall.op_eq, ?_, hisSync, hcall.payload_eq, ?_⟩
    · rw [hcall.procId_eq]
      exact hroute
    · rw [hcall.payload_eq]
      exact hlen
  have hinbound := h.sent_eq hserves hstream fun p hp => by
    obtain ⟨route, args, hcall⟩ := hsync p hp
    exact hcall.atOnce
  obtain ⟨replies, hreplies, hanswers⟩ := @exists_replies cfg env routes handle hserves _ hsync
  -- the client takes its answers from them
  have hlength : calls.length = replies.length := by
    rw [← hsentCalls, List.length_map, hpackets.length_eq, hanswers.length_eq]
  have hreturned : List.Forall₂ (fun x r => ∃ p, IsCallPacket x p ∧ RepliesTo routes handle p r)
      sent replies :=
    forall₂_trans (fun _ p _ hcall hreply => ⟨p, hcall, hreply⟩) hpackets hanswers
  have hclient : { client with nextCallId := id }.WellFormed :=
    ⟨by simp [h.newClient.readOff], by simp [h.newClient.readBuf]⟩
  have hpending : { client with nextCallId := id }.pending
      ⟨packets.flatMap (replyBytes cfg.integrity routes handle), recvCuts⟩ =
        packets.flatMap (replyBytes cfg.integrity routes handle) := by
    simp only [Client.pending, Client.unread, h.newClient.readBuf, List.drop_nil, List.nil_append]
  have hanswered := recvAll_spec hmem hclient h.newClient.fd hrecvCuts h.integrity
    (hpending.symm ▸ hreplies)
  refine ⟨sent, hsentCalls, rfl, ?_⟩
  rw [hlength, hinbound]
  refine forall₂_trans ?_ hreturned hanswered
  rintro _ _ _ ⟨p, hcall, hreply⟩ hanswer
  exact hreply.returned hcall hanswer

end Exchanged

/-- **Every call gets its answer.** A client sends calls of sync routes on a new connection, the
server reads and writes on it in any order, and the client receives as many answers. Whatever the
pieces in which the socket takes and gives the bytes in both directions, once the server has
received all that was sent and has sent all its output, the answer to each call carries the call's
id, with the values the handler wrote for the arguments of the call, or with the error text. -/
theorem rpc_end_to_end (cfg : ServerConfig) (env : ℕ → Env) (routes : UInt64 → Option Route)
    (handle : Route → Ctx → List Value → Int × List Value) (hserves : Serves env routes handle)
    (client : Client) (hclient : client.Fresh) (hshared : client.integrity = cfg.integrity)
    (calls : List NamedCall)
    (hcalls : ∀ call ∈ calls, (encode call.args).length ≤ maxPayloadSize ∧
      ∃ route, routes (procId (some call.name)) = some route ∧ route.IsSync)
    (sendCuts : List Cut) (hsendCuts : Clean sendCuts)
    (w : Worker) (c : ℕ) (hconn : (w.conns c).Fresh)
    (hnone : packetsOf (w.conns c).inst w.log = [])
    (ops : List Exchange) (hops : ∀ op ∈ ops, op.Clean)
    (hreceived : ((exchangeAll cfg env c ops w).conns c).received =
      (sendAll calls client ⟨[], sendCuts⟩).2.2.accepted)
    (hsent : ¬ ((exchangeAll cfg env c ops w).conns c).Unsent)
    (hqueue : (exchangeAll cfg env c ops w).queueFailed = false)
    (hread : (exchangeAll cfg env c ops w).readFailed = false)
    (mem : ℕ → ClientMem) (hmem : ∀ n, (mem n).Grants)
    (recvCuts : List Cut) (hrecvCuts : Clean recvCuts) :
    ∃ sent : List (UInt64 × NamedCall), sent.map (fun x => x.2) = calls ∧
      (sendAll calls client ⟨[], sendCuts⟩).1 = sent.map (fun x => some x.1) ∧
      List.Forall₂ (Returned routes handle) sent
        (recvAll mem calls.length (sendAll calls client ⟨[], sendCuts⟩).2.1
          ⟨((exchangeAll cfg env c ops w).conns c).sent, recvCuts⟩) := by
  have hexchanged : Exchanged cfg env client calls sendCuts w c ops :=
    ⟨hclient, hshared, hsendCuts, hconn, hnone, hops, hreceived, hsent, hqueue, hread⟩
  exact hexchanged.returned hserves hcalls hmem hrecvCuts

/-! ### An exchange with two calls -/

/-- A client that has just connected. -/
def echoClient : Client where
  fd := 4
  nextCallId := 1
  readBuf := []
  readOff := 0
  readCap := 0
  integrity := ServerConfig.plain.integrity
  key_isSome := rfl
  error := []

/-- A call of each route. -/
def echoCalls : List NamedCall := [⟨text "echo", [.bool true]⟩, ⟨text "fail", []⟩]

/-- What the client sends, in three pieces. -/
def echoStream : List UInt8 :=
  (sendAll echoCalls echoClient ⟨[], [.part 20, .interrupted, .part 11]⟩).2.2.accepted

/-- The server reads in two pieces and writes in two. -/
def echoOps : List Exchange :=
  [.read [.data (echoStream.take 50), .wouldBlock], .write [.sent 30, .interrupted],
    .read [.data (echoStream.drop 50)], .write [.sent 1000]]

/-- One call is answered with its argument, the other one with the error text. -/
theorem rpc_end_to_end_echo :
    let w := workerInit.setConn 0 { Conn.zero with fd := 3 }
    let out := (exchangeAll .plain (fun _ => echoEnv) 0 echoOps w).conns 0
    let answers := recvAll (fun _ => ⟨fun _ => true, true, .granting⟩) 2
      (sendAll echoCalls echoClient ⟨[], [.part 20, .interrupted, .part 11]⟩).2.1
      ⟨out.sent, [.part 12, .interrupted]⟩
    answers.map (fun a => a.1.values) = [[.bool true], []] ∧
    ∃ sent : List (UInt64 × NamedCall), sent.map (fun x => x.2) = echoCalls ∧
      List.Forall₂ (Returned echoRoutes echoHandle) sent answers := by
  refine ⟨by decide +kernel, ?_⟩
  obtain ⟨sent, hcalls, -, hreturned⟩ := rpc_end_to_end .plain (fun _ => echoEnv) echoRoutes
    echoHandle serves_echoEnv echoClient ⟨by decide, rfl, rfl⟩ rfl echoCalls
    (by
      intro call hcall
      simp only [echoCalls, List.mem_cons, List.not_mem_nil, or_false] at hcall
      rcases hcall with rfl | rfl
      · exact ⟨by decide, _, rfl, rfl, rfl⟩
      · exact ⟨by decide, _, rfl, rfl, rfl⟩)
    [.part 20, .interrupted, .part 11] (by decide)
    (workerInit.setConn 0 { Conn.zero with fd := 3 }) 0
    ⟨⟨rfl, by decide⟩, rfl, rfl, rfl, rfl, rfl, rfl⟩ rfl echoOps
    (by decide +kernel)
    (by decide +kernel) (by decide +kernel) (by decide +kernel) (by decide +kernel)
    (fun _ => ⟨fun _ => true, true, .granting⟩)
    (fun _ => ⟨fun _ => rfl, rfl, DecodeMem.granting_grants⟩) [.part 12, .interrupted] (by decide)
  exact ⟨sent, hcalls, hreturned⟩

/-! ## Routes that were registered -/

/-- **Every call of a registered procedure gets its answer.** Routes are registered and removed by
name, whatever allocations fail, among names that have different ids. A client then calls procedures
whose names were last registered as sync routes. The table finds these routes, and each call gets
what the handler of its own route returned. -/
theorem registered_calls_answered {names : Set ProcName} (hinj : Set.InjOn procId names)
    {scheduler : Bool} {registrations : List (RouteMem × NameOp)} {server : NamedServer}
    (hmeets : Machine.Meets (NamedServer.step scheduler) (Within names) .init registrations)
    (hexec : Machine.exec (NamedServer.step scheduler) .init registrations = some server)
    (hserves : Serves env (fun id => (routesLookup server.table id).1) handle)
    {client : Client} {calls : List NamedCall} {sendCuts : List Cut} {w : Worker} {c : ℕ}
    {ops : List Exchange} (h : Exchanged cfg env client calls sendCuts w c ops)
    (hcalls : ∀ call ∈ calls, (encode call.args).length ≤ maxPayloadSize ∧
      some call.name ∈ names ∧ ∃ route, server.map (some call.name) = some route ∧ route.IsSync)
    {mem : ℕ → ClientMem} (hmem : ∀ n, (mem n).Grants) {recvCuts : List Cut}
    (hrecvCuts : Clean recvCuts) :
    (∀ call ∈ calls, (routesLookup server.table (procId (some call.name))).1 =
      server.map (some call.name)) ∧
    ∃ sent : List (UInt64 × NamedCall), sent.map (fun x => x.2) = calls ∧
      (sendAll calls client ⟨[], sendCuts⟩).1 = sent.map (fun x => some x.1) ∧
      List.Forall₂ (Returned (fun id => (routesLookup server.table id).1) handle) sent
        (recvAll mem calls.length (sendAll calls client ⟨[], sendCuts⟩).2.1
          ⟨((exchangeAll cfg env c ops w).conns c).sent, recvCuts⟩) := by
  have hnamed := named_of_exec hinj hmeets hexec
  refine ⟨fun call hcall => hnamed.lookup (hcalls call hcall).2.1, ?_⟩
  refine h.returned hserves (fun call hcall => ?_) hmem hrecvCuts
  obtain ⟨hlen, hname, route, hroute, hisSync⟩ := hcalls call hcall
  exact ⟨hlen, route, (hnamed.lookup hname).trans hroute, hisSync⟩

end EndToEnd

end Wirecall

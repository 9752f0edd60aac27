import Wirecall.Client.Transport

/-!
# Calls of a client

`client_send_call_id` and `wirecall_client_recv_response`: calls are sent without waiting for the
answers, and the answers are taken from the stream in the order they come.

## Main definitions

* `sendCallName`, `recvResponse`: one call and one answer
* `sendAll`, `recvAll`: any number of calls, and as many answers

## Main results

* `sendAll_spec`: the stream is the packets of the calls, numbered in order
* `recvAll_spec`: the answers are those of the packets in the stream
-/

namespace Wirecall

open Socket

/-! ## Sending calls -/

/-- `client_send_call_id`: the id of the call. -/
def sendCallId (client : Client) (procId : UInt64) (args : List UInt8) (s : Outbound UInt8) :
    Option UInt64 × Client × Outbound UInt8 :=
  if client.fd < 0 then (none, client, s)
  else
    let callId := client.nextCallId
    match sendPacket { client with nextCallId := callId + 1 } .rpc procId callId args s with
    | (.ok, client, s) => (some callId, client, s)
    | (.err, client, s) => (none, client, s)

/-- `wirecall_client_send_call_name`. -/
def sendCallName (client : Client) (name : List UInt8) (args : List UInt8) (s : Outbound UInt8) :
    Option UInt64 × Client × Outbound UInt8 :=
  sendCallId client (procId (some name)) args s

/-- A call of a procedure: its name and its arguments. -/
structure NamedCall where
  name : List UInt8
  args : List Value

/-- The arguments of a call are written to a new writer and sent. -/
def sendCall (client : Client) (call : NamedCall) (s : Outbound UInt8) :
    Option UInt64 × Client × Outbound UInt8 :=
  match writeValues (fun _ => true) writerInit call.args with
  | (.err, _) => (none, client, s)
  | (.ok, writer) => sendCallName client call.name writer.data s

/-- Calls one after the other. -/
def sendAll : List NamedCall → Client → Outbound UInt8 →
    List (Option UInt64) × Client × Outbound UInt8
  | [], client, s => ([], client, s)
  | call :: calls, client, s =>
    let (id, client, s) := sendCall client call s
    let (ids, client, s) := sendAll calls client s
    (id :: ids, client, s)

/-- The packet of a call that was given an id. -/
structure IsCallPacket (sent : UInt64 × NamedCall) (p : Header × List UInt8) : Prop where
  op_eq : p.1.op = Op.rpc.code
  procId_eq : p.1.procId = procId (some sent.2.name)
  callId_eq : p.1.callId = sent.1
  payload_eq : p.2 = encode sent.2.args

/-- A call is sent as one packet, whatever the cuts. -/
theorem sendCall_spec {client : Client} {call : NamedCall} {s : Outbound UInt8}
    (hfd : 0 ≤ client.fd) (hlen : (encode call.args).length ≤ maxPayloadSize)
    (hclean : Clean s.cuts) :
    ∃ bytes header s',
      sendCall client call s = (some client.nextCallId,
        { client with nextCallId := client.nextCallId + 1 }, s') ∧
      IsPacket client.integrity bytes header (encode call.args) ∧
      IsCallPacket (client.nextCallId, call) (header, encode call.args) ∧
      s'.accepted = s.accepted ++ bytes ∧ Clean s'.cuts := by
  obtain ⟨writer, hwrite, hdata⟩ := writeValues_init hlen
  obtain ⟨front, checksum, mac, s', hpacket, hsend, haccepted, hclean'⟩ :=
    sendPacket_spec { client with nextCallId := client.nextCallId + 1 } .rpc
      (procId (some call.name)) client.nextCallId hlen hclean
  refine ⟨_, _, s', ?_, hpacket, ⟨rfl, rfl, rfl, rfl⟩, haccepted, hclean'⟩
  rw [sendCall, hwrite]
  simp only [sendCallName, sendCallId, hdata]
  rw [if_neg (by omega), hsend]

/-- **The stream of a client is the packets of its calls**, whatever the cuts. -/
theorem sendAll_spec {calls : List NamedCall} {client : Client} {s : Outbound UInt8}
    (hfd : 0 ≤ client.fd) (hlen : ∀ call ∈ calls, (encode call.args).length ≤ maxPayloadSize)
    (hclean : Clean s.cuts) :
    ∃ sent packets bytes id s',
      sendAll calls client s =
        (sent.map (fun x => some x.1), { client with nextCallId := id }, s') ∧
      sent.map (fun x => x.2) = calls ∧ List.Forall₂ IsCallPacket sent packets ∧
      PacketSeq client.integrity bytes packets [] ∧ s'.accepted = s.accepted ++ bytes := by
  induction calls generalizing client s with
  | nil =>
    exact ⟨[], [], [], client.nextCallId, s, rfl, rfl, .nil, ⟨[], .nil, rfl⟩,
      (List.append_nil _).symm⟩
  | cons call calls ih =>
    obtain ⟨piece, header, s₁, hsend, hpacket, hcall, haccepted, hclean₁⟩ :=
      sendCall_spec hfd (hlen call List.mem_cons_self) hclean
    have hfd' : 0 ≤ { client with nextCallId := client.nextCallId + 1 }.fd := hfd
    obtain ⟨sent, packets, bytes, id, s', hall, hcalls, hpackets, ⟨pieces, hpieces, hbytes⟩,
      haccepted'⟩ := ih hfd'
        (fun c hc => hlen c (List.mem_cons_of_mem _ hc)) hclean₁
    refine ⟨(client.nextCallId, call) :: sent, (header, encode call.args) :: packets,
      piece ++ bytes, id, s', ?_, ?_, .cons hcall hpackets,
      ⟨piece :: pieces, .cons hpacket hpieces, ?_⟩, ?_⟩
    · rw [sendAll, hsend]
      simp only [hall, List.map_cons]
    · rw [List.map_cons, hcalls]
    · rw [hbytes, List.flatten_cons, List.append_assoc]
    · rw [haccepted', haccepted, List.append_assoc]

/-! ## Receiving answers -/

/-- What `wirecall_client_recv_response` returns and stores. -/
structure Answer where
  rc : Rc
  callId : Option UInt64
  values : List Value
  deriving DecidableEq

/-- What `wirecall_client_recv_response` makes of a packet. -/
def takeAnswer (mem : DecodeMem) (client : Client) (header : Header) (body : List UInt8) :
    Answer × Client :=
  if header.op = Op.response.code then
    match payloadDecode mem body with
    | .ok values => (⟨.ok, some header.callId, values⟩, client)
    | _ => (⟨.err, some header.callId, []⟩, setError client "malformed response payload")
  else if header.op = Op.error.code then
    match payloadDecode mem body with
    | .ok [.string message] =>
      (⟨.err, some header.callId, []⟩, { client with error := errorText message.data })
    | _ => (⟨.err, some header.callId, []⟩, setError client "server returned error")
  else (⟨.err, some header.callId, []⟩, setError client "unexpected response op")

/-- `wirecall_client_recv_response`. -/
def recvResponse (mem : ClientMem) (client : Client) (s : Inbound UInt8) :
    Answer × Client × Inbound UInt8 :=
  if client.fd < 0 then (⟨.err, none, []⟩, client, s)
  else match recvPacket mem client s with
    | (none, client, s) => (⟨.err, some 0, []⟩, client, s)
    | (some (header, body), client, s) =>
      let (answer, client) := takeAnswer mem.decode client header body
      (answer, client, s)

/-- Answers one after the other, each with the error text after it. -/
def recvAll (mem : ℕ → ClientMem) : ℕ → Client → Inbound UInt8 → List (Answer × List UInt8)
  | 0, _, _ => []
  | n + 1, client, s =>
    let (answer, client, s) := recvResponse (mem n) client s
    (answer, client.error) :: recvAll mem n client s

/-- The answer a client takes from a packet. -/
structure IsAnswer (p : Header × List UInt8) (a : Answer × List UInt8) : Prop where
  response : ∀ values, p.1.op = Op.response.code → p.2 = encode values →
    a.1 = ⟨.ok, some p.1.callId, values⟩
  error : ∀ message, p.1.op = Op.error.code → p.2 = encode [.string message] →
    a = (⟨.err, some p.1.callId, []⟩, errorText message.data)

/-- Only the error text of the client changes with an answer. -/
theorem takeAnswer_client (mem : DecodeMem) (client : Client) (header : Header)
    (body : List UInt8) :
    ∃ error, (takeAnswer mem client header body).2 = { client with error := error } := by
  unfold takeAnswer
  split
  · split
    · exact ⟨_, rfl⟩
    · exact ⟨_, rfl⟩
  · split
    · split
      · exact ⟨_, rfl⟩
      · exact ⟨_, rfl⟩
    · exact ⟨_, rfl⟩

/-- The values of a RESPONSE are taken. -/
theorem takeAnswer_of_response {mem : DecodeMem} {client : Client} {header : Header}
    {body : List UInt8} {values : List Value} (hop : header.op = Op.response.code)
    (hdecode : payloadDecode mem body = .ok values) :
    takeAnswer mem client header body = (⟨.ok, some header.callId, values⟩, client) := by
  rw [takeAnswer, if_pos hop, hdecode]

/-- The text of an ERROR is kept. -/
theorem takeAnswer_of_error {mem : DecodeMem} {client : Client} {header : Header}
    {body : List UInt8} {message : Blob} (hop : header.op = Op.error.code)
    (hdecode : payloadDecode mem body = .ok [.string message]) :
    takeAnswer mem client header body =
      (⟨.err, some header.callId, []⟩, { client with error := errorText message.data }) := by
  have hne : ¬ header.op = Op.response.code := by
    rw [hop]
    decide
  rw [takeAnswer, if_neg hne, if_pos hop, hdecode]

theorem isAnswer_takeAnswer {mem : DecodeMem} (hmem : mem.Grants) (client : Client)
    (header : Header) {body : List UInt8} (hlen : body.length ≤ maxPayloadSize) :
    IsAnswer (header, body) ((takeAnswer mem client header body).1,
      (takeAnswer mem client header body).2.error) := by
  constructor
  · intro values hop hbody
    have hdecode : payloadDecode mem body = .ok values := by
      rw [show body = encode values from hbody] at hlen ⊢
      exact payloadDecode_encode hlen hmem
    rw [takeAnswer_of_response hop hdecode]
  · intro message hop hbody
    have hdecode : payloadDecode mem body = .ok [.string message] := by
      rw [show body = encode [.string message] from hbody] at hlen ⊢
      exact payloadDecode_encode hlen hmem
    rw [takeAnswer_of_error hop hdecode]

/-- **The answers are those of the packets in the stream**, whatever the cuts. -/
theorem recvAll_spec {mem : ℕ → ClientMem} {packets : List (Header × List UInt8)}
    {client : Client} {s : Inbound UInt8} {i : Integrity} (hmem : ∀ n, (mem n).Grants)
    (hwf : client.WellFormed) (hfd : 0 ≤ client.fd) (hclean : Clean s.cuts)
    (hi : client.integrity = i) (hseq : PacketSeq i (client.pending s) packets []) :
    List.Forall₂ IsAnswer packets (recvAll mem packets.length client s) := by
  obtain ⟨pieces, hpieces, hpending⟩ := hseq
  induction hpieces generalizing client s with
  | nil => exact .nil
  | @cons bytes p pieces packets hpacket hpieces ih =>
    rw [List.flatten_cons, List.append_assoc] at hpending
    obtain ⟨client₁, s₁, hrecv, hsame, hwf₁, hpending₁, hclean₁⟩ :=
      recvPacket_spec ((hmem packets.length).receives _ _) hwf hclean (hi ▸ hpacket) hpending
    have hfd₁ : client₁.fd = client.fd := by rw [hsame]; rfl
    have hi₁ : client₁.integrity = i := by rw [hsame]; exact hi
    obtain ⟨error, hclient⟩ := takeAnswer_client (mem packets.length).decode client₁ p.1 p.2
    have hanswer := isAnswer_takeAnswer (hmem packets.length).2.2 client₁ p.1 hpacket.payload_le
    have htail : List.Forall₂ IsAnswer packets (recvAll mem packets.length
        (takeAnswer (mem packets.length).decode client₁ p.1 p.2).2 s₁) := by
      rw [hclient]
      exact ih ⟨hwf₁.off_le, hwf₁.len_le⟩ (hfd₁ ▸ hfd) hclean₁ hi₁ hpending₁
    rw [List.length_cons, recvAll, recvResponse, if_neg (by omega), hrecv]
    exact .cons hanswer htail

end Wirecall

import Wirecall.Client.Answers

/-!
# Calls after a failed one

The server answers every request once, in order. A call of the client may fail after its request was
sent. When the values cannot be stored, the packet is taken from the stream already, and the next call
starts with an empty stream. When the read buffer cannot grow, or the payload cannot be copied, the
packet stays: the next call takes it for its own answer, leaves its own answer behind, and so does
every call after it.

## Main definitions

* `ServedCall`, `Session.deliver`, `Session.serve`: a call with the answer that comes for it
* `Session.Answered`: the answer is a well-formed RESPONSE to the request
* `Session.Receives`: the memory for receiving the answer is granted
* `Session.Drained`: nothing is left of the stream

## Main results

* `Session.Drained.serve`: a call with the memory for receiving leaves nothing behind
* `call_after_failures`: **after such calls, one with all its memory returns its own response**
* `call_after_copy_refused`: after a payload that could not be copied it does not
-/

namespace Wirecall

open Socket

/-- A call of a procedure: the memory while it runs, the cuts of the socket, and the packet that comes
for it. -/
structure ServedCall where
  mem : ClientMem
  name : List UInt8
  args : List UInt8
  sendCuts : List Cut
  recvCuts : List Cut
  answer : List UInt8

/-- The session while a call runs: the answer comes if the request is sent. -/
def Session.deliver (s : Session) (c : ServedCall) : Session :=
  let out : Outbound UInt8 := ⟨s.out.accepted, c.sendCuts⟩
  let sent := (sendCallId s.client (procId (some c.name)) c.args out).1.isSome
  ⟨s.client, out, ⟨s.inn.bytes ++ (if sent then c.answer else []), c.recvCuts⟩⟩

/-- The session after a call. -/
def Session.serve (s : Session) (c : ServedCall) : Option Session :=
  some (callName c.mem (s.deliver c) c.name c.args).2.2

/-- The socket works, and the answer is a RESPONSE with the values to the request. -/
structure Session.Answered (s : Session) (c : ServedCall) (values : List Value) : Prop where
  sends : Clean c.sendCuts
  receives : Clean c.recvCuts
  packet : ∃ header, IsPacket s.client.integrity c.answer header (encode values) ∧
    header.op = Op.response.code ∧ header.callId = s.client.nextCallId

/-- The requests of `recv_packet` are granted while the answer is received. -/
def Session.Receives (s : Session) (c : ServedCall) : Prop :=
  c.mem.Receives s.client.readCap c.answer.length

/-- **Nothing is left of the stream** on a client that is connected. -/
structure Session.Drained (s : Session) : Prop where
  wellFormed : s.client.WellFormed
  pending : s.client.pending s.inn = []
  connected : ¬ s.client.fd < 0

section Calls

variable {s : Session} {c : ServedCall} {values : List Value}

/-- **A call whose request is sent takes its answer**, and nothing is left after it. -/
theorem callName_answered {callId : UInt64} {client₁ : Client} {out₁ : Outbound UInt8}
    (h : s.Drained) (hanswered : s.Answered c values) (hmem : s.Receives c)
    (hsend : sendCallId s.client (procId (some c.name)) c.args ⟨s.out.accepted, c.sendCuts⟩ =
      (some callId, client₁, out₁)) :
    ∃ header client inn, header.op = Op.response.code ∧ header.callId = callId ∧
      client.WellFormed ∧ client.pending inn = [] ∧ client.fd = s.client.fd ∧
      callName c.mem (s.deliver c) c.name c.args =
        finishCall callId (takeAnswer c.mem.decode client header (encode values)).1
          (takeAnswer c.mem.decode client header (encode values)).2 out₁ inn := by
  obtain ⟨-, hid, -⟩ | ⟨-, hid, rfl⟩ | ⟨-, hid, -⟩ := sendCallId_cases hsend
  · cases hid
  · cases hid
    obtain ⟨header, hpacket, hop, hcallId⟩ := hanswered.packet
    have hinn : (s.deliver c).inn = ⟨s.inn.bytes ++ c.answer, c.recvCuts⟩ := by
      simp only [Session.deliver, hsend, Option.isSome_some, if_true]
    have hpending : Client.pending { s.client with nextCallId := s.client.nextCallId + 1 }
        (s.deliver c).inn = c.answer := by
      have hunread := h.pending
      rw [hinn]
      show s.client.unread ++ (s.inn.bytes ++ c.answer) = c.answer
      rw [← List.append_assoc, show s.client.unread ++ s.inn.bytes = [] from hunread, List.nil_append]
    have hwf₁ := sendCallId_wellFormed h.wellFormed hsend
    have hclean : Clean (s.deliver c).inn.cuts := by
      rw [hinn]
      exact hanswered.receives
    obtain ⟨client, inn, hrecv, hsame, hwf, hrest, -⟩ :=
      @recvPacket_spec { s.client with nextCallId := s.client.nextCallId + 1 } _ c.mem c.answer _ [] _
        hmem hwf₁ hclean hpacket (hpending.trans (List.append_nil c.answer).symm)
    refine ⟨header, client, inn, hop, hcallId, hwf, hrest, by rw [hsame]; rfl, ?_⟩
    have hresponse :
        recvResponse c.mem { s.client with nextCallId := s.client.nextCallId + 1 } (s.deliver c).inn =
          ((takeAnswer c.mem.decode client header (encode values)).1,
            (takeAnswer c.mem.decode client header (encode values)).2, inn) := by
      rw [recvResponse, if_neg (show ¬ s.client.fd < 0 from h.connected), hrecv]
    rw [callName, clientCallId, if_neg (show ¬ (s.deliver c).client.fd < 0 from h.connected)]
    rw [show sendCallId (s.deliver c).client (procId (some c.name)) c.args (s.deliver c).out = _
      from hsend]
    simp only
    rw [hresponse]
  · cases hid

/-- A call whose request is not sent leaves the stream alone. -/
theorem callName_unsent {client₁ : Client} {out₁ : Outbound UInt8} (h : s.Drained)
    (hsend : sendCallId s.client (procId (some c.name)) c.args ⟨s.out.accepted, c.sendCuts⟩ =
      (none, client₁, out₁)) :
    (callName c.mem (s.deliver c) c.name c.args).2.2.Drained := by
  have hinn : (s.deliver c).inn = ⟨s.inn.bytes, c.recvCuts⟩ := by
    simp only [Session.deliver, hsend, Option.isSome_none, Bool.false_eq_true, if_false,
      List.append_nil]
  have hcall : callName c.mem (s.deliver c) c.name c.args =
      (.err, [], ⟨client₁, out₁, ⟨s.inn.bytes, c.recvCuts⟩⟩) := by
    rw [callName, clientCallId, if_neg (show ¬ (s.deliver c).client.fd < 0 from h.connected)]
    rw [show sendCallId (s.deliver c).client (procId (some c.name)) c.args (s.deliver c).out = _
      from hsend]
    simp only
    rw [hinn]
  rw [hcall]
  have hwf := sendCallId_wellFormed h.wellFormed hsend
  obtain ⟨hfd, -, -⟩ | ⟨-, hid, -⟩ | ⟨-, -, rfl⟩ := sendCallId_cases hsend
  · exact absurd hfd h.connected
  · cases hid
  · exact ⟨hwf, h.pending, h.connected⟩

/-- Whatever becomes of the answer, the stream is as it was when the packet was taken. -/
theorem finishCall_drained {callId : UInt64} {client : Client} {header : Header}
    {body : List UInt8} {mem : DecodeMem} {out : Outbound UInt8} {inn : Inbound UInt8}
    (hwf : client.WellFormed) (hpending : client.pending inn = []) (hfd : ¬ client.fd < 0) :
    (finishCall callId (takeAnswer mem client header body).1 (takeAnswer mem client header body).2
      out inn).2.2.Drained := by
  obtain ⟨error, herror⟩ := takeAnswer_client mem client header body
  unfold finishCall
  split_ifs
  · rw [herror]
    exact ⟨⟨hwf.off_le, hwf.len_le⟩, hpending, hfd⟩
  · rw [herror]
    exact ⟨⟨hwf.off_le, hwf.len_le⟩, hpending, hfd⟩

/-- **A call with the memory for receiving leaves nothing behind**, even if its values cannot be
stored. -/
theorem Session.Drained.serve {s' : Session} (h : s.Drained) (hanswered : s.Answered c values)
    (hmem : s.Receives c) (hserve : s.serve c = some s') : s'.Drained := by
  cases hserve
  rcases hsend : sendCallId s.client (procId (some c.name)) c.args ⟨s.out.accepted, c.sendCuts⟩ with
    ⟨id, client₁, out₁⟩
  cases id with
  | none => exact callName_unsent h hsend
  | some callId =>
    obtain ⟨header, client, inn, -, -, hwf, hpending, hfd, hcall⟩ :=
      callName_answered h hanswered hmem hsend
    rw [hcall]
    exact finishCall_drained hwf hpending (hfd ▸ h.connected)

/-- A request that fits a packet is sent. -/
theorem sendCallId_sent {args : List UInt8} (h : s.Drained) (hanswered : s.Answered c values)
    (hargs : args.length ≤ maxPayloadSize) (procId : UInt64) :
    ∃ client₁ out₁, sendCallId s.client procId args ⟨s.out.accepted, c.sendCuts⟩ =
      (some s.client.nextCallId, client₁, out₁) := by
  obtain ⟨front, checksum, mac, out₁, -, hsend, -⟩ :=
    sendPacket_spec { s.client with nextCallId := s.client.nextCallId + 1 } .rpc procId
      s.client.nextCallId hargs (show Clean (Outbound.cuts ⟨s.out.accepted, c.sendCuts⟩) from
        hanswered.sends)
  refine ⟨{ s.client with nextCallId := s.client.nextCallId + 1 }, out₁, ?_⟩
  rw [sendCallId, if_neg h.connected]
  simp only
  rw [hsend]

/-- **A call with all its memory returns its own response** when nothing was left of the stream. -/
theorem Session.Drained.returns (h : s.Drained) (hanswered : s.Answered c values)
    (hargs : c.args.length ≤ maxPayloadSize) (hmem : c.mem.Grants) :
    ∃ s', callName c.mem (s.deliver c) c.name c.args = (.ok, values, s') := by
  obtain ⟨client₁, out₁, hsend⟩ := sendCallId_sent h hanswered hargs (procId (some c.name))
  obtain ⟨header, client, inn, hop, hcallId, -, -, -, hcall⟩ :=
    callName_answered h hanswered (hmem.receives _ _) hsend
  obtain ⟨header', hpacket, -⟩ := hanswered.packet
  have hdecode : payloadDecode c.mem.decode (encode values) = .ok values :=
    payloadDecode_encode hpacket.payload_le hmem.2.2
  refine ⟨⟨client, out₁, inn⟩, ?_⟩
  rw [hcall, takeAnswer_of_response hop hdecode, finishCall, if_neg (by simp [hcallId])]

end Calls

/-- **A local failure does not poison later calls** as long as it is one of storing the values: after
any history of calls that are answered in order and in which the memory for receiving was granted, a
call with all its memory returns `0` with its own response. -/
theorem call_after_failures {fd : Int} {i : Integrity} (hkey : i.macKey.isSome) (hfd : 0 ≤ fd)
    {history : List ServedCall} {s : Session}
    (hmeets : Machine.Meets Session.serve
      (fun s c => (∃ values, s.Answered c values) ∧ s.Receives c)
      (.start fd i hkey ⟨[], []⟩ ⟨[], []⟩) history)
    (hrun : Machine.exec Session.serve (.start fd i hkey ⟨[], []⟩ ⟨[], []⟩) history = some s)
    {c : ServedCall} {values : List Value} (hanswered : s.Answered c values)
    (hargs : c.args.length ≤ maxPayloadSize) (hmem : c.mem.Grants) :
    ∃ s', callName c.mem (s.deliver c) c.name c.args = (.ok, values, s') := by
  have hstart : (Session.start fd i hkey ⟨[], []⟩ ⟨[], []⟩).Drained :=
    ⟨⟨le_rfl, le_rfl⟩, rfl, Int.not_lt.mpr hfd⟩
  have hdrained : s.Drained := by
    refine Machine.exec_invariant (P := Session.Drained) ?_ hstart hmeets hrun
    rintro s c s' h ⟨⟨values, hanswered⟩, hmem⟩ hserve
    exact h.serve hanswered hmem hserve
  exact hdrained.returns hanswered hargs hmem

/-- A call without arguments that is answered with a null. -/
def nullCall (callId : UInt8) (mem : ClientMem) : ServedCall :=
  ⟨mem, [97], [], [], [], nullReply callId⟩

/-- No value can be stored. -/
def valuesRefused : ClientMem := ⟨fun _ => true, true, ⟨fun _ _ => false, fun _ _ => false⟩⟩

/-- The payload cannot be copied. -/
def copyRefused : ClientMem := ⟨fun _ => true, false, .granting⟩

theorem isPacket_nullReply_one :
    IsPacket unchecked (nullReply 1) (nullReplyHeader 1) (encode [.null]) :=
  ⟨(nullReply 1).take headerSize, by decide, by decide, by decide, by decide, by decide⟩

theorem isPacket_nullReply_two :
    IsPacket unchecked (nullReply 2) (nullReplyHeader 2) (encode [.null]) :=
  ⟨(nullReply 2).take headerSize, by decide, by decide, by decide, by decide, by decide⟩

/-- The values of the first call cannot be stored; the second call returns its response. -/
theorem call_after_failures_stored :
    ∃ s, Machine.exec Session.serve (.start 3 unchecked rfl ⟨[], []⟩ ⟨[], []⟩)
        [nullCall 1 valuesRefused] = some s ∧
      s.client.error = text "malformed response payload" ∧
      ∃ s', callName .granting (s.deliver (nullCall 2 .granting)) [97] [] = (.ok, [.null], s') := by
  obtain ⟨s, hrun, hs⟩ := Machine.exists_of_any
    (p := fun s : Session => decide (s.client.error = text "malformed response payload" ∧
      s.client.nextCallId = 2 ∧ s.client.integrity = unchecked))
    (show (Machine.exec Session.serve (.start 3 unchecked rfl ⟨[], []⟩ ⟨[], []⟩)
      [nullCall 1 valuesRefused]).any _ = true by decide +kernel)
  obtain ⟨herror, hnext, hintegrity⟩ := of_decide_eq_true hs
  have hfirst : (Session.start 3 unchecked rfl ⟨[], []⟩ ⟨[], []⟩).Answered
      (nullCall 1 valuesRefused) [.null] :=
    ⟨by decide, by decide, nullReplyHeader 1, isPacket_nullReply_one, rfl, rfl⟩
  have hmeets : Machine.Meets Session.serve
      (fun s c => (∃ values, s.Answered c values) ∧ s.Receives c)
      (.start 3 unchecked rfl ⟨[], []⟩ ⟨[], []⟩) [nullCall 1 valuesRefused] :=
    ⟨⟨⟨_, hfirst⟩, by decide, by decide, rfl⟩, fun _ _ => trivial⟩
  have hsecond : s.Answered (nullCall 2 .granting) [.null] := by
    refine ⟨by decide, by decide, nullReplyHeader 2, ?_, rfl, hnext ▸ rfl⟩
    rw [hintegrity]
    exact isPacket_nullReply_two
  exact ⟨s, hrun, herror, call_after_failures rfl (by decide) hmeets hrun hsecond (by decide)
    ⟨fun _ => rfl, rfl, DecodeMem.granting_grants⟩⟩

/-- **A payload that could not be copied poisons the next call**: its packet stays, and the next call,
with all its memory and its own answer on the way, takes it and fails. -/
theorem call_after_copy_refused :
    (Session.start 3 unchecked rfl ⟨[], []⟩ ⟨[], []⟩).Answered (nullCall 1 copyRefused) [.null] ∧
    ∃ s, Machine.exec Session.serve (.start 3 unchecked rfl ⟨[], []⟩ ⟨[], []⟩)
        [nullCall 1 copyRefused] = some s ∧
      s.Answered (nullCall 2 .granting) [.null] ∧
      (callName .granting (s.deliver (nullCall 2 .granting)) [97] []).1 = .err ∧
      (callName .granting (s.deliver (nullCall 2 .granting)) [97] []).2.2.client.error =
        text "unexpected call id" := by
  obtain ⟨s, hrun, hs⟩ := Machine.exists_of_any
    (p := fun s : Session => decide (s.client.nextCallId = 2 ∧ s.client.integrity = unchecked ∧
      (callName .granting (s.deliver (nullCall 2 .granting)) [97] []).1 = .err ∧
      (callName .granting (s.deliver (nullCall 2 .granting)) [97] []).2.2.client.error =
        text "unexpected call id"))
    (show (Machine.exec Session.serve (.start 3 unchecked rfl ⟨[], []⟩ ⟨[], []⟩)
      [nullCall 1 copyRefused]).any _ = true by decide +kernel)
  obtain ⟨hnext, hintegrity, hrc, herror⟩ := of_decide_eq_true hs
  refine ⟨⟨by decide, by decide, nullReplyHeader 1, isPacket_nullReply_one, rfl, rfl⟩, s, hrun,
    ⟨by decide, by decide, nullReplyHeader 2, ?_, rfl, hnext ▸ rfl⟩, hrc, herror⟩
  rw [hintegrity]
  exact isPacket_nullReply_two

end Wirecall

import Wirecall.Client.Calls
import Wirecall.Client.Receiving
import Wirecall.Machine.Run

/-!
# The answer of a call

`wirecall_client_call_name` sends a call and takes the next packet of the stream for its answer. The
packet may belong to an earlier call, one that was pipelined or one whose answer was never taken.
The id is compared only when the packet was accepted as a response: an ERROR packet of another call
leaves its message behind, and so does a RESPONSE of another call whose payload does not decode.

## Main definitions

* `clientPing`, `clientCallId`, `callName`: the calls that wait for an answer
* `Session`, `ClientOp`, `Session.step`: a client with both directions of its socket, and any
  sequence of calls on it
* `OwnAnswer`: what a call takes and what it reports
* `Session.InTurn`: the next packet of the stream is of this call, or a response that decodes

## Main results

* `callName_ok`: **a call returns `0` only with a response that carries its id**
* `call_takes_own_answer`: with the next packet in turn, every other answer is reported as such
* `error_of_another_call`: the message of another call's ERROR packet is reported
-/

namespace Wirecall

open Socket

/-- A client and both directions of its socket. -/
structure Session where
  client : Client
  out : Outbound UInt8
  inn : Inbound UInt8

/-- `wirecall_client_ping`. -/
def clientPing (mem : ClientMem) (s : Session) : Rc × Session :=
  if s.client.fd < 0 then (.err, s)
  else
    let callId := s.client.nextCallId
    match sendPacket { s.client with nextCallId := callId + 1 } .ping 0 callId [] s.out with
    | (.err, client, out) => (.err, ⟨client, out, s.inn⟩)
    | (.ok, client, out) =>
      match recvPacket mem client s.inn with
      | (none, client, inn) => (.err, ⟨client, out, inn⟩)
      | (some (header, _), client, inn) =>
        if header.op ≠ Op.response.code ∨ header.callId ≠ callId ∨ header.size ≠ 0 then
          (.err, ⟨setError client "unexpected ping response", out, inn⟩)
        else (.ok, ⟨client, out, inn⟩)

/-- The end of `client_call_id`: the answer must carry the id of the call. -/
def finishCall (callId : UInt64) (answer : Answer) (client : Client) (out : Outbound UInt8)
    (inn : Inbound UInt8) : Rc × List Value × Session :=
  if answer.rc = .ok ∧ answer.callId ≠ some callId then
    (.err, [], ⟨setError client "unexpected call id", out, inn⟩)
  else (answer.rc, answer.values, ⟨client, out, inn⟩)

/-- `client_call_id`: the return value and the decoded values. -/
def clientCallId (mem : ClientMem) (s : Session) (procId : UInt64) (args : List UInt8) :
    Rc × List Value × Session :=
  if s.client.fd < 0 then (.err, [], s)
  else match sendCallId s.client procId args s.out with
    | (none, client, out) => (.err, [], ⟨client, out, s.inn⟩)
    | (some callId, client, out) =>
      match recvResponse mem client s.inn with
      | (answer, client, inn) => finishCall callId answer client out inn

/-- `wirecall_client_call_name`. -/
def callName (mem : ClientMem) (s : Session) (name args : List UInt8) :
    Rc × List Value × Session :=
  clientCallId mem s (procId (some name)) args

/-- The packet that a call takes from the stream, once it is sent. -/
def Session.taken (mem : ClientMem) (s : Session) (name args : List UInt8) :
    Option (Header × List UInt8) :=
  match sendCallId s.client (procId (some name)) args s.out with
  | (none, _, _) => none
  | (some _, client, _) => (recvPacket mem client s.inn).1

/-! ## Histories -/

/-- A call on the client. -/
inductive ClientOp where
  | ping (mem : ClientMem)
  | sendCall (name args : List UInt8)
  | recvResponse (mem : ClientMem)
  | call (mem : ClientMem) (name args : List UInt8)

/-- The session after a call. -/
def Session.step (s : Session) : ClientOp → Option Session
  | .ping mem => some (clientPing mem s).2
  | .sendCall name args =>
    match sendCallName s.client name args s.out with
    | (_, client, out) => some ⟨client, out, s.inn⟩
  | .recvResponse mem =>
    match recvResponse mem s.client s.inn with
    | (_, client, inn) => some ⟨client, s.out, inn⟩
  | .call mem name args => some (callName mem s name args).2.2

section Calls

variable {mem : ClientMem} {s s' : Session} {name args : List UInt8}

/-- Sending changes the error text at most, and only if it fails. -/
theorem sendPacket_client (client : Client) (op : Op) (procId callId : UInt64)
    (payload : List UInt8) (out : Outbound UInt8) :
    ((sendPacket client op procId callId payload out).1 = .ok ∧
        (sendPacket client op procId callId payload out).2.1 = client) ∨
      ((sendPacket client op procId callId payload out).1 = .err ∧
        (sendPacket client op procId callId payload out).2.1 = setError client "send failed") := by
  unfold sendPacket
  split
  · exact .inr ⟨rfl, rfl⟩
  · simp only
    split
    · exact .inl ⟨rfl, rfl⟩
    · exact .inr ⟨rfl, rfl⟩

/-- **What sending a call leaves**: nothing if there is no connection, the next id taken if it is
sent, and an error text with it if it is not. -/
theorem sendCallId_cases {client client₁ : Client} {procId : UInt64} {out out₁ : Outbound UInt8}
    {id : Option UInt64} (h : sendCallId client procId args out = (id, client₁, out₁)) :
    (client.fd < 0 ∧ id = none ∧ client₁ = client) ∨
      (¬ client.fd < 0 ∧ id = some client.nextCallId ∧
        client₁ = { client with nextCallId := client.nextCallId + 1 }) ∨
      (¬ client.fd < 0 ∧ id = none ∧
        client₁ = setError { client with nextCallId := client.nextCallId + 1 } "send failed") := by
  unfold sendCallId at h
  by_cases hfd : client.fd < 0
  · rw [if_pos hfd] at h
    cases h
    exact .inl ⟨hfd, rfl, rfl⟩
  · rw [if_neg hfd] at h
    have hcases := sendPacket_client
      { client with nextCallId := client.nextCallId + 1 } .rpc procId client.nextCallId args out
    simp only at h
    rcases hsend : sendPacket { client with nextCallId := client.nextCallId + 1 } .rpc procId
      client.nextCallId args out with ⟨rc, client', out'⟩
    rw [hsend] at h hcases
    obtain ⟨hrc, hclient⟩ | ⟨hrc, hclient⟩ := hcases
    · simp only at hrc hclient
      subst hrc hclient
      cases h
      exact .inr (.inl ⟨hfd, rfl, rfl⟩)
    · simp only at hrc hclient
      subst hrc hclient
      cases h
      exact .inr (.inr ⟨hfd, rfl, rfl⟩)

theorem recvResponse_wellFormed {client : Client} {inn : Inbound UInt8} (hwf : client.WellFormed) :
    (recvResponse mem client inn).2.1.WellFormed := by
  unfold recvResponse
  split_ifs with hfd
  · exact hwf
  · rcases hrecv : recvPacket mem client inn with ⟨_ | ⟨header, body⟩, client', inn'⟩
    · exact (recvPacket_outcome hwf hrecv).2.1
    · obtain ⟨error, herror⟩ := takeAnswer_client mem.decode client' header body
      have hwf' := (recvPacket_outcome hwf hrecv).2.1
      simp only
      rw [herror]
      exact ⟨hwf'.off_le, hwf'.len_le⟩

theorem clientPing_wellFormed (hwf : s.client.WellFormed) : (clientPing mem s).2.client.WellFormed := by
  unfold clientPing
  split_ifs with hfd
  · exact hwf
  · have hcases := sendPacket_client
      { s.client with nextCallId := s.client.nextCallId + 1 } .ping 0 s.client.nextCallId [] s.out
    simp only
    rcases hsend : sendPacket { s.client with nextCallId := s.client.nextCallId + 1 } .ping 0
      s.client.nextCallId [] s.out with ⟨rc, client, out⟩
    rw [hsend] at hcases
    have hwf₁ : client.WellFormed := by
      obtain ⟨-, hclient⟩ | ⟨-, hclient⟩ := hcases
      · rw [show client = _ from hclient]
        exact ⟨hwf.off_le, hwf.len_le⟩
      · rw [show client = _ from hclient]
        exact ⟨hwf.off_le, hwf.len_le⟩
    cases rc with
    | err => exact hwf₁
    | ok =>
      simp only
      rcases hrecv : recvPacket mem client s.inn with ⟨_ | ⟨header, body⟩, client', inn'⟩
      · exact (recvPacket_outcome hwf₁ hrecv).2.1
      · have hwf₂ := (recvPacket_outcome hwf₁ hrecv).2.1
        simp only
        split_ifs
        · exact ⟨hwf₂.off_le, hwf₂.len_le⟩
        · exact hwf₂

/-- The read buffer is as it was when a call is sent. -/
theorem sendCallId_wellFormed {client client₁ : Client} {procId : UInt64}
    {out out₁ : Outbound UInt8} {id : Option UInt64} (hwf : client.WellFormed)
    (h : sendCallId client procId args out = (id, client₁, out₁)) : client₁.WellFormed := by
  obtain ⟨-, -, rfl⟩ | ⟨-, -, rfl⟩ | ⟨-, -, rfl⟩ := sendCallId_cases h
  · exact hwf
  · exact ⟨hwf.off_le, hwf.len_le⟩
  · exact ⟨hwf.off_le, hwf.len_le⟩

theorem callName_wellFormed (hwf : s.client.WellFormed) :
    (callName mem s name args).2.2.client.WellFormed := by
  unfold callName clientCallId
  split_ifs with hfd
  · exact hwf
  · rcases hsend : sendCallId s.client (procId (some name)) args s.out with ⟨id, client, out⟩
    have hwf₁ : client.WellFormed := sendCallId_wellFormed hwf hsend
    cases id with
    | none => exact hwf₁
    | some callId =>
      have hwf₂ : (recvResponse mem client s.inn).2.1.WellFormed := recvResponse_wellFormed hwf₁
      simp only
      unfold finishCall
      split_ifs
      · exact ⟨hwf₂.off_le, hwf₂.len_le⟩
      · exact hwf₂

/-- Every call keeps the fields of the read buffer ordered. -/
theorem Session.step_wellFormed {op : ClientOp} (hwf : s.client.WellFormed)
    (hstep : s.step op = some s') : s'.client.WellFormed := by
  cases op with
  | ping mem =>
    cases hstep
    exact clientPing_wellFormed hwf
  | sendCall name args =>
    rcases hsend : sendCallId s.client (procId (some name)) args s.out with ⟨id, client, out⟩
    simp only [Session.step, sendCallName, hsend] at hstep
    cases hstep
    exact sendCallId_wellFormed hwf hsend
  | recvResponse mem =>
    cases hstep
    exact recvResponse_wellFormed hwf
  | call mem name args =>
    cases hstep
    exact callName_wellFormed hwf

/-! ## What a call takes and reports -/

/-- The error texts that a call has of its own. -/
def ownTexts : List String :=
  ["send failed", "read failed", "packet integrity failed", "out of memory",
    "malformed response payload", "server returned error", "unexpected response op",
    "unexpected call id"]

/-- The error text is as it was, or one of the client's own. -/
def Client.OwnText (client client' : Client) : Prop :=
  client'.error = client.error ∨ ∃ message ∈ ownTexts, client'.error = errorText (text message)

/-- **A call only takes its own answer**: it returns `0` only with the values of a verified RESPONSE
packet at the front of the stream that carries the id it sent, it reports a message of the server
only from an ERROR packet that carries this id, and any other RESPONSE or ERROR packet it takes is
reported as an unexpected call id. -/
structure OwnAnswer (mem : ClientMem) (s : Session) (name args : List UInt8) : Prop where
  returns : ∀ values s', callName mem s name args = (.ok, values, s') →
    ∃ bytes header body, IsPacket s.client.integrity bytes header body ∧
      s.client.pending s.inn = bytes ++ s'.client.pending s'.inn ∧
      header.op = Op.response.code ∧ header.callId = s.client.nextCallId ∧
      payloadDecode mem.decode body = .ok values
  messages : ∀ rc values s', callName mem s name args = (rc, values, s') →
    s.client.OwnText s'.client ∨
      ∃ header body message, s.taken mem name args = some (header, body) ∧
        header.op = Op.error.code ∧ header.callId = s.client.nextCallId ∧
        payloadDecode mem.decode body = .ok [.string message] ∧
        s'.client.error = errorText message.data
  reports : ∀ header body, s.taken mem name args = some (header, body) →
    header.op = Op.response.code ∨ header.op = Op.error.code →
    header.callId ≠ s.client.nextCallId →
    ∃ s', callName mem s name args = (.err, [], s') ∧
      s'.client.error = errorText (text "unexpected call id")

/-- The next packet of the stream is of this call, or it is not an ERROR packet and its payload
decodes if it is a RESPONSE. -/
def Session.InTurn (mem : ClientMem) (s : Session) : Prop :=
  ∀ bytes rest header body, s.client.pending s.inn = bytes ++ rest →
    IsPacket s.client.integrity bytes header body → header.callId ≠ s.client.nextCallId →
    header.op ≠ Op.error.code ∧
      (header.op = Op.response.code → ∃ values, payloadDecode mem.decode body = .ok values)

/-- A packet that was not received leaves one of the client's texts. -/
theorem recvPacket_error {client client₁ : Client} {inn inn₁ : Inbound UInt8}
    (h : recvPacket mem client inn = (none, client₁, inn₁)) :
    ∃ message ∈ ownTexts, client₁.error = errorText (text message) := by
  have hread : "read failed" ∈ ownTexts := by decide
  unfold recvPacket at h
  split at h
  · cases h
    exact ⟨_, hread, rfl⟩
  rename_i client₂ inn₂ hfill₁
  cases hdecode : headerDecode client₂.unread with
  | none =>
    rw [hdecode] at h
    cases h
    exact ⟨_, hread, rfl⟩
  | some header =>
    rw [hdecode] at h
    simp only at h
    rw [if_neg (not_lt.mpr (size_le_of_headerDecode hdecode))] at h
    split at h
    · cases h
      exact ⟨_, hread, rfl⟩
    split_ifs at h
    · cases h
      exact ⟨"packet integrity failed", by decide, rfl⟩
    · cases h
      exact ⟨"out of memory", by decide, rfl⟩
    · cases h

/-- An answer is accepted only if it is a response that decodes. -/
theorem takeAnswer_ok {client : Client} {header : Header} {body : List UInt8}
    (h : (takeAnswer mem.decode client header body).1.rc = .ok) :
    header.op = Op.response.code ∧ ∃ values, payloadDecode mem.decode body = .ok values ∧
      takeAnswer mem.decode client header body = (⟨.ok, some header.callId, values⟩, client) := by
  unfold takeAnswer at h ⊢
  by_cases hresponse : header.op = Op.response.code
  · rw [if_pos hresponse] at h ⊢
    refine ⟨hresponse, ?_⟩
    cases hdecode : payloadDecode mem.decode body with
    | ok values => exact ⟨values, rfl, rfl⟩
    | _ =>
      rw [hdecode] at h
      cases h
  · rw [if_neg hresponse] at h
    split_ifs at h
    split at h
    · cases h
    · cases h

/-- A message of the server is taken only from an ERROR packet. -/
theorem takeAnswer_error (client : Client) (header : Header) (body : List UInt8) :
    client.OwnText (takeAnswer mem.decode client header body).2 ∨
      ∃ message, header.op = Op.error.code ∧
        payloadDecode mem.decode body = .ok [.string message] ∧
        (takeAnswer mem.decode client header body).2.error = errorText message.data := by
  unfold takeAnswer
  split_ifs with hresponse herror
  · split
    · exact .inl (.inl rfl)
    · exact .inl (.inr ⟨"malformed response payload", by decide, rfl⟩)
  · split
    · rename_i message hdecode
      exact .inr ⟨message, herror, hdecode, rfl⟩
    · exact .inl (.inr ⟨"server returned error", by decide, rfl⟩)
  · exact .inl (.inr ⟨"unexpected response op", by decide, rfl⟩)

/-- **What a call makes of the packet it takes**, which is the one at the front of the stream. -/
theorem callName_taken {header : Header} {body : List UInt8} (hwf : s.client.WellFormed)
    (htaken : s.taken mem name args = some (header, body)) :
    ∃ bytes client out inn, IsPacket s.client.integrity bytes header body ∧
      s.client.pending s.inn = bytes ++ client.pending inn ∧
      client.error = s.client.error ∧
      callName mem s name args =
        finishCall s.client.nextCallId (takeAnswer mem.decode client header body).1
          (takeAnswer mem.decode client header body).2 out inn := by
  unfold Session.taken at htaken
  rcases hsend : sendCallId s.client (procId (some name)) args s.out with ⟨id, client, out⟩
  rw [hsend] at htaken
  obtain ⟨-, rfl, rfl⟩ | ⟨hfd, rfl, rfl⟩ | ⟨-, rfl, rfl⟩ := sendCallId_cases hsend
  · cases htaken
  · simp only at htaken
    rcases hrecv : recvPacket mem { s.client with nextCallId := s.client.nextCallId + 1 } s.inn with
      ⟨result, client₁, inn₁⟩
    rw [hrecv] at htaken
    simp only at htaken
    subst htaken
    have hwf₁ := sendCallId_wellFormed hwf hsend
    obtain ⟨htakes, -⟩ := recvPacket_outcome hwf₁ hrecv
    cases htakes with
    | packet hsame hpacket hpending =>
      refine ⟨_, client₁, out, inn₁, hpacket, hpending, ?_, ?_⟩
      · rw [hsame]
        rfl
      · have hresponse :
            recvResponse mem { s.client with nextCallId := s.client.nextCallId + 1 } s.inn =
              ((takeAnswer mem.decode client₁ header body).1,
                (takeAnswer mem.decode client₁ header body).2, inn₁) := by
          rw [recvResponse, if_neg hfd, hrecv]
        rw [callName, clientCallId, if_neg hfd, hsend]
        simp only
        rw [hresponse]
  · cases htaken

/-- A call that takes no packet fails, with a text of the client. -/
theorem callName_nothing (htaken : s.taken mem name args = none) :
    (callName mem s name args).1 = .err ∧
      s.client.OwnText (callName mem s name args).2.2.client := by
  unfold Session.taken at htaken
  rcases hsend : sendCallId s.client (procId (some name)) args s.out with ⟨id, client, out⟩
  rw [hsend] at htaken
  obtain ⟨hfd, rfl, rfl⟩ | ⟨hfd, rfl, rfl⟩ | ⟨hfd, rfl, rfl⟩ := sendCallId_cases hsend
  · rw [callName, clientCallId, if_pos hfd]
    exact ⟨rfl, .inl rfl⟩
  · simp only at htaken
    rcases hrecv : recvPacket mem { s.client with nextCallId := s.client.nextCallId + 1 } s.inn with
      ⟨result, client₁, inn₁⟩
    rw [hrecv] at htaken
    simp only at htaken
    subst htaken
    have hresponse :
        recvResponse mem { s.client with nextCallId := s.client.nextCallId + 1 } s.inn =
          (⟨.err, some 0, []⟩, client₁, inn₁) := by
      rw [recvResponse, if_neg hfd, hrecv]
    rw [callName, clientCallId, if_neg hfd, hsend]
    simp only
    rw [hresponse]
    exact ⟨rfl, .inr (recvPacket_error hrecv)⟩
  · rw [callName, clientCallId, if_neg hfd, hsend]
    exact ⟨rfl, .inr ⟨"send failed", by decide, rfl⟩⟩

/-- **A call returns `0` only with a response that carries its id.** -/
theorem callName_ok {values : List Value} (hwf : s.client.WellFormed)
    (h : callName mem s name args = (.ok, values, s')) :
    ∃ bytes header body, IsPacket s.client.integrity bytes header body ∧
      s.client.pending s.inn = bytes ++ s'.client.pending s'.inn ∧
      header.op = Op.response.code ∧ header.callId = s.client.nextCallId ∧
      payloadDecode mem.decode body = .ok values := by
  cases htaken : s.taken mem name args with
  | none =>
    have herr := (callName_nothing htaken).1
    rw [h] at herr
    cases herr
  | some packet =>
    obtain ⟨header, body⟩ := packet
    obtain ⟨bytes, client, out, inn, hpacket, hpending, -, hcall⟩ := callName_taken hwf htaken
    rw [hcall, finishCall] at h
    by_cases hunexpected : (takeAnswer mem.decode client header body).1.rc = .ok ∧
      (takeAnswer mem.decode client header body).1.callId ≠ some s.client.nextCallId
    · rw [if_pos hunexpected] at h
      cases h
    · rw [if_neg hunexpected] at h
      -- the answer was accepted, so its id was compared
      have hrc : (takeAnswer mem.decode client header body).1.rc = .ok := (Prod.mk.inj h).1
      obtain ⟨hop, values', hdecode, htake⟩ := takeAnswer_ok hrc
      rw [htake] at h hunexpected
      cases h
      refine ⟨bytes, header, body, hpacket, hpending, hop, ?_, hdecode⟩
      by_contra hne
      exact hunexpected ⟨rfl, fun hsome => hne (Option.some.inj hsome)⟩

/-- A call reports a text of the client, or the message of the ERROR packet it took. -/
theorem callName_error (hwf : s.client.WellFormed) :
    s.client.OwnText (callName mem s name args).2.2.client ∨
      ∃ header body message, s.taken mem name args = some (header, body) ∧
        header.op = Op.error.code ∧ payloadDecode mem.decode body = .ok [.string message] ∧
        (callName mem s name args).2.2.client.error = errorText message.data := by
  cases htaken : s.taken mem name args with
  | none => exact .inl (callName_nothing htaken).2
  | some packet =>
    obtain ⟨header, body⟩ := packet
    obtain ⟨bytes, client, out, inn, -, -, herror, hcall⟩ := callName_taken hwf htaken
    rw [hcall, finishCall]
    split_ifs
    · exact .inl (.inr ⟨"unexpected call id", by decide, rfl⟩)
    · obtain hown | ⟨message, hop, hdecode, hmessage⟩ := @takeAnswer_error mem client header body
      · rw [Client.OwnText, herror] at hown
        exact .inl hown
      · exact .inr ⟨header, body, message, rfl, hop, hdecode, hmessage⟩

/-- With the next packet in turn, the ERROR packet that a call takes is its own. -/
theorem taken_error_own {header : Header} {body : List UInt8} (hwf : s.client.WellFormed)
    (hturn : s.InTurn mem) (htaken : s.taken mem name args = some (header, body))
    (hop : header.op = Op.error.code) : header.callId = s.client.nextCallId := by
  obtain ⟨bytes, client, out, inn, hpacket, hpending, -⟩ := callName_taken hwf htaken
  by_contra hne
  exact (hturn _ _ _ _ hpending hpacket hne).1 hop

/-- **With the next packet in turn**, an answer to another call is reported as such. -/
theorem callName_unexpected {header : Header} {body : List UInt8} (hwf : s.client.WellFormed)
    (hturn : s.InTurn mem) (htaken : s.taken mem name args = some (header, body))
    (hop : header.op = Op.response.code ∨ header.op = Op.error.code)
    (hne : header.callId ≠ s.client.nextCallId) :
    ∃ s', callName mem s name args = (.err, [], s') ∧
      s'.client.error = errorText (text "unexpected call id") := by
  obtain ⟨bytes, client, out, inn, hpacket, hpending, -, hcall⟩ := callName_taken hwf htaken
  obtain ⟨hnotError, hdecodes⟩ := hturn _ _ _ _ hpending hpacket hne
  have hresponse := hop.resolve_right hnotError
  obtain ⟨values, hdecode⟩ := hdecodes hresponse
  refine ⟨⟨setError client "unexpected call id", out, inn⟩, ?_, rfl⟩
  rw [hcall, takeAnswer_of_response hresponse hdecode]
  exact if_pos ⟨rfl, fun hsome => hne (Option.some.inj hsome)⟩

end Calls

/-- A connected client with the streams of its socket. -/
def Session.start (fd : Int) (i : Integrity) (hkey : i.macKey.isSome) (out : Outbound UInt8)
    (inn : Inbound UInt8) : Session := ⟨.connected fd i hkey, out, inn⟩

/-- **A call only takes its own answer**, after any history of calls on the client and whatever the
server sends, if the next packet of the stream is in turn. -/
theorem call_takes_own_answer {fd : Int} {i : Integrity} (hkey : i.macKey.isSome)
    {out : Outbound UInt8} {inn : Inbound UInt8} {history : List ClientOp} {s : Session}
    (hrun : Machine.exec Session.step (.start fd i hkey out inn) history = some s)
    (mem : ClientMem) (name args : List UInt8) (hturn : s.InTurn mem) :
    OwnAnswer mem s name args := by
  have hwf : s.client.WellFormed := by
    have hmeets : Machine.Meets Session.step (fun _ _ => True) (.start fd i hkey out inn) history :=
      .of_forall fun _ _ _ => trivial
    refine Machine.exec_invariant (P := fun s => s.client.WellFormed) ?_ ⟨le_rfl, le_rfl⟩ hmeets hrun
    intro s op s' hwf _ hstep
    exact Session.step_wellFormed hwf hstep
  refine ⟨fun values s' h => callName_ok hwf h, ?_,
    fun header body htaken hop hne => callName_unexpected hwf hturn htaken hop hne⟩
  intro rc values s' h
  have herror := @callName_error mem s name args hwf
  rw [h] at herror
  obtain hown | ⟨header, body, message, htaken, hop, hdecode, hmessage⟩ := herror
  · exact .inl hown
  · exact .inr ⟨header, body, message, htaken, hop, taken_error_own hwf hturn htaken hop, hdecode,
      hmessage⟩

/-- After a call that was only sent, its answer is at the front of the stream and the next call takes
it. -/
theorem call_takes_own_answer_second :
    ∃ s, Machine.exec Session.step (.start 3 unchecked rfl ⟨[], []⟩ ⟨nullReply 1, []⟩)
        [.sendCall [97] []] = some s ∧
      s.taken .granting [98] [] = some (nullReplyHeader 1, [0]) ∧
      OwnAnswer .granting s [98] [] := by
  obtain ⟨s, hrun, hs⟩ := Machine.exists_of_any
    (p := fun s : Session => decide (s.client.pending s.inn = nullReply 1 ∧
      s.taken .granting [98] [] = some (nullReplyHeader 1, [0])))
    (show (Machine.exec Session.step (.start 3 unchecked rfl ⟨[], []⟩ ⟨nullReply 1, []⟩)
      [.sendCall [97] []]).any _ = true by decide +kernel)
  obtain ⟨hpending, htaken⟩ := of_decide_eq_true hs
  refine ⟨s, hrun, htaken, call_takes_own_answer rfl hrun _ _ _ ?_⟩
  intro bytes rest header body hfront hpacket _
  obtain ⟨hdecode, hbody⟩ := hpacket.front rest
  rw [← hfront, hpending] at hdecode hbody
  obtain rfl : nullReplyHeader 1 = header :=
    Option.some.inj ((show headerDecode (nullReply 1) = _ by decide).symm.trans hdecode)
  have hnull : ((nullReply 1).drop headerSize).take (nullReplyHeader 1).size.toNat = [0] := by decide
  obtain rfl : [0] = body := hnull.symm.trans hbody
  exact ⟨by decide, fun _ => ⟨[.null], by decide +kernel⟩⟩

/-- The header of the ERROR packet that answers the first call. -/
def refusedHeader : Header := ⟨5, 0, 0, 7, 1, 0, 0⟩

/-- Its packet, with the message "no". -/
def refused : List UInt8 :=
  [5, 0, 0, 0, 0, 0, 0, 0, 0, 0, 0, 0, 0, 7, 0, 0, 0, 0, 0, 0, 0, 1, 0, 0, 0, 0,
    0, 0, 0, 0, 0, 0, 0, 0, 6, 0, 0, 0, 2, 110, 111]

/-- **The message of another call is reported**: the first call was only sent, the second takes the
ERROR packet that answers the first, and the message in it is the error text of the second. -/
theorem error_of_another_call :
    ∃ s, Machine.exec Session.step (.start 3 unchecked rfl ⟨[], []⟩ ⟨refused, []⟩)
        [.sendCall [97] []] = some s ∧
      s.taken .granting [98] [] =
        some (refusedHeader, refused.drop headerSize) ∧
      s.client.nextCallId = 2 ∧ refusedHeader.callId = 1 ∧
      (callName .granting s [98] []).2.2.client.error = text "no" ∧
      ¬ OwnAnswer .granting s [98] [] := by
  obtain ⟨s, hrun, hs⟩ := Machine.exists_of_any
    (p := fun s : Session => decide (s.taken .granting [98] [] =
        some (refusedHeader, refused.drop headerSize) ∧ s.client.nextCallId = 2 ∧
      (callName .granting s [98] []).2.2.client.error = text "no"))
    (show (Machine.exec Session.step (.start 3 unchecked rfl ⟨[], []⟩ ⟨refused, []⟩)
      [.sendCall [97] []]).any _ = true by decide +kernel)
  obtain ⟨htaken, hnext, herror⟩ := of_decide_eq_true hs
  refine ⟨s, hrun, htaken, hnext, rfl, herror, ?_⟩
  intro hown
  obtain ⟨s', hcall, hunexpected⟩ := hown.reports _ _ htaken (.inr rfl) (by rw [hnext]; decide)
  rw [hcall] at herror
  rw [show s'.client.error = _ from herror] at hunexpected
  revert hunexpected
  decide

end Wirecall

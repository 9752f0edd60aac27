import Wirecall.Client.Transport

/-!
# Receiving packets from a stream that is cut anywhere

`recv_packet` is called again and again on one client. The buffer may hold several packets, is
compacted when more bytes are needed, grows by doubling and is reset when it is empty. Beside the
results, the turns of `client_read_fill` that call `recv` are put on record, with the client and the
socket as they are then.

## Main definitions

* `Client.connected`: the client after `wirecall_client_connect`
* `Client.InOrder`: the fields of the read buffer are ordered, and it has at most 2 MiB
* `FillTurn`, `fillLogged`: a turn that calls `recv`, and `client_read_fill` with its turns
* `recvTurns`, `recvCalls`: the same for `recv_packet`, and for any number of its calls
* `recvLogged`: `recv_packet` with its turns

## Main results

* `fillLogged_fst`, `recvLogged_eq`: the record changes nothing
* `fillLogged_ordered`: in every turn the buffer is in order and there is room
* `client_framing`: **the results are the packets of the stream**, whatever the cuts
-/

namespace Wirecall

open Socket

/-- The client after `wirecall_client_connect` and `wirecall_client_set_integrity`. -/
def Client.connected (fd : Int) (integrity : Integrity) (hkey : integrity.macKey.isSome) :
    Client where
  fd := fd
  nextCallId := 1
  readBuf := []
  readOff := 0
  readCap := 0
  integrity := integrity
  key_isSome := hkey
  error := []

/-- `read_off <= read_len <= read_cap <= 2^21`. -/
structure Client.InOrder (client : Client) : Prop where
  off_le : client.readOff ≤ client.readBuf.length
  len_le : client.readBuf.length ≤ client.readCap
  cap_le : client.readCap ≤ 2 ^ 21

theorem Client.WellFormed.inOrder {client : Client} (h : client.WellFormed)
    (hcap : Doubled 21 client.readCap) : client.InOrder := ⟨h.off_le, h.len_le, hcap.le⟩

/-! ## The calls of `recv` -/

/-- A turn of `client_read_fill` that calls `recv`: the client at its start, and the client and the
socket at the call. -/
structure FillTurn where
  start : Client
  client : Client
  socket : Inbound UInt8

/-- The length that `recv` is given. -/
def FillTurn.room (t : FillTurn) : ℕ := t.client.readCap - t.client.readBuf.length

/-- The buffer is in order, there is room, and nothing comes only at the end of the stream. -/
structure FillTurn.Ordered (t : FillTurn) : Prop where
  start : t.start.InOrder
  client : t.client.InOrder
  room_pos : 0 < t.room
  eof : ∀ s, t.socket.recv t.room = (.data [], s) → t.socket.bytes = []

/-- `client_read_fill`, with the turns that call `recv`. -/
def fillLogged (mem : Mem) (need : ℕ) :
    ℕ → Client → Inbound UInt8 → (Rc × Client × Inbound UInt8) × List FillTurn
  | 0, client, s => ((if client.available < need then .err else .ok, client, s), [])
  | fuel + 1, start, s =>
    if start.available < need then
      match clientReadReserve mem start need with
      | (.err, client) => ((.err, client, s), [])
      | (.ok, client) =>
        match if client.readBuf.length = client.readCap then
            clientReadReserve mem client (client.readCap + 1) else (.ok, client) with
        | (.err, client) => ((.err, client, s), [])
        | (.ok, client) =>
          let turn : FillTurn := ⟨start, client, s⟩
          match s.recv (client.readCap - client.readBuf.length) with
          | (.data [], s) => ((.err, client, s), [turn])
          | (.data bytes, s) =>
            let rest := fillLogged mem need fuel { client with readBuf := client.readBuf ++ bytes } s
            (rest.1, turn :: rest.2)
          | (.interrupted, s) =>
            let rest := fillLogged mem need fuel client s
            (rest.1, turn :: rest.2)
          | (.error, s) => ((.err, client, s), [turn])
    else ((.ok, start, s), [])

/-- The turns of one `recv_packet`: those for the header and, if it decodes, those for the whole
packet. -/
def recvTurns (mem : ClientMem) (client : Client) (s : Inbound UInt8) : List FillTurn :=
  let (result, turns) := fillLogged mem.grow headerSize (s.size + 1) client s
  turns ++ match result with
    | (.err, _, _) => []
    | (.ok, client, s) =>
      match headerDecode client.unread with
      | none => []
      | some header =>
        if header.size.toNat > maxPayloadSize then []
        else (fillLogged mem.grow (headerSize + header.size.toNat) (s.size + 1) client s).2

/-- `recv_packet`, with the turns that call `recv`. -/
def recvLogged (mem : ClientMem) (client : Client) (s : Inbound UInt8) :
    (Option (Header × List UInt8) × Client × Inbound UInt8) × List FillTurn :=
  match fillLogged mem.grow headerSize (s.size + 1) client s with
  | ((.err, client, s), turns) => ((none, setError client "read failed", s), turns)
  | ((.ok, client, s), turns) =>
    match headerDecode client.unread with
    | none => ((none, setError client "read failed", s), turns)
    | some header =>
      if header.size.toNat > maxPayloadSize then
        ((none, setError client "read failed", s), turns)
      else
        let packetSize := headerSize + header.size.toNat
        match fillLogged mem.grow packetSize (s.size + 1) client s with
        | ((.err, client, s), more) => ((none, setError client "read failed", s), turns ++ more)
        | ((.ok, client, s), more) =>
          let payload := (client.unread.drop headerSize).take header.size.toNat
          if packetVerifyEx client.integrity header payload = false then
            ((none, setError client "packet integrity failed", s), turns ++ more)
          else if mem.body = false then ((none, setError client "out of memory", s), turns ++ more)
          else ((some (header, payload), client.consume packetSize, s), turns ++ more)

/-- One call of `recv_packet`: what it returns, its turns, and the client after it. -/
structure RecvCall where
  result : Option (Header × List UInt8)
  turns : List FillTurn
  after : Client

/-- Any number of calls of `recv_packet`. -/
def recvCalls (mem : ℕ → ClientMem) : ℕ → Client → Inbound UInt8 → List RecvCall
  | 0, _, _ => []
  | n + 1, client, s =>
    let (result, client', s') := recvPacket (mem n) client s
    ⟨result, recvTurns (mem n) client s, client'⟩ :: recvCalls mem n client' s'

section Receiving

variable {mem : Mem} {client client' : Client} {need fuel : ℕ} {s s' : Inbound UInt8}

/-- **The record changes nothing.** -/
theorem fillLogged_fst (mem : Mem) (need fuel : ℕ) (client : Client) (s : Inbound UInt8) :
    (fillLogged mem need fuel client s).1 = clientReadFill mem need fuel client s := by
  induction fuel generalizing client s with
  | zero => rfl
  | succ fuel ih =>
    rw [fillLogged, clientReadFill]
    by_cases havail : client.available < need
    swap
    · rw [if_neg havail, if_neg havail]
    rw [if_pos havail, if_pos havail]
    rcases clientReadReserve mem client need with ⟨rc, client₁⟩
    cases rc with
    | err => rfl
    | ok =>
      simp only
      generalize (if client₁.readBuf.length = client₁.readCap then
        clientReadReserve mem client₁ (client₁.readCap + 1) else (.ok, client₁)) = second
      obtain ⟨rc, client₂⟩ := second
      cases rc with
      | err => rfl
      | ok =>
        simp only
        rcases s.recv (client₂.readCap - client₂.readBuf.length) with ⟨r, s₁⟩
        cases r with
        | data bytes =>
          cases bytes with
          | nil => rfl
          | cons b bytes => exact ih _ _
        | interrupted => exact ih _ _
        | error => rfl

/-- The record of a whole `recv_packet` changes nothing, and it is `recvTurns`. -/
theorem recvLogged_eq (mem : ClientMem) (client : Client) (s : Inbound UInt8) :
    recvLogged mem client s = (recvPacket mem client s, recvTurns mem client s) := by
  rw [recvLogged, recvPacket, recvTurns, ← fillLogged_fst]
  rcases fillLogged mem.grow headerSize (s.size + 1) client s with ⟨⟨rc, client₁, s₁⟩, turns⟩
  cases rc with
  | err => simp
  | ok =>
    cases hheader : headerDecode client₁.unread with
    | none => simp [hheader]
    | some header =>
      simp only [hheader]
      by_cases hsize : header.size.toNat > maxPayloadSize
      · simp [hsize]
      rw [if_neg hsize, if_neg hsize, if_neg hsize, ← fillLogged_fst]
      rcases fillLogged mem.grow (headerSize + header.size.toNat) (s₁.size + 1) client₁ s₁ with
        ⟨⟨rc, client₂, s₂⟩, more⟩
      cases rc with
      | err => rfl
      | ok =>
        simp only
        split_ifs <;> rfl

/-- A turn on a buffer that is in order. -/
theorem Carries.ordered {client₁ : Client} (hwf : client.WellFormed)
    (hcap : Doubled 21 client.readCap) (hneed : need ≤ 2 ^ 21)
    (hstep : Carries need client s client₁ s) (hroom : client₁.readBuf.length < client₁.readCap) :
    FillTurn.Ordered ⟨client, client₁, s⟩ := by
  have hpos : 0 < client₁.readCap - client₁.readBuf.length := by omega
  refine ⟨hwf.inOrder hcap, hstep.wellFormed.inOrder (hstep.capacity hneed hcap), hpos, ?_⟩
  intro s' hrecv
  obtain ⟨-, ⟨bytes, hbytes, -, -, hend⟩ | ⟨h | h, -⟩⟩ := Inbound.recv_outcome hpos hrecv
  · exact hend (by simpa using hbytes.symm)
  · cases h
  · cases h

/-- **In every turn the buffer is in order, and `recv` is given room.** -/
theorem fillLogged_ordered (hwf : client.WellFormed) (hcap : Doubled 21 client.readCap)
    (hneed : need ≤ 2 ^ 21) : ∀ t ∈ (fillLogged mem need fuel client s).2, t.Ordered := by
  induction fuel generalizing client s with
  | zero => exact List.forall_mem_nil _
  | succ fuel ih =>
    by_cases havail : client.available < need
    swap
    · rw [fillLogged, if_neg havail]
      exact List.forall_mem_nil _
    rw [fillLogged, if_pos havail]
    rcases hreserve : clientReadReserve mem client need with ⟨rc, client₁⟩
    cases rc with
    | err => exact List.forall_mem_nil _
    | ok =>
      -- after the first reservation there is room, so there is no second one
      have hroom := (clientReadReserve_outcome hwf hreserve).2.2.2.2.1 rfl havail
      have hstep : Carries need client s client₁ s := .reserve hwf hreserve
      have hcap₁ := hstep.capacity hneed hcap
      have hturn := hstep.ordered hwf hcap hneed hroom
      simp only
      rw [if_neg (by omega)]
      simp only
      rcases hrecv : s.recv (client₁.readCap - client₁.readBuf.length) with ⟨r, s₁⟩
      obtain ⟨hcuts, ⟨bytes, rfl, hbytes, hlen, -⟩ | ⟨rfl | rfl, hbytes⟩⟩ :=
        Inbound.recv_outcome (by omega) hrecv
      · have happend : Carries need client₁ s
            { client₁ with readBuf := client₁.readBuf ++ bytes } s₁ :=
          .append hstep.wellFormed hbytes hlen hcuts
        cases bytes with
        | nil => exact List.forall_mem_singleton.mpr hturn
        | cons b bytes =>
          exact List.forall_mem_cons.mpr ⟨hturn, ih happend.wellFormed (happend.capacity hneed hcap₁)⟩
      · exact List.forall_mem_cons.mpr ⟨hturn, ih hstep.wellFormed hcap₁⟩
      · exact List.forall_mem_singleton.mpr hturn

/-- The same for the turns of one `recv_packet`. -/
theorem recvTurns_ordered {mem : ClientMem} (hwf : client.WellFormed)
    (hcap : Doubled 21 client.readCap) : ∀ t ∈ recvTurns mem client s, t.Ordered := by
  have hmax : headerSize + maxPayloadSize ≤ 2 ^ 21 := by decide
  intro t ht
  unfold recvTurns at ht
  rcases hfill : fillLogged mem.grow headerSize (s.size + 1) client s with ⟨⟨rc, client₁, s₁⟩, turns⟩
  have hturns : ∀ t ∈ turns, t.Ordered := by
    have hordered : ∀ t ∈ (fillLogged mem.grow headerSize (s.size + 1) client s).2, t.Ordered :=
      fillLogged_ordered hwf hcap (by decide)
    rwa [hfill] at hordered
  have hresult := fillLogged_fst mem.grow headerSize (s.size + 1) client s
  rw [hfill] at ht hresult
  obtain ⟨hcarries, -⟩ := clientReadFill_outcome hwf hresult.symm
  rcases List.mem_append.mp ht with ht | ht
  · exact hturns t ht
  cases rc with
  | err => cases ht
  | ok =>
    simp only at ht
    cases hdecode : headerDecode client₁.unread with
    | none =>
      rw [hdecode] at ht
      cases ht
    | some header =>
      have hsize := size_le_of_headerDecode hdecode
      rw [hdecode] at ht
      simp only at ht
      rw [if_neg (not_lt.mpr hsize)] at ht
      exact fillLogged_ordered hcarries.wellFormed (hcarries.capacity (by decide) hcap)
        (by omega) t ht

/-- At the end of the stream there is no packet to receive. -/
theorem recvPacket_of_end (mem : ClientMem) (hwf : client.WellFormed)
    (hend : client.pending s = []) : (recvPacket mem client s).1 = none := by
  rcases hrecv : recvPacket mem client s with ⟨result, client', s'⟩
  obtain ⟨htakes, -⟩ := recvPacket_outcome hwf hrecv
  cases htakes with
  | nothing => rfl
  | packet hsame hpacket hpending =>
    have hlength := hpacket.length
    rw [hend] at hpending
    obtain ⟨rfl, -⟩ := List.append_eq_nil_iff.mp hpending.symm
    have hpos : 0 < headerSize := by decide
    rw [List.length_nil] at hlength
    omega

/-- **The results of any number of calls**: the packets of the stream in order, and then failures.
The buffer is in order throughout. -/
theorem recvCalls_spec {mem : ℕ → ClientMem} {packets : List (Header × List UInt8)}
    {i : Integrity} (hmem : ∀ n, (mem n).Grants) (n : ℕ) (hwf : client.WellFormed)
    (hcap : Doubled 21 client.readCap) (hclean : Clean s.cuts) (hi : client.integrity = i)
    (hseq : PacketSeq i (client.pending s) packets []) :
    (recvCalls mem n client s).map RecvCall.result =
        (packets.take n).map some ++ List.replicate (n - packets.length) none ∧
      ∀ call ∈ recvCalls mem n client s, call.after.InOrder ∧ ∀ t ∈ call.turns, t.Ordered := by
  induction n generalizing client s packets with
  | zero =>
    refine ⟨?_, List.forall_mem_nil _⟩
    simp [recvCalls]
  | succ n ih =>
    rcases hrecv : recvPacket (mem n) client s with ⟨result, client₁, s₁⟩
    obtain ⟨htakes, hwf₁, hcap₁, hcuts⟩ := recvPacket_outcome hwf hrecv
    have hclean₁ := hclean.suffix hcuts
    have hcap₁ := hcap₁ hcap
    have hcall : client₁.InOrder ∧ ∀ t ∈ recvTurns (mem n) client s, t.Ordered :=
      ⟨hwf₁.inOrder hcap₁, recvTurns_ordered hwf hcap⟩
    obtain ⟨pieces, hpieces, hpending⟩ := hseq
    simp only [recvCalls, hrecv]
    cases hpieces with
    | nil =>
      -- nothing is left of the stream, and nothing comes any more
      have hend : client.pending s = [] := by simpa using hpending
      have hnone := recvPacket_of_end (mem n) hwf hend
      rw [hrecv] at hnone
      subst hnone
      cases htakes with
      | nothing message hsame hpending₁ =>
        have hi₁ : client₁.integrity = i := by rw [hsame]; exact hi
        have hseq₁ : PacketSeq i (client₁.pending s₁) [] [] :=
          ⟨[], .nil, by rw [hpending₁, hend]; rfl⟩
        obtain ⟨hresults, hordered⟩ := ih hwf₁ hcap₁ hclean₁ hi₁ hseq₁
        refine ⟨?_, List.forall_mem_cons.mpr ⟨hcall, hordered⟩⟩
        rw [List.map_cons, hresults]
        simp [List.replicate_succ]
    | @cons bytes p pieces packets hpacket hpieces =>
      rw [List.flatten_cons, List.append_assoc] at hpending
      obtain ⟨client₂, s₂, hrecv₂, hsame, -, hpending₂, -⟩ :=
        recvPacket_spec ((hmem n).receives _ _) hwf hclean (hi ▸ hpacket) hpending
      rw [hrecv] at hrecv₂
      cases hrecv₂
      have hi₁ : client₁.integrity = i := by rw [hsame]; exact hi
      obtain ⟨hresults, hordered⟩ := ih hwf₁ hcap₁ hclean₁ hi₁ ⟨pieces, hpieces, hpending₂⟩
      refine ⟨?_, List.forall_mem_cons.mpr ⟨hcall, hordered⟩⟩
      rw [List.map_cons, hresults]
      simp

end Receiving

/-- **Client framing does not depend on segmentation**: on a stream of verified packets, however it
is cut and with interrupts in between, the `k`-th successful `recv_packet` returns the `k`-th packet;
throughout, the buffer is in order and has at most 2 MiB, and every `recv` is given room, so that a
result of `0` means the end of the stream. -/
theorem client_framing {mem : ℕ → ClientMem} {packets : List (Header × List UInt8)}
    {stream : Inbound UInt8} {fd : Int} {i : Integrity} (hkey : i.macKey.isSome)
    (hmem : ∀ n, (mem n).Grants) (hclean : Clean stream.cuts)
    (hseq : PacketSeq i stream.bytes packets []) (n : ℕ) :
    (recvCalls mem n (.connected fd i hkey) stream).filterMap RecvCall.result = packets.take n ∧
      ∀ call ∈ recvCalls mem n (.connected fd i hkey) stream,
        call.after.InOrder ∧ ∀ t ∈ call.turns, t.Ordered := by
  have hwf : (Client.connected fd i hkey).WellFormed := ⟨le_rfl, le_rfl⟩
  obtain ⟨hresults, hordered⟩ := recvCalls_spec (s := stream) hmem n hwf (.inl rfl) hclean rfl hseq
  refine ⟨?_, hordered⟩
  have hmap : (recvCalls mem n (.connected fd i hkey) stream).filterMap RecvCall.result =
      ((recvCalls mem n (.connected fd i hkey) stream).map RecvCall.result).filterMap id := by
    rw [List.filterMap_map]
    rfl
  rw [hmap, hresults, List.filterMap_append, List.filterMap_map]
  simp

/-- Neither a checksum nor a MAC is checked. -/
def unchecked : Integrity := ⟨.little, 0, some (List.replicate 16 0)⟩

/-- The header of a response with a null in it. -/
def nullReplyHeader (callId : UInt64) : Header := ⟨4, 0, 0, 1, callId, 0, 0⟩

/-- Its packet, for a small call id. -/
def nullReply (callId : UInt8) : List UInt8 :=
  [4, 0, 0, 0, 0, 0, 0, 0, 0, 0, 0, 0, 0, 1, 0, 0, 0, 0, 0, 0, 0, callId, 0, 0, 0, 0,
    0, 0, 0, 0, 0, 0, 0, 0, 0]

/-- Two packets in three pieces, with an interrupt in between, and a third call. -/
theorem client_framing_pieces :
    (recvCalls (fun _ => ⟨fun _ => true, true, .granting⟩) 3 (.connected 3 unchecked rfl)
        ⟨nullReply 7 ++ nullReply 8, [.part 20, .interrupted, .part 40]⟩).filterMap
          RecvCall.result = [(nullReplyHeader 7, [0]), (nullReplyHeader 8, [0])] ∧
      ∀ call ∈ recvCalls (fun _ => ⟨fun _ => true, true, .granting⟩) 3 (.connected 3 unchecked rfl)
        ⟨nullReply 7 ++ nullReply 8, [.part 20, .interrupted, .part 40]⟩,
        call.after.InOrder ∧ ∀ t ∈ call.turns, t.Ordered := by
  have hseven : IsPacket unchecked (nullReply 7) (nullReplyHeader 7) [0] :=
    ⟨(nullReply 7).take 34, by decide, by decide, by decide, by decide, by decide⟩
  have height : IsPacket unchecked (nullReply 8) (nullReplyHeader 8) [0] :=
    ⟨(nullReply 8).take 34, by decide, by decide, by decide, by decide, by decide⟩
  exact client_framing rfl
    (fun _ => ⟨fun _ => rfl, rfl, DecodeMem.granting_grants⟩) (by decide)
    ⟨_, .cons hseven (.cons height .nil), by simp⟩ 3

end Wirecall

import Wirecall.Protocol.Integrity
import Wirecall.Stream.Framing

/-!
# Packets in a stream

A packet is a header that decodes, the payload it announces, and an integrity check that passes.
This is the format both endpoints take packets from their read buffers with.

## Main definitions

* `packetHead`, `packetFormat i`: packets that pass the checks of `i`, as a stream format
* `IsPacket i bytes header payload`: the bytes of one packet
* `newHeader`, `signedHeader`: how both endpoints make a packet
* `PacketSeq`, `LongestPackets`: a stream that starts with the bytes of packets

## Main results

* `packetHead_eq_packet_iff`: a packet stands at the front exactly when its bytes do
* `packetHead_eq_bad_iff`: what no packet starts with
* `isPacket_of_signed`: a packet that was signed and encoded is found again
* `exists_signedHeader`: a packet of at most 1 MiB can always be made
* `parses_iff_packetSeq`: parsing a stream and cutting it into the bytes of packets are the same
-/

namespace Wirecall

open Framing

/-- The bytes of a packet: its header decodes, its payload has the announced size, and it passes
the integrity check. -/
def IsPacket (i : Integrity) (bytes : List UInt8) (header : Header) (payload : List UInt8) : Prop :=
  ∃ front, bytes = front ++ payload ∧ front.length = headerSize ∧
    headerDecode front = some header ∧ payload.length = header.size.toNat ∧
    packetVerifyEx i header payload = true

/-- What stands at the front of a buffer: the decisions of the receive loops. -/
def packetHead (i : Integrity) (buf : List UInt8) : Head (Header × List UInt8) :=
  if buf.length < headerSize then .more
  else match headerDecode buf with
    | none => .bad
    | some header =>
      if buf.length - headerSize < header.size.toNat then .more
      else
        let payload := (buf.drop headerSize).take header.size.toNat
        if packetVerifyEx i header payload then
          .packet (header, payload) (headerSize + header.size.toNat)
        else .bad

section Head

variable {i : Integrity} {buf rest payload : List UInt8} {header : Header} {n : ℕ}

/-- A buffer with a whole header starts with its first 34 bytes. -/
theorem headerDecode_take (h : headerSize ≤ buf.length) :
    headerDecode (buf.take headerSize) = headerDecode buf := by
  have hlen : headerSize ≤ (buf.take headerSize).length := by
    rw [List.length_take]
    omega
  rw [← headerDecode_append hlen (buf.drop headerSize), List.take_append_drop]

/-- A whole packet at the front of a buffer is accepted or refused by its integrity check. -/
theorem packetHead_of_complete {front : List UInt8} (hfront : front.length = headerSize)
    (hdecode : headerDecode front = some header) (hsize : payload.length = header.size.toNat) :
    packetHead i (front ++ payload ++ rest) =
      if packetVerifyEx i header payload then
        .packet (header, payload) (front ++ payload).length
      else .bad := by
  have hdec : headerDecode (front ++ payload ++ rest) = some header := by
    rw [List.append_assoc, headerDecode_append hfront.ge, hdecode]
  have hpay : ((front ++ payload ++ rest).drop headerSize).take header.size.toNat = payload := by
    rw [List.append_assoc, ← hfront, List.drop_left, ← hsize, List.take_left]
  unfold packetHead
  rw [if_neg (by simp only [List.length_append]; omega), hdec]
  simp only [hpay]
  rw [if_neg (by simp only [List.length_append]; omega), List.length_append, hfront, hsize]

/-- **A packet stands at the front exactly when its bytes do.** -/
theorem packetHead_eq_packet_iff : packetHead i buf = .packet (header, payload) n ↔
    ∃ bytes rest, buf = bytes ++ rest ∧ IsPacket i bytes header payload ∧ n = bytes.length := by
  refine ⟨?_, ?_⟩
  · intro h
    unfold packetHead at h
    split_ifs at h with hlen
    split at h
    · cases h
    rename_i header' hdec
    simp only at h
    split_ifs at h with hsize hverify
    cases h
    have hle := Nat.not_lt.mp hlen
    refine ⟨buf.take (headerSize + header.size.toNat), buf.drop (headerSize + header.size.toNat),
      (List.take_append_drop _ _).symm, ⟨buf.take headerSize, List.take_add, ?_, ?_, ?_, hverify⟩,
      ?_⟩
    · rw [List.length_take]
      omega
    · rw [headerDecode_take hle, hdec]
    · rw [List.length_take, List.length_drop]
      omega
    · rw [List.length_take]
      omega
  · rintro ⟨bytes, rest, rfl, ⟨front, rfl, hfront, hdecode, hsize, hverify⟩, rfl⟩
    rw [packetHead_of_complete hfront hdecode hsize, if_pos hverify]

/-- **No packet starts with** a whole header that does not decode, or with a whole packet that
fails its integrity check. -/
theorem packetHead_eq_bad_iff : packetHead i buf = .bad ↔
    (headerSize ≤ buf.length ∧ headerDecode (buf.take headerSize) = none) ∨
      ∃ front payload rest header, buf = front ++ payload ++ rest ∧ front.length = headerSize ∧
        headerDecode front = some header ∧ payload.length = header.size.toNat ∧
        packetVerifyEx i header payload = false := by
  refine ⟨?_, ?_⟩
  · intro h
    unfold packetHead at h
    split_ifs at h with hlen
    have hle := Nat.not_lt.mp hlen
    split at h
    · rename_i hdec
      exact .inl ⟨hle, by rw [headerDecode_take hle, hdec]⟩
    rename_i header' hdec
    simp only at h
    split_ifs at h with hsize hverify
    refine .inr ⟨buf.take headerSize, (buf.drop headerSize).take header'.size.toNat,
      (buf.drop headerSize).drop header'.size.toNat, header', ?_, ?_, ?_, ?_, ?_⟩
    · rw [List.append_assoc, List.take_append_drop, List.take_append_drop]
    · rw [List.length_take]
      omega
    · rw [headerDecode_take hle, hdec]
    · rw [List.length_take, List.length_drop]
      omega
    · simpa using hverify
  · rintro (⟨hle, hdec⟩ | ⟨front, payload, rest, header, rfl, hfront, hdecode, hsize, hverify⟩)
    · rw [headerDecode_take hle] at hdec
      unfold packetHead
      rw [if_neg (Nat.not_lt.mpr hle), hdec]
    · rw [packetHead_of_complete hfront hdecode hsize, if_neg (by simp [hverify])]

theorem IsPacket.length {bytes : List UInt8} (h : IsPacket i bytes header payload) :
    bytes.length = headerSize + header.size.toNat := by
  obtain ⟨front, rfl, hfront, -, hsize, -⟩ := h
  rw [List.length_append, hfront, hsize]

theorem IsPacket.payload_le {bytes : List UInt8} (h : IsPacket i bytes header payload) :
    payload.length ≤ maxPayloadSize := by
  obtain ⟨front, -, -, hdecode, hsize, -⟩ := h
  rw [hsize]
  exact size_le_of_headerDecode hdecode

theorem IsPacket.validOp {bytes : List UInt8} (h : IsPacket i bytes header payload) :
    validOp header.op = true := by
  obtain ⟨front, -, -, hdecode, -, -⟩ := h
  obtain ⟨⟨hvalid, -⟩, rfl⟩ := headerDecode_eq_some_iff.mp hdecode
  exact hvalid

/-- The packet at the front of a stream is found by its first bytes. -/
theorem IsPacket.front {bytes : List UInt8} (h : IsPacket i bytes header payload)
    (rest : List UInt8) :
    headerDecode (bytes ++ rest) = some header ∧
      ((bytes ++ rest).drop headerSize).take header.size.toNat = payload := by
  obtain ⟨front, rfl, hfront, hdecode, hsize, -⟩ := h
  constructor
  · rw [List.append_assoc, headerDecode_append hfront.ge, hdecode]
  · rw [List.append_assoc, ← hfront, List.drop_left, ← hsize, List.take_left]

theorem packetHead_size_pos {buf : List UInt8} {p : Header × List UInt8} {n : ℕ}
    (h : packetHead i buf = .packet p n) : 0 < n := by
  obtain ⟨header, payload⟩ := p
  obtain ⟨bytes, rest, rfl, hpacket, rfl⟩ := packetHead_eq_packet_iff.mp h
  rw [hpacket.length, headerSize]
  omega

theorem packetHead_size_le {buf : List UInt8} {p : Header × List UInt8} {n : ℕ}
    (h : packetHead i buf = .packet p n) : n ≤ buf.length := by
  obtain ⟨header, payload⟩ := p
  obtain ⟨bytes, rest, rfl, -, rfl⟩ := packetHead_eq_packet_iff.mp h
  simp

theorem packetHead_packet_append {buf : List UInt8} {p : Header × List UInt8} {n : ℕ}
    (more : List UInt8) (h : packetHead i buf = .packet p n) :
    packetHead i (buf ++ more) = .packet p n := by
  obtain ⟨header, payload⟩ := p
  obtain ⟨bytes, rest, rfl, hpacket, rfl⟩ := packetHead_eq_packet_iff.mp h
  exact packetHead_eq_packet_iff.mpr ⟨bytes, rest ++ more, by simp, hpacket, rfl⟩

theorem packetHead_bad_append {buf : List UInt8} (more : List UInt8)
    (h : packetHead i buf = .bad) : packetHead i (buf ++ more) = .bad := by
  rcases packetHead_eq_bad_iff.mp h with ⟨hle, hdec⟩ |
    ⟨front, payload, rest, header, rfl, hfront, hdecode, hsize, hverify⟩
  · refine packetHead_eq_bad_iff.mpr (.inl ⟨?_, ?_⟩)
    · rw [List.length_append]
      omega
    · rwa [List.take_append_of_le_length hle]
  · exact packetHead_eq_bad_iff.mpr
      (.inr ⟨front, payload, rest ++ more, header, by simp, hfront, hdecode, hsize, hverify⟩)

end Head

/-- Packets that pass the checks of `i`, as a stream format. -/
def packetFormat (i : Integrity) : Format UInt8 (Header × List UInt8) where
  head := packetHead i
  size_pos := packetHead_size_pos
  size_le := packetHead_size_le
  packet_append := packetHead_packet_append
  bad_append := packetHead_bad_append

/-- A packet that was signed and encoded is a packet of the format. -/
theorem isPacket_of_signed {i : Integrity} {h h' : Header} {front payload : List UInt8}
    (hsign : packetSignEx i h payload = some h') (hencode : headerEncode h' = some front) :
    IsPacket i (front ++ payload) h' payload := by
  obtain ⟨hrefused, c, m, rfl⟩ := packetSignEx_eq_some hsign
  refine ⟨front, rfl, length_of_headerEncode hencode, ?_, ?_, packetVerifyEx_packetSignEx hsign⟩
  · simpa using headerDecode_headerEncode hencode []
  · simp only [integrityRefused, Bool.or_eq_false_iff, decide_eq_false_iff_not, not_not] at hrefused
    exact hrefused.1.2.symm

/-! ## Making a packet -/

/-- The header of a packet before it is signed, as `queue_packet` and `send_packet` fill it in. -/
def newHeader (op : Op) (procId callId : UInt64) (payload : List UInt8) : Header where
  op := op.code
  flags := flagNone
  procId := procId
  size := UInt32.ofNat payload.length
  callId := callId
  checksum := 0
  mac := 0

/-- The 34 bytes that go before a payload, if signing and encoding succeed. -/
def signedHeader (i : Integrity) (op : Op) (procId callId : UInt64) (payload : List UInt8) :
    Option (List UInt8) :=
  (packetSignEx i (newHeader op procId callId payload) payload).bind headerEncode

theorem length_signedHeader {i : Integrity} {op : Op} {procId callId : UInt64}
    {payload front : List UInt8} (h : signedHeader i op procId callId payload = some front) :
    front.length = headerSize := by
  obtain ⟨header, -, hencode⟩ := Option.bind_eq_some_iff.mp h
  exact length_of_headerEncode hencode

theorem size_newHeader (op : Op) (procId callId : UInt64) {payload : List UInt8}
    (hlen : payload.length ≤ maxPayloadSize) :
    (newHeader op procId callId payload).size.toNat = payload.length := by
  have hmax : maxPayloadSize = 1048576 := rfl
  simp only [newHeader, UInt32.toNat_ofNat']
  exact Nat.mod_eq_of_lt (by omega)

/-- The settings have the key their mode asks for. -/
def Integrity.HasKey (i : Integrity) : Prop := i.mode &&& integrityMac = 0 ∨ i.macKey.isSome = true

/-- A payload of at most 1 MiB is signed and encoded exactly if there is the key for it. -/
theorem isSome_signedHeader {i : Integrity} {op : Op} {procId callId : UInt64}
    {payload : List UInt8} (hlen : payload.length ≤ maxPayloadSize) :
    (signedHeader i op procId callId payload).isSome = true ↔ i.HasKey := by
  have hsize := size_newHeader op procId callId hlen
  have hrefused : integrityRefused i (newHeader op procId callId payload) payload = true ↔
      ¬ i.HasKey := by
    simp [integrityRefused, Integrity.HasKey, hsize, Nat.not_lt.mpr hlen]
  by_cases hkey : i.HasKey
  · refine iff_of_true ?_ hkey
    rw [signedHeader, packetSignEx, if_neg (fun h => hrefused.mp h hkey), Option.bind_some,
      headerEncode, if_neg]
    · rfl
    · rw [Bool.or_eq_true, not_or]
      refine ⟨?_, by simpa [hsize] using hlen⟩
      rw [Bool.not_eq_true, Bool.not_eq_false']
      exact validOp_code op
  · refine iff_of_false ?_ hkey
    rw [signedHeader, packetSignEx, if_pos (hrefused.mpr hkey)]
    exact Bool.false_ne_true

/-- **A payload of at most 1 MiB is always signed and encoded**, and the result is a packet. -/
theorem exists_signedHeader {i : Integrity} (hkey : i.macKey.isSome) (op : Op)
    (procId callId : UInt64) {payload : List UInt8} (hlen : payload.length ≤ maxPayloadSize) :
    ∃ front checksum mac, signedHeader i op procId callId payload = some front ∧
      IsPacket i (front ++ payload)
        { newHeader op procId callId payload with checksum := checksum, mac := mac } payload := by
  have hsize := size_newHeader op procId callId hlen
  obtain ⟨h', hsign⟩ := exists_packetSignEx hlen hsize hkey
  obtain ⟨-, checksum, mac, rfl⟩ := packetSignEx_eq_some hsign
  obtain ⟨front, hencode⟩ : ∃ front, headerEncode
      { newHeader op procId callId payload with checksum := checksum, mac := mac } =
        some front :=
    ⟨_, headerEncode_eq_some_iff.mpr ⟨⟨validOp_code op, by rw [hsize]; exact hlen⟩, rfl⟩⟩
  refine ⟨front, checksum, mac, ?_, isPacket_of_signed hsign hencode⟩
  rw [signedHeader, hsign]
  exact hencode

/-! ## Streams of packets -/

/-- The stream is the bytes of the packets, one after the other, and then `rest`. -/
def PacketSeq (i : Integrity) (stream : List UInt8) (packets : List (Header × List UInt8))
    (rest : List UInt8) : Prop :=
  ∃ pieces, List.Forall₂ (fun bytes p => IsPacket i bytes p.1 p.2) pieces packets ∧
    stream = pieces.flatten ++ rest

/-- The longest front of the stream that is made of packets: any other is an initial part. -/
structure LongestPackets (i : Integrity) (stream : List UInt8)
    (packets : List (Header × List UInt8)) (rest : List UInt8) : Prop where
  seq : PacketSeq i stream packets rest
  longest : ∀ packets' rest', PacketSeq i stream packets' rest' → packets' <+: packets

section Seq

variable {i : Integrity} {stream rest : List UInt8} {packets : List (Header × List UInt8)}

/-- **Parsing a stream** and cutting it into the bytes of packets are the same. -/
theorem parses_iff_packetSeq :
    Parses (packetFormat i) stream packets rest ↔ PacketSeq i stream packets rest := by
  constructor
  · intro h
    induction h with
    | nil buf => exact ⟨[], .nil, rfl⟩
    | @cons buf p n ps rest hhead htail ih =>
      obtain ⟨bytes, rest', rfl, hpacket, rfl⟩ := packetHead_eq_packet_iff.mp hhead
      obtain ⟨pieces, hpieces, htail⟩ := ih
      rw [List.drop_left] at htail
      exact ⟨bytes :: pieces, .cons hpacket hpieces, by simp [htail]⟩
  · rintro ⟨pieces, hpieces, rfl⟩
    induction hpieces with
    | nil => exact .nil _
    | @cons bytes p pieces ps hpacket hpieces ih =>
      rw [List.flatten_cons, List.append_assoc]
      refine .cons (packetHead_eq_packet_iff.mpr ⟨bytes, _, rfl, hpacket, rfl⟩) ?_
      rwa [List.drop_left]

theorem longestPackets_of_maximal (h : Maximal (packetFormat i) stream packets rest) :
    LongestPackets i stream packets rest := by
  refine ⟨parses_iff_packetSeq.mp h.1, ?_⟩
  intro packets' rest' h'
  obtain ⟨more, rfl, -⟩ := (parses_iff_packetSeq.mpr h').split h
  exact List.prefix_append _ _

end Seq

end Wirecall

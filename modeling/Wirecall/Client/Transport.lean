import Wirecall.Payload.Decode
import Wirecall.Protocol.Packet
import Wirecall.Stream.Socket

/-!
# The client and its socket

The packet layer of `client.c`: packets are sent with a gathered write that is repeated until
everything is accepted, and received into a buffer that is compacted and grown as needed. The
socket is a blocking one that may cut both directions anywhere.

## Main definitions

* `Client`: `wirecall_client`
* `sendIovFull`, `sendPacket`: sending
* `clientReadReserve`, `clientReadFill`, `recvPacket`: receiving
* `Client.pending`: the bytes of the stream that no packet was taken from yet

## Main results

* `sendPacket_spec`: the bytes of the packet are accepted, whatever the cuts
* `recvPacket_spec`: the packet at the front of the stream is taken from it, whatever the cuts
-/

namespace Wirecall

open Socket

/-- `wirecall_client`. The read buffer is its bytes below the length field, and the key is an array
of the client, so there always is one. -/
structure Client where
  fd : Int
  nextCallId : UInt64
  readBuf : List UInt8
  readOff : ℕ
  readCap : ℕ
  integrity : Integrity
  key_isSome : integrity.macKey.isSome
  /-- The text in the error buffer. -/
  error : List UInt8

/-- `set_error`. -/
def setError (client : Client) (message : String) : Client :=
  { client with error := errorText (text message) }

/-! ## Sending -/

/-- The buffers that are left of a gathered write after `sent` bytes were accepted. -/
def advance : ℕ → List (List UInt8) → List (List UInt8)
  | _, [] => []
  | sent, buf :: bufs =>
    if sent ≥ buf.length then advance (sent - buf.length) bufs else buf.drop sent :: bufs

/-- `send_iov_full`, with at most `fuel` calls of `sendmsg`. -/
def sendIovFull : ℕ → List (List UInt8) → Outbound UInt8 → Rc × Outbound UInt8
  | 0, bufs, s => (if bufs = [] then .ok else .err, s)
  | fuel + 1, bufs, s =>
    if bufs = [] then (.ok, s)
    else match s.send bufs.flatten with
      | (.sent 0, s) => (.err, s)
      | (.sent n, s) => sendIovFull fuel (advance n bufs) s
      | (.interrupted, s) => sendIovFull fuel bufs s
      | (.error, s) => (.err, s)

/-- `send_packet`; `payload` is the content of the writer, empty if there is none. -/
def sendPacket (client : Client) (op : Op) (procId callId : UInt64) (payload : List UInt8)
    (s : Outbound UInt8) : Rc × Client × Outbound UInt8 :=
  match signedHeader client.integrity op procId callId payload with
  | none => (.err, setError client "send failed", s)
  | some header =>
    let bufs := if payload.length > 0 then [header, payload] else [header]
    match sendIovFull (bufs.flatten.length + s.cuts.length + 1) bufs s with
    | (.ok, s) => (.ok, client, s)
    | (.err, s) => (.err, setError client "send failed", s)

/-- What is left after a partial write is what was not accepted. -/
theorem flatten_advance (n : ℕ) (bufs : List (List UInt8)) :
    (advance n bufs).flatten = bufs.flatten.drop n := by
  induction bufs generalizing n with
  | nil => simp [advance]
  | cons buf bufs ih =>
    rw [advance]
    split
    · rename_i hge
      rw [ih, List.flatten_cons, List.drop_append, List.drop_eq_nil_of_le hge, List.nil_append]
    · rename_i hlt
      rw [List.flatten_cons, List.flatten_cons, List.drop_append_of_le_length (by omega)]

/-- The first buffer that is left is not empty, so that there is something to offer. -/
def FrontFull (bufs : List (List UInt8)) : Prop := ∀ buf ∈ bufs.head?, buf ≠ []

theorem frontFull_cons {buf : List UInt8} (h : buf ≠ []) (bufs : List (List UInt8)) :
    FrontFull (buf :: bufs) := by
  rintro b hb
  cases hb
  exact h

theorem FrontFull.flatten_ne_nil {bufs : List (List UInt8)} (h : FrontFull bufs) (hne : bufs ≠ []) :
    bufs.flatten ≠ [] := by
  obtain ⟨buf, bufs, rfl⟩ := List.exists_cons_of_ne_nil hne
  rw [List.flatten_cons]
  exact List.append_ne_nil_of_left_ne_nil (h buf rfl) _

/-- Buffers that are used up are skipped, empty ones as well. -/
theorem frontFull_advance (n : ℕ) (bufs : List (List UInt8)) : FrontFull (advance n bufs) := by
  induction bufs generalizing n with
  | nil => exact fun _ h => by cases h
  | cons buf bufs ih =>
    rw [advance]
    split
    · exact ih _
    · rename_i hlt
      intro b hb
      cases hb
      rw [Ne, List.drop_eq_nil_iff]
      omega

/-- **A gathered write is exact**: whatever the cuts, all its bytes are accepted in order. -/
theorem sendIovFull_spec {fuel : ℕ} {bufs : List (List UInt8)} {s : Outbound UInt8}
    (hclean : Clean s.cuts) (hbufs : FrontFull bufs)
    (hfuel : bufs.flatten.length + s.cuts.length < fuel) :
    ∃ s', sendIovFull fuel bufs s = (.ok, s') ∧ s'.accepted = s.accepted ++ bufs.flatten ∧
      Clean s'.cuts := by
  induction fuel generalizing bufs s with
  | zero => omega
  | succ fuel ih =>
    rw [sendIovFull]
    split_ifs with hnil
    · subst hnil
      exact ⟨s, rfl, (List.append_nil _).symm, hclean⟩
    · have hne := hbufs.flatten_ne_nil hnil
      cases hsend : s.send bufs.flatten with
      | mk r s₁ =>
        obtain ⟨hclean₁, ⟨n, rfl, hpos, hle, haccepted, hcuts⟩ | ⟨rfl, haccepted, hcuts⟩⟩ :=
          Outbound.send_cases hclean hne hsend
        · obtain ⟨n, rfl⟩ := Nat.exists_eq_add_one.mpr hpos
          simp only
          obtain ⟨s', hs', hall, hclean'⟩ := ih hclean₁ (frontFull_advance (n + 1) bufs) (by
            rw [flatten_advance, List.length_drop]
            omega)
          refine ⟨s', hs', ?_, hclean'⟩
          rw [hall, haccepted, flatten_advance, List.append_assoc, List.take_append_drop]
        · simp only
          obtain ⟨s', hs', hall, hclean'⟩ := ih hclean₁ hbufs (by omega)
          exact ⟨s', hs', hall.trans (by rw [haccepted]), hclean'⟩

/-- **A packet is sent whole**, whatever the cuts. -/
theorem sendPacket_spec (client : Client) (op : Op) (procId callId : UInt64)
    {payload : List UInt8} (hlen : payload.length ≤ maxPayloadSize) {s : Outbound UInt8}
    (hclean : Clean s.cuts) :
    ∃ front checksum mac s',
      IsPacket client.integrity (front ++ payload)
        { newHeader op procId callId payload with checksum := checksum, mac := mac } payload ∧
      sendPacket client op procId callId payload s = (.ok, client, s') ∧
      s'.accepted = s.accepted ++ (front ++ payload) ∧ Clean s'.cuts := by
  obtain ⟨front, checksum, mac, hfront, hpacket⟩ :=
    exists_signedHeader client.key_isSome op procId callId hlen
  have hlength : front.length = headerSize := by
    obtain ⟨front', happend, hfront', -⟩ := hpacket
    rw [List.append_cancel_right happend, hfront']
  have hne : front ≠ [] := by
    rintro rfl
    cases hlength
  obtain ⟨bufs, hbufs, hflatten, hdef⟩ : ∃ bufs : List (List UInt8), FrontFull bufs ∧
      bufs.flatten = front ++ payload ∧
      bufs = if payload.length > 0 then [front, payload] else [front] := by
    split_ifs with hpos
    · exact ⟨_, frontFull_cons hne _, by simp, rfl⟩
    · refine ⟨_, frontFull_cons hne _, ?_, rfl⟩
      rw [List.length_eq_zero_iff.mp (by omega : payload.length = 0)]
      simp
  obtain ⟨s', hs', haccepted, hclean'⟩ := sendIovFull_spec hclean hbufs (Nat.lt_succ_self _)
  refine ⟨front, checksum, mac, s', hpacket, ?_, hflatten ▸ haccepted, hclean'⟩
  rw [sendPacket, hfront]
  simp only [← hdef]
  rw [hs']

/-! ## Receiving -/

/-- `client_read_available`. -/
def Client.available (client : Client) : ℕ := client.readBuf.length - client.readOff

/-- The bytes in the read buffer that no packet was taken from yet. -/
def Client.unread (client : Client) : List UInt8 := client.readBuf.drop client.readOff

/-- `client_read_reserve`. -/
def clientReadReserve (mem : Mem) (client : Client) (need : ℕ) : Rc × Client :=
  if client.available ≥ need then (.ok, client)
  else
    let client :=
      if client.readOff > 0 then { client with readBuf := client.unread, readOff := 0 }
      else client
    if client.readCap ≥ need then (.ok, client)
    else
      let cap := growFrom 65536 client.readCap need
      if mem cap then (.ok, { client with readCap := cap }) else (.err, client)

/-- `client_read_fill`, with at most `fuel` turns. -/
def clientReadFill (mem : Mem) (need : ℕ) :
    ℕ → Client → Inbound UInt8 → Rc × Client × Inbound UInt8
  | 0, client, s => (if client.available < need then .err else .ok, client, s)
  | fuel + 1, client, s =>
    if client.available < need then
      match clientReadReserve mem client need with
      | (.err, client) => (.err, client, s)
      | (.ok, client) =>
        match if client.readBuf.length = client.readCap then
            clientReadReserve mem client (client.readCap + 1) else (.ok, client) with
        | (.err, client) => (.err, client, s)
        | (.ok, client) =>
          match s.recv (client.readCap - client.readBuf.length) with
          | (.data [], s) => (.err, client, s)
          | (.data bytes, s) =>
            clientReadFill mem need fuel { client with readBuf := client.readBuf ++ bytes } s
          | (.interrupted, s) => clientReadFill mem need fuel client s
          | (.error, s) => (.err, client, s)
    else (.ok, client, s)

/-- The allocator while a packet is received and decoded: for the read buffer, for the copy of the
payload and for the values. -/
structure ClientMem where
  grow : Mem
  body : Bool
  decode : DecodeMem

/-- An allocator that grants every request. -/
def ClientMem.granting : ClientMem := ⟨fun _ => true, true, .granting⟩

/-- Every request is granted. -/
def ClientMem.Grants (mem : ClientMem) : Prop :=
  (∀ n, mem.grow n = true) ∧ mem.body = true ∧ mem.decode.Grants

/-- A read buffer of capacity `cap` has room for `need` bytes, or the growth that is asked for is
granted. -/
def ReadFits (mem : Mem) (cap need : ℕ) : Prop :=
  need ≤ cap ∨ mem (growFrom 65536 cap need) = true

instance (mem : Mem) (cap need : ℕ) : Decidable (ReadFits mem cap need) :=
  inferInstanceAs (Decidable (_ ∨ _))

/-- The capacity of the read buffer when it has room for `need` bytes. -/
def readCapFor (cap need : ℕ) : ℕ := if need ≤ cap then cap else growFrom 65536 cap need

/-- The requests of `recv_packet` for a packet of `n` bytes are granted: for its header and for the
whole of it in a read buffer of capacity `cap`, and for the copy of its payload. -/
structure ClientMem.Receives (mem : ClientMem) (cap n : ℕ) : Prop where
  front : ReadFits mem.grow cap headerSize
  whole : ReadFits mem.grow (readCapFor cap headerSize) n
  body : mem.body = true

theorem ClientMem.Grants.receives {mem : ClientMem} (h : mem.Grants) (cap n : ℕ) :
    mem.Receives cap n := ⟨.inr (h.1 _), .inr (h.1 _), h.2.1⟩

/-- The end of `recv_packet`: a packet of `n` bytes is taken from the buffer. -/
def Client.consume (client : Client) (n : ℕ) : Client :=
  if client.readOff + n = client.readBuf.length then { client with readBuf := [], readOff := 0 }
  else { client with readOff := client.readOff + n }

/-- `recv_packet`: the header and the payload of a packet. -/
def recvPacket (mem : ClientMem) (client : Client) (s : Inbound UInt8) :
    Option (Header × List UInt8) × Client × Inbound UInt8 :=
  match clientReadFill mem.grow headerSize (s.size + 1) client s with
  | (.err, client, s) => (none, setError client "read failed", s)
  | (.ok, client, s) =>
    match headerDecode client.unread with
    | none => (none, setError client "read failed", s)
    | some header =>
      if header.size.toNat > maxPayloadSize then (none, setError client "read failed", s)
      else
        let packetSize := headerSize + header.size.toNat
        match clientReadFill mem.grow packetSize (s.size + 1) client s with
        | (.err, client, s) => (none, setError client "read failed", s)
        | (.ok, client, s) =>
          let payload := (client.unread.drop headerSize).take header.size.toNat
          if packetVerifyEx client.integrity header payload = false then
            (none, setError client "packet integrity failed", s)
          else if mem.body = false then (none, setError client "out of memory", s)
          else (some (header, payload), client.consume packetSize, s)

/-- The bytes of the stream that no packet was taken from yet. -/
def Client.pending (client : Client) (s : Inbound UInt8) : List UInt8 := client.unread ++ s.bytes

/-- The fields of the read buffer are ordered. -/
structure Client.WellFormed (client : Client) : Prop where
  off_le : client.readOff ≤ client.readBuf.length
  len_le : client.readBuf.length ≤ client.readCap

/-- A client with the read buffer of another. -/
def Client.withBufferOf (client other : Client) : Client :=
  { client with readBuf := other.readBuf, readOff := other.readOff, readCap := other.readCap }

/-- **What receiving leaves alone**: everything but the read buffer, and the stream as a whole. -/
structure Receives (client : Client) (s : Inbound UInt8) (client' : Client) (s' : Inbound UInt8) :
    Prop where
  same : client' = client.withBufferOf client'
  wellFormed : client'.WellFormed
  pending : client'.pending s' = client.pending s
  clean : Clean s'.cuts

section Receiving

variable {mem : Mem} {client client' : Client} {need : ℕ} {s s' : Inbound UInt8}

theorem Receives.refl (hwf : client.WellFormed) (hclean : Clean s.cuts) :
    Receives client s client s := ⟨rfl, hwf, rfl, hclean⟩

theorem Receives.trans {client'' : Client} {s'' : Inbound UInt8}
    (h : Receives client s client' s') (h' : Receives client' s' client'' s'') :
    Receives client s client'' s'' := by
  refine ⟨?_, h'.wellFormed, h'.pending.trans h.pending, h'.clean⟩
  rw [h'.same, h.same]
  rfl

theorem Client.length_unread (client : Client) : client.unread.length = client.available :=
  List.length_drop

/-- **What reserving does**: the unread bytes are kept, there is room when more bytes are needed, and
the capacity stays a power of two below any that is large enough. -/
theorem clientReadReserve_outcome {rc : Rc} (hwf : client.WellFormed)
    (h : clientReadReserve mem client need = (rc, client')) :
    client' = client.withBufferOf client' ∧ client'.WellFormed ∧ client'.unread = client.unread ∧
      (need ≤ 2 ^ 21 → Doubled 21 client.readCap → Doubled 21 client'.readCap) ∧
      (rc = .ok → client.available < need → client'.readBuf.length < client'.readCap) ∧
      (rc = .err → ¬ ReadFits mem client.readCap need) := by
  obtain ⟨hoff, hlen⟩ := hwf
  unfold clientReadReserve at h
  by_cases hneed : client.available ≥ need
  · rw [if_pos hneed] at h
    cases h
    exact ⟨rfl, ⟨hoff, hlen⟩, rfl, fun _ => id, fun _ hlt => by omega, (fun herr => by cases herr)⟩
  rw [if_neg hneed] at h
  -- the buffer after the unread bytes were moved to its start
  obtain ⟨moved, hmoved, hsame, hbuf, hzero, hcap⟩ : ∃ moved : Client,
      (if client.readOff > 0 then { client with readBuf := client.unread, readOff := 0 }
        else client) = moved ∧ moved = client.withBufferOf moved ∧
      moved.readBuf = client.unread ∧ moved.readOff = 0 ∧ moved.readCap = client.readCap := by
    refine ⟨_, rfl, ?_⟩
    split_ifs with h
    · exact ⟨rfl, rfl, rfl, rfl⟩
    · have hzero : client.readOff = 0 := by omega
      exact ⟨rfl, by rw [Client.unread, hzero, List.drop_zero], hzero, rfl⟩
  have hroom : moved.readBuf.length < need := by
    rw [hbuf, Client.length_unread]
    omega
  have hfits : moved.readBuf.length ≤ moved.readCap := by
    rw [hbuf, Client.length_unread, hcap, Client.available]
    omega
  have hunread : moved.unread = client.unread := by
    rw [Client.unread, hzero, List.drop_zero, hbuf]
  rw [hmoved] at h
  simp only at h
  split_ifs at h with hcap' hgrant
  · cases h
    exact ⟨hsame, ⟨by omega, hfits⟩, hunread, fun _ hd => hcap ▸ hd, fun _ _ => by omega,
      (fun herr => by cases herr)⟩
  · -- the buffer grows
    cases h
    have hle : need ≤ growFrom 65536 moved.readCap need := le_growFrom (by decide) _ _
    refine ⟨?_, ⟨?_, ?_⟩, hunread, ?_, fun _ _ => hroom.trans_le hle, (fun herr => by cases herr)⟩
    · rw [hsame]
      rfl
    · exact hzero.le.trans (Nat.zero_le _)
    · exact hroom.le.trans hle
    · intro hbound hdoubled
      exact Doubled.growFrom (j := 16) (by decide) hbound (hcap ▸ hdoubled)
  · cases h
    rw [hcap] at hcap' hgrant
    exact ⟨hsame, ⟨by omega, hfits⟩, hunread, fun _ hd => hcap ▸ hd, (fun hok => by cases hok),
      fun _ hfits => hfits.elim (fun hle => hcap' hle) hgrant⟩

theorem le_readCapFor (cap need : ℕ) : need ≤ readCapFor cap need := by
  unfold readCapFor
  split_ifs with hle
  · exact hle
  · exact le_growFrom (by decide) cap need

theorem readCapFor_of_le {cap : ℕ} (h : need ≤ cap) : readCapFor cap need = cap := if_pos h

/-- The capacity after a reservation. -/
theorem clientReadReserve_cap (hneed : client.available < need)
    (h : clientReadReserve mem client need = (.ok, client')) :
    client'.readCap = readCapFor client.readCap need := by
  unfold clientReadReserve at h
  rw [if_neg (not_le.mpr hneed)] at h
  -- moving the unread bytes to the start keeps the capacity
  obtain ⟨moved, hmoved, hcap⟩ : ∃ moved : Client,
      (if client.readOff > 0 then { client with readBuf := client.unread, readOff := 0 }
        else client) = moved ∧ moved.readCap = client.readCap := by
    refine ⟨_, rfl, ?_⟩
    split_ifs <;> rfl
  rw [hmoved] at h
  dsimp only at h
  rw [hcap] at h
  unfold readCapFor
  split_ifs at h ⊢
  · cases h
    exact hcap
  · cases h
    rfl
  · cases h

/-- A turn of `client_read_fill` that needs more bytes: there is room after the first reservation,
so the guard of the second one never holds. -/
theorem clientReadFill_succ {fuel : ℕ} (hwf : client.WellFormed) (hneed : client.available < need) :
    clientReadFill mem need (fuel + 1) client s =
      match clientReadReserve mem client need with
      | (.err, client) => (.err, client, s)
      | (.ok, client) =>
        match s.recv (client.readCap - client.readBuf.length) with
        | (.data [], s) => (.err, client, s)
        | (.data bytes, s) =>
          clientReadFill mem need fuel { client with readBuf := client.readBuf ++ bytes } s
        | (.interrupted, s) => clientReadFill mem need fuel client s
        | (.error, s) => (.err, client, s) := by
  rw [clientReadFill, if_pos hneed]
  rcases hreserve : clientReadReserve mem client need with ⟨rc, client₁⟩
  cases rc with
  | err => rfl
  | ok =>
    have hroom := (clientReadReserve_outcome hwf hreserve).2.2.2.2.1 rfl hneed
    simp only
    rw [if_neg (by omega)]

/-- **What receiving up to `need` bytes can change**, whether it succeeds or not: the read buffer,
which stays in order, and how much of the stream is in it. -/
structure Carries (need : ℕ) (client : Client) (s : Inbound UInt8) (client' : Client)
    (s' : Inbound UInt8) : Prop where
  same : client' = client.withBufferOf client'
  wellFormed : client'.WellFormed
  pending : client'.pending s' = client.pending s
  capacity : need ≤ 2 ^ 21 → Doubled 21 client.readCap → Doubled 21 client'.readCap
  cuts : s'.cuts <:+ s.cuts

theorem Carries.refl (hwf : client.WellFormed) : Carries need client s client s :=
  ⟨rfl, hwf, rfl, fun _ => id, List.suffix_rfl⟩

theorem Carries.trans {client'' : Client} {s'' : Inbound UInt8}
    (h : Carries need client s client' s') (h' : Carries need client' s' client'' s'') :
    Carries need client s client'' s'' := by
  refine ⟨?_, h'.wellFormed, h'.pending.trans h.pending,
    fun hneed => h'.capacity hneed ∘ h.capacity hneed, h'.cuts.trans h.cuts⟩
  rw [h'.same, h.same]
  rfl

theorem Carries.mono {need' : ℕ} (h : Carries need client s client' s') (hle : need ≤ need') :
    Carries need' client s client' s' :=
  ⟨h.same, h.wellFormed, h.pending, fun hneed => h.capacity (hle.trans hneed), h.cuts⟩

theorem Carries.receives (h : Carries need client s client' s') (hclean : Clean s.cuts) :
    Receives client s client' s' :=
  ⟨h.same, h.wellFormed, h.pending, hclean.suffix h.cuts⟩

theorem Carries.reserve {rc : Rc} (hwf : client.WellFormed)
    (h : clientReadReserve mem client need = (rc, client')) : Carries need client s client' s := by
  obtain ⟨hsame, hwf', hunread, hcap, -⟩ := clientReadReserve_outcome hwf h
  exact ⟨hsame, hwf', by rw [Client.pending, hunread, Client.pending], hcap, List.suffix_rfl⟩

/-- Bytes that arrive move from the stream to the buffer. -/
theorem Carries.append {bytes : List UInt8} (hwf : client.WellFormed)
    (hbytes : s.bytes = bytes ++ s'.bytes)
    (hroom : bytes.length ≤ client.readCap - client.readBuf.length) (hcuts : s'.cuts <:+ s.cuts) :
    Carries need client s { client with readBuf := client.readBuf ++ bytes } s' := by
  obtain ⟨hoff, hlen⟩ := hwf
  refine ⟨rfl, ⟨?_, ?_⟩, ?_, fun _ => id, hcuts⟩
  · simp only [List.length_append]
    omega
  · simp only [List.length_append]
    omega
  · simp only [Client.pending, Client.unread]
    rw [List.drop_append_of_le_length hoff, List.append_assoc, hbytes]

/-- **What filling does**, whatever the socket and the allocator do. -/
theorem clientReadFill_outcome {fuel : ℕ} {rc : Rc} (hwf : client.WellFormed)
    (h : clientReadFill mem need fuel client s = (rc, client', s')) :
    Carries need client s client' s' ∧ (rc = .ok → need ≤ client'.available) := by
  induction fuel generalizing client s with
  | zero =>
    rw [clientReadFill] at h
    obtain ⟨rfl, hrest⟩ := Prod.mk.inj h
    obtain ⟨rfl, rfl⟩ := Prod.mk.inj hrest
    refine ⟨.refl hwf, fun hok => ?_⟩
    split_ifs at hok with havail
    exact not_lt.mp havail
  | succ fuel ih =>
    by_cases havail : client.available < need
    swap
    · rw [clientReadFill, if_neg havail] at h
      cases h
      exact ⟨.refl hwf, fun _ => not_lt.mp havail⟩
    rw [clientReadFill_succ hwf havail] at h
    rcases hreserve : clientReadReserve mem client need with ⟨rc₁, client₁⟩
    rw [hreserve] at h
    have hstep : Carries need client s client₁ s := .reserve hwf hreserve
    cases rc₁ with
    | err =>
      cases h
      exact ⟨hstep, (fun hok => by cases hok)⟩
    | ok =>
      have hroom := (clientReadReserve_outcome hwf hreserve).2.2.2.2.1 rfl havail
      simp only at h
      rcases hrecv : s.recv (client₁.readCap - client₁.readBuf.length) with ⟨r, s₁⟩
      rw [hrecv] at h
      obtain ⟨hcuts, ⟨bytes, rfl, hbytes, hlen, -⟩ | ⟨hr, hbytes⟩⟩ :=
        Inbound.recv_outcome (by omega) hrecv
      · have happend := hstep.trans (.append hstep.wellFormed hbytes hlen hcuts)
        cases bytes with
        | nil =>
          cases h
          rw [List.append_nil] at happend
          exact ⟨happend, (fun hok => by cases hok)⟩
        | cons b bytes =>
          obtain ⟨hcarries, hok⟩ := ih happend.wellFormed h
          exact ⟨happend.trans hcarries, hok⟩
      · have hstep' : Carries need client s client₁ s₁ :=
          ⟨hstep.same, hstep.wellFormed, by
            rw [← hstep.pending, Client.pending, hbytes, Client.pending], hstep.capacity, hcuts⟩
        rcases hr with rfl | rfl
        · obtain ⟨hcarries, hok⟩ := ih hstep.wellFormed h
          exact ⟨hstep'.trans hcarries, hok⟩
        · cases h
          exact ⟨hstep', (fun hok => by cases hok)⟩

/-- The capacity after filling. -/
theorem clientReadFill_cap {fuel : ℕ} (hwf : client.WellFormed)
    (h : clientReadFill mem need fuel client s = (.ok, client', s')) :
    client'.readCap = readCapFor client.readCap need := by
  -- what is available is in the buffer, so there is room for it
  have hroom {client : Client} (hwf : client.WellFormed) (havail : ¬ client.available < need) :
      readCapFor client.readCap need = client.readCap := by
    obtain ⟨hoff, hlen⟩ := hwf
    rw [Client.available] at havail
    exact readCapFor_of_le (by omega)
  induction fuel generalizing client s with
  | zero =>
    rw [clientReadFill] at h
    split_ifs at h with havail
    · cases h
    · cases h
      exact (hroom hwf havail).symm
  | succ fuel ih =>
    by_cases havail : client.available < need
    swap
    · rw [clientReadFill, if_neg havail] at h
      cases h
      exact (hroom hwf havail).symm
    rw [clientReadFill_succ hwf havail] at h
    rcases hreserve : clientReadReserve mem client need with ⟨rc₁, client₁⟩
    rw [hreserve] at h
    cases rc₁ with
    | err => cases h
    | ok =>
      have hcap := clientReadReserve_cap havail hreserve
      have hstep : Carries need client s client₁ s := .reserve hwf hreserve
      have hspace := (clientReadReserve_outcome hwf hreserve).2.2.2.2.1 rfl havail
      have hkept : readCapFor client₁.readCap need = client₁.readCap :=
        readCapFor_of_le (hcap ▸ le_readCapFor _ _)
      simp only at h
      rcases hrecv : s.recv (client₁.readCap - client₁.readBuf.length) with ⟨r, s₁⟩
      rw [hrecv] at h
      obtain ⟨hcuts, ⟨bytes, rfl, hbytes, hlen, -⟩ | ⟨hr, -⟩⟩ :=
        Inbound.recv_outcome (by omega) hrecv
      · have happend : Carries need client₁ s _ s₁ := .append hstep.wellFormed hbytes hlen hcuts
        cases bytes with
        | nil => cases h
        | cons b bytes => exact (ih happend.wellFormed h).trans (hkept.trans hcap)
      · rcases hr with rfl | rfl
        · exact (ih hstep.wellFormed h).trans (hkept.trans hcap)
        · cases h

/-- With its memory granted and a stream that has the bytes, filling does not fail. -/
theorem clientReadFill_fst {fuel : ℕ} (hmem : ReadFits mem client.readCap need)
    (hwf : client.WellFormed) (hclean : Clean s.cuts) (hpending : need ≤ (client.pending s).length)
    (hfuel : s.size < fuel) : (clientReadFill mem need fuel client s).1 = .ok := by
  induction fuel generalizing client s with
  | zero => omega
  | succ fuel ih =>
    by_cases havail : client.available < need
    swap
    · rw [clientReadFill, if_neg havail]
    rw [clientReadFill_succ hwf havail]
    rcases hreserve : clientReadReserve mem client need with ⟨rc₁, client₁⟩
    obtain ⟨-, hwf₁, hunread, -, hroom, herr⟩ := clientReadReserve_outcome hwf hreserve
    cases rc₁ with
    | err => exact absurd hmem (herr rfl)
    | ok =>
      have hroom := hroom rfl havail
      have hmem₁ : ReadFits mem client₁.readCap need :=
        .inl (clientReadReserve_cap havail hreserve ▸ le_readCapFor _ _)
      have hpending₁ : need ≤ (client₁.pending s).length := by
        rwa [Client.pending, hunread, ← Client.pending]
      simp only
      rcases hrecv : s.recv (client₁.readCap - client₁.readBuf.length) with ⟨r, s₁⟩
      obtain ⟨hclean₁, ⟨bytes, rfl, hbytes, hlen, hend, hless⟩ | ⟨rfl, hbytes, hless⟩⟩ :=
        Inbound.recv_cases hclean (by omega) hrecv
      · cases bytes with
        | nil =>
          -- the stream cannot end here: the bytes that are needed are still to come
          rw [Client.pending, hend rfl, List.append_nil, Client.length_unread] at hpending
          omega
        | cons b bytes =>
          have happend : Carries need client₁ s
              { client₁ with readBuf := client₁.readBuf ++ (b :: bytes) } s₁ :=
            .append hwf₁ hbytes hlen (Inbound.recv_outcome (by omega) hrecv).1
          exact ih hmem₁ happend.wellFormed hclean₁ (by rwa [happend.pending])
            (by have := hless (by simp); omega)
      · refine ih hmem₁ hwf₁ hclean₁ ?_ (by omega)
        rwa [Client.pending, hbytes, ← Client.pending]

variable (need) in
/-- **Filling succeeds** when the stream has the bytes that are needed, whatever the cuts. -/
theorem clientReadFill_spec {fuel : ℕ} (hmem : ReadFits mem client.readCap need)
    (hwf : client.WellFormed) (hclean : Clean s.cuts) (hpending : need ≤ (client.pending s).length)
    (hfuel : s.size < fuel) :
    ∃ client' s', clientReadFill mem need fuel client s = (.ok, client', s') ∧
      Receives client s client' s' ∧ need ≤ client'.available ∧
      client'.readCap = readCapFor client.readCap need := by
  have hok := clientReadFill_fst hmem hwf hclean hpending hfuel
  rcases hfill : clientReadFill mem need fuel client s with ⟨rc, client', s'⟩
  rw [hfill] at hok
  cases hok
  obtain ⟨hcarries, havail⟩ := clientReadFill_outcome hwf hfill
  exact ⟨client', s', rfl, hcarries.receives hclean, havail rfl, clientReadFill_cap hwf hfill⟩

/-- Taking a packet from the buffer drops its bytes from the unread ones. -/
theorem Client.consume_spec {n : ℕ} (hwf : client.WellFormed) (hn : n ≤ client.available) :
    client.consume n = client.withBufferOf (client.consume n) ∧ (client.consume n).WellFormed ∧
      (client.consume n).unread = client.unread.drop n := by
  obtain ⟨hoff, hlen⟩ := hwf
  rw [Client.available] at hn
  unfold Client.consume
  split_ifs with hall
  · refine ⟨rfl, ⟨le_rfl, Nat.zero_le _⟩, ?_⟩
    rw [Client.unread, Client.unread, List.drop_drop, hall, List.drop_length]
    rfl
  · refine ⟨rfl, ⟨?_, hlen⟩, ?_⟩
    · simp only
      omega
    · rw [Client.unread, Client.unread, List.drop_drop]

/-- **What receiving a packet comes to**: a packet is taken from the front of the stream, or the
stream is as it was and there is an error text. -/
inductive Takes (client : Client) (s : Inbound UInt8) :
    Option (Header × List UInt8) → Client → Inbound UInt8 → Prop
  | packet {bytes payload : List UInt8} {header : Header} {client' : Client} {s' : Inbound UInt8}
      (hsame : client' = client.withBufferOf client')
      (hpacket : IsPacket client.integrity bytes header payload)
      (hpending : client.pending s = bytes ++ client'.pending s') :
      Takes client s (some (header, payload)) client' s'
  | nothing {client' : Client} {s' : Inbound UInt8} (message : List UInt8)
      (hsame : client' = { client.withBufferOf client' with error := message })
      (hpending : client'.pending s' = client.pending s) : Takes client s none client' s'

theorem Carries.nothing (h : Carries need client s client' s') (message : String) :
    Takes client s none (setError client' message) s' := by
  refine .nothing (errorText (text message)) ?_ h.pending
  rw [h.same]
  rfl

/-- The bytes a verified packet was read from. -/
theorem isPacket_of_unread {unread : List UInt8} {header : Header} {i : Integrity}
    (hdecode : headerDecode unread = some header)
    (hlen : headerSize + header.size.toNat ≤ unread.length)
    (hverify : packetVerifyEx i header ((unread.drop headerSize).take header.size.toNat) = true) :
    IsPacket i (unread.take (headerSize + header.size.toNat)) header
      ((unread.drop headerSize).take header.size.toNat) := by
  refine ⟨unread.take headerSize, List.take_add, ?_, ?_, ?_, hverify⟩
  · rw [List.length_take]
    omega
  · rw [← hdecode]
    conv_rhs => rw [← List.take_append_drop headerSize unread]
    exact (headerDecode_append (by rw [List.length_take]; omega) _).symm
  · rw [List.length_take, List.length_drop]
    omega

/-- **What `recvPacket` does**, whatever the socket and the allocator do. -/
theorem recvPacket_outcome {mem : ClientMem} {result : Option (Header × List UInt8)}
    (hwf : client.WellFormed) (h : recvPacket mem client s = (result, client', s')) :
    Takes client s result client' s' ∧ client'.WellFormed ∧
      (Doubled 21 client.readCap → Doubled 21 client'.readCap) ∧ s'.cuts <:+ s.cuts := by
  have hmax : headerSize + maxPayloadSize ≤ 2 ^ 21 := by decide
  -- without a packet only the error text differs from what filling leaves
  have hnothing {client₁ : Client} {s₁ : Inbound UInt8} (message : String)
      (hcarries : Carries (headerSize + maxPayloadSize) client s client₁ s₁)
      (heq : (none, setError client₁ message, s₁) = (result, client', s')) :
      Takes client s result client' s' ∧ client'.WellFormed ∧
        (Doubled 21 client.readCap → Doubled 21 client'.readCap) ∧ s'.cuts <:+ s.cuts := by
    cases heq
    exact ⟨hcarries.nothing message, ⟨hcarries.wellFormed.off_le, hcarries.wellFormed.len_le⟩,
      hcarries.capacity hmax, hcarries.cuts⟩
  unfold recvPacket at h
  rcases hfill₁ : clientReadFill mem.grow headerSize (s.size + 1) client s with ⟨rc₁, client₁, s₁⟩
  obtain ⟨hcarries₁, havail₁⟩ := clientReadFill_outcome hwf hfill₁
  have hcarries₁' := hcarries₁.mono (Nat.le_add_right headerSize maxPayloadSize)
  rw [hfill₁] at h
  cases rc₁ with
  | err => exact hnothing _ hcarries₁' h
  | ok =>
    simp only at h
    cases hdecode : headerDecode client₁.unread with
    | none =>
      rw [hdecode] at h
      exact hnothing _ hcarries₁' h
    | some header =>
      have hsize := size_le_of_headerDecode hdecode
      rw [hdecode] at h
      simp only at h
      rw [if_neg (not_lt.mpr hsize)] at h
      rcases hfill₂ : clientReadFill mem.grow (headerSize + header.size.toNat) (s₁.size + 1) client₁
        s₁ with ⟨rc₂, client₂, s₂⟩
      obtain ⟨hcarries₂, havail₂⟩ := clientReadFill_outcome hcarries₁.wellFormed hfill₂
      have hcarries := hcarries₁'.trans (hcarries₂.mono (Nat.add_le_add_left hsize headerSize))
      rw [hfill₂] at h
      cases rc₂ with
      | err => exact hnothing _ hcarries h
      | ok =>
        simp only at h
        have havail₁ := havail₁ rfl
        have havail₂ := havail₂ rfl
        cases hverify : packetVerifyEx client₂.integrity header
          ((client₂.unread.drop headerSize).take header.size.toNat) with
        | false =>
          rw [if_pos hverify] at h
          exact hnothing _ hcarries h
        | true =>
          rw [if_neg (by simp [hverify])] at h
          split_ifs at h with hbody
          · exact hnothing _ hcarries h
          · cases h
            -- the header is the same after more bytes have come
            have hdecode₂ : headerDecode client₂.unread = some header := by
              rw [← headerDecode_append (by rw [Client.length_unread]; omega) s'.bytes,
                ← Client.pending, hcarries₂.pending, Client.pending,
                headerDecode_append (by rwa [Client.length_unread]), hdecode]
            obtain ⟨hsame', hwf', hunread'⟩ := Client.consume_spec hcarries.wellFormed havail₂
            have hi : client₂.integrity = client.integrity := by rw [hcarries.same]; rfl
            refine ⟨.packet ?_ (isPacket_of_unread hdecode₂ (by rwa [Client.length_unread])
              (hi ▸ hverify)) ?_, hwf', ?_, hcarries.cuts⟩
            · rw [hsame', hcarries.same]
              rfl
            · rw [← hcarries.pending, Client.pending, Client.pending, hunread', ← List.append_assoc,
                List.take_append_drop]
            · intro hcap
              have hkept : (client₂.consume (headerSize + header.size.toNat)).readCap =
                  client₂.readCap := by
                unfold Client.consume
                split_ifs <;> rfl
              rw [hkept]
              exact hcarries.capacity hmax hcap

/-- **The packet at the front of the stream is received**, whatever the cuts. -/
theorem recvPacket_spec {mem : ClientMem} {bytes payload rest : List UInt8} {header : Header}
    (hmem : mem.Receives client.readCap bytes.length) (hwf : client.WellFormed)
    (hclean : Clean s.cuts) (hpacket : IsPacket client.integrity bytes header payload)
    (hpending : client.pending s = bytes ++ rest) :
    ∃ client' s', recvPacket mem client s = (some (header, payload), client', s') ∧
      client' = client.withBufferOf client' ∧ client'.WellFormed ∧
      client'.pending s' = rest ∧ Clean s'.cuts := by
  have hlength := hpacket.length
  obtain ⟨front, rfl, hfront, hdecode, hsize, hverify⟩ := hpacket
  -- the header
  obtain ⟨client₁, s₁, hfill₁, hreceives₁, havail₁, hcap₁⟩ := clientReadFill_spec headerSize
    hmem.front hwf hclean (by rw [hpending, List.length_append]; omega) (Nat.lt_succ_self s.size)
  have hpending₁ := hreceives₁.pending.trans hpending
  have hdecode₁ : headerDecode client₁.unread = some header := by
    rw [← headerDecode_append (by rwa [Client.length_unread]) s₁.bytes, ← Client.pending, hpending₁,
      List.append_assoc, headerDecode_append hfront.ge, hdecode]
  -- the whole packet
  have hwhole : ReadFits mem.grow client₁.readCap (headerSize + header.size.toNat) := by
    rw [hcap₁, ← hlength]
    exact hmem.whole
  obtain ⟨client₂, s₂, hfill₂, hreceives₂, havail₂, -⟩ := clientReadFill_spec
    (headerSize + header.size.toNat) hwhole hreceives₁.wellFormed hreceives₁.clean
    (by rw [hpending₁, List.length_append]; omega) (Nat.lt_succ_self s₁.size)
  have hpending₂ := hreceives₂.pending.trans hpending₁
  obtain ⟨more, hmore⟩ : front ++ payload <+: client₂.unread := by
    have hstream : front ++ payload <+: client₂.pending s₂ :=
      hpending₂ ▸ List.prefix_append _ _
    refine List.prefix_of_prefix_length_le hstream (List.prefix_append _ _) ?_
    rw [hlength, Client.length_unread]
    exact havail₂
  have hpayload : (client₂.unread.drop headerSize).take header.size.toNat = payload := by
    rw [← hmore, List.append_assoc, ← hfront, List.drop_left, ← hsize, List.take_left]
  have hsame := (hreceives₁.trans hreceives₂).same
  obtain ⟨hsame', hwf', hunread'⟩ := Client.consume_spec hreceives₂.wellFormed havail₂
  refine ⟨_, s₂, ?_, ?_, hwf', ?_, hreceives₂.clean⟩
  · rw [recvPacket, hfill₁]
    simp only
    rw [hdecode₁]
    simp only
    rw [if_neg (Nat.not_lt.mpr (size_le_of_headerDecode hdecode)), hfill₂]
    simp only [hpayload]
    rw [if_neg (by rw [hsame]; simpa [Client.withBufferOf] using hverify),
      if_neg (by simp [hmem.body])]
  · rw [hsame', hsame]
    rfl
  · rw [Client.pending, hunread', ← hlength]
    rw [Client.pending, ← hmore, List.append_assoc] at hpending₂
    rw [← hmore, List.drop_left]
    exact List.append_cancel_left hpending₂

end Receiving

end Wirecall

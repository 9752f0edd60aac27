import Wirecall.Server.Dispatch

/-!
# Reading and writing a connection

`connection_read` with `parse_available`, and `connection_write`. A socket is the list of results
its calls give: whatever the list, when it ends the socket would block.

## Main definitions

* `RecvResult`, `SendResult`: what a socket call returns
* `parseLoop`, `parseAvailable`: packets are taken from the front of the read buffer
* `readReserve`, `connectionRead`: the read loop
* `sendLoop`, `connectionWrite`: the write loop

## Main results

* `parseLoop_rule`: what handling a packet preserves holds where the parser stops, and it stops
  where no packet follows
* `connectionRead_rule`: the same for the read loop
-/

namespace Wirecall

/-- What `wirecall_socket_recv` returns: bytes (none of them is the end of the stream), or an
error that would block, is an interruption, or is neither. -/
inductive RecvResult where
  | data (bytes : List UInt8)
  | wouldBlock
  | interrupted
  | error
  deriving DecidableEq, Repr

/-- What `wirecall_socket_send` returns: how many bytes were accepted, or an error. -/
inductive SendResult where
  | sent (n : ℕ)
  | wouldBlock
  | interrupted
  | error
  deriving DecidableEq, Repr

/-! ## Parsing -/

/-- What `parse_available` finds: how far it came, and whether it sets `closing`. -/
structure Parsed (σ : Type) where
  off : ℕ
  closing : Bool
  state : σ

/-- The loop of `parse_available` over the bytes of the read buffer, with at most `fuel` turns.
`handle` is `handle_packet`. -/
def parseLoop {σ : Type} (integrity : Integrity)
    (handle : σ → Header → List UInt8 → Rc × σ) (buf : List UInt8) : ℕ → ℕ → σ → Parsed σ
  | 0, off, s => ⟨off, false, s⟩
  | fuel + 1, off, s =>
    if buf.length - off ≥ headerSize then
      match headerDecode (buf.drop off) with
      | none => ⟨off, true, s⟩
      | some header =>
        if buf.length - off - headerSize < header.size.toNat then ⟨off, false, s⟩
        else
          let payload := (buf.drop (off + headerSize)).take header.size.toNat
          if packetVerifyEx integrity header payload = false then ⟨off, true, s⟩
          else match handle s header payload with
            | (.err, s) => ⟨off, true, s⟩
            | (.ok, s) =>
              parseLoop integrity handle buf fuel (off + headerSize + header.size.toNat) s
    else ⟨off, false, s⟩

/-- The `memmove` at the end of `parse_available`. -/
def compact (w : Worker) (c off : ℕ) : Worker :=
  if off > 0 then w.setConn c { w.conns c with readBuf := (w.conns c).readBuf.drop off } else w

/-- `parse_available`. Handling a packet leaves the read buffer alone, so the loop runs over the
bytes it starts with. -/
def parseAvailable (cfg : ServerConfig) (env : ℕ → Env) (w : Worker) (c : ℕ) : Worker :=
  let buf := (w.conns c).readBuf
  let parsed :=
    parseLoop cfg.integrity (fun w header payload => handlePacket cfg env w c header payload)
      buf buf.length 0 w
  compact (if parsed.closing then parsed.state.setClosing c else parsed.state) c parsed.off

/-! ## Reading -/

/-- `WIRECALL_READ_CHUNK`. -/
def readChunk : ℕ := 4096

/-- The head of the read loop: at least 4096 bytes are free afterwards. -/
def readReserve (env : ℕ → Env) (w : Worker) (c : ℕ) : Rc × Worker :=
  let conn := w.conns c
  if conn.readCap - conn.readBuf.length < readChunk then
    match reserveBytes (env w.tick).mem conn.readCap (conn.readBuf.length + readChunk) with
    | none => (.err, { w with tick := w.tick + 1, readFailed := true })
    | some cap => (.ok, { w.setConn c { conn with readCap := cap } with tick := w.tick + 1 })
  else (.ok, w)

/-- Bytes arrive: no more than there is room for. -/
def receive (w : Worker) (c : ℕ) (bytes : List UInt8) : Worker :=
  let conn := w.conns c
  let bytes := bytes.take (conn.readCap - conn.readBuf.length)
  w.setConn c { conn with readBuf := conn.readBuf ++ bytes, received := conn.received ++ bytes }

/-- `connection_read`. -/
def connectionRead (cfg : ServerConfig) (env : ℕ → Env) (c : ℕ) :
    List RecvResult → Worker → Worker
  | [], w =>
    match readReserve env w c with
    | (.err, w) => w.setClosing c
    | (.ok, w) => w
  | result :: rest, w =>
    match readReserve env w c with
    | (.err, w) => w.setClosing c
    | (.ok, w) =>
      match result with
      | .wouldBlock => w
      | .interrupted => connectionRead cfg env c rest w
      | .error => w.setClosing c
      | .data [] => w.setClosing c
      | .data bytes =>
        let w := parseAvailable cfg env (receive w c bytes) c
        if (w.conns c).closing then w else connectionRead cfg env c rest w

/-! ## Rules for the two loops -/

section ParseLoop

variable {σ : Type} {integrity : Integrity} {handle : σ → Header → List UInt8 → Rc × σ}
  {buf : List UInt8} {fuel off : ℕ} {s : σ}

/-- One turn of the parser goes by what stands at the front of the bytes that are left. -/
theorem parseLoop_succ :
    parseLoop integrity handle buf (fuel + 1) off s =
      match packetHead integrity (buf.drop off) with
      | .more => ⟨off, false, s⟩
      | .bad => ⟨off, true, s⟩
      | .packet (header, payload) n =>
        match handle s header payload with
        | (.err, s) => ⟨off, true, s⟩
        | (.ok, s) => parseLoop integrity handle buf fuel (off + n) s := by
  rw [parseLoop, packetHead, List.length_drop]
  by_cases hlen : buf.length - off ≥ headerSize
  · rw [if_pos hlen, if_neg (by omega)]
    cases headerDecode (buf.drop off) with
    | none => rfl
    | some header =>
      simp only [List.drop_drop]
      by_cases hsize : buf.length - off - headerSize < header.size.toNat
      · rw [if_pos hsize, if_pos hsize]
      · rw [if_neg hsize, if_neg hsize]
        cases packetVerifyEx integrity header
            ((buf.drop (off + headerSize)).take header.size.toNat) with
        | false => rfl
        | true => simp only [Bool.true_eq_false, if_false, if_true, Nat.add_assoc]
  · rw [if_neg hlen, if_pos (by omega)]

/-- **Rule for the parser**: what handling a packet preserves holds where the parser stops. There
no packet follows, or handling the one that does failed. -/
theorem parseLoop_rule {P : ℕ → σ → Prop} (hoff : off ≤ buf.length)
    (hfuel : buf.length ≤ off + fuel) (hP : P off s)
    (hok : ∀ off s header payload n s', P off s →
      packetHead integrity (buf.drop off) = .packet (header, payload) n →
      handle s header payload = (.ok, s') → P (off + n) s') :
    ∀ parsed, parseLoop integrity handle buf fuel off s = parsed →
      (P parsed.off parsed.state ∧
        ((packetHead integrity (buf.drop parsed.off) = .more ∧ parsed.closing = false) ∨
          (packetHead integrity (buf.drop parsed.off) = .bad ∧ parsed.closing = true))) ∨
      ∃ s' header payload n, P parsed.off s' ∧
        packetHead integrity (buf.drop parsed.off) = .packet (header, payload) n ∧
        handle s' header payload = (.err, parsed.state) ∧ parsed.closing = true := by
  intro parsed hparsed
  induction fuel generalizing off s with
  | zero =>
    -- without fuel nothing is left of the buffer
    have hnil : buf.drop off = [] := List.drop_eq_nil_iff.mpr (by omega)
    obtain rfl : parsed = ⟨off, false, s⟩ := by rw [← hparsed, parseLoop]
    exact .inl ⟨hP, .inl ⟨by rw [hnil]; rfl, rfl⟩⟩
  | succ fuel ih =>
    rw [parseLoop_succ] at hparsed
    cases hhead : packetHead integrity (buf.drop off) with
    | more =>
      rw [hhead] at hparsed
      subst hparsed
      exact .inl ⟨hP, .inl ⟨hhead, rfl⟩⟩
    | bad =>
      rw [hhead] at hparsed
      subst hparsed
      exact .inl ⟨hP, .inr ⟨hhead, rfl⟩⟩
    | packet packet n =>
      obtain ⟨header, payload⟩ := packet
      have hpos := (packetFormat integrity).size_pos hhead
      have hle := (packetFormat integrity).size_le hhead
      rw [List.length_drop] at hle
      rw [hhead] at hparsed
      simp only at hparsed
      cases hhandle : handle s header payload with
      | mk rc s' =>
        rw [hhandle] at hparsed
        cases rc with
        | err =>
          subst hparsed
          exact .inr ⟨s, header, payload, n, hP, hhead, hhandle, rfl⟩
        | ok =>
          exact ih (by omega) (by omega) (hok off s header payload n s' hP hhead hhandle) hparsed

end ParseLoop

/-- **Rule for the read loop**: `P` holds at its head, `Q` when it returns. -/
theorem connectionRead_rule {cfg : ServerConfig} {env : ℕ → Env} {c : ℕ} {P Q : Worker → Prop}
    (hreserve : ∀ w w', P w → readReserve env w c = (.ok, w') → P w')
    (hfull : ∀ w w', P w → readReserve env w c = (.err, w') → Q (w'.setClosing c))
    (hidle : ∀ w, P w → Q w) {script : List RecvResult}
    (hend : (∃ r ∈ script, r = .error ∨ r = .data []) → ∀ w, P w → Q (w.setClosing c))
    (hparse : ∀ w w' bytes, readReserve env w c = (.ok, w') → P w' → bytes ≠ [] →
      Q (parseAvailable cfg env (receive w' c bytes) c) ∧
        (((parseAvailable cfg env (receive w' c bytes) c).conns c).closing = false →
          P (parseAvailable cfg env (receive w' c bytes) c)))
    {w : Worker} (hP : P w) : Q (connectionRead cfg env c script w) := by
  induction script generalizing w with
  | nil =>
    rw [connectionRead]
    cases hres : readReserve env w c with
    | mk rc w' =>
      cases rc with
      | err => exact hfull w w' hP hres
      | ok => exact hidle w' (hreserve w w' hP hres)
  | cons result rest ih =>
    have ih' (w : Worker) (hP : P w) : Q (connectionRead cfg env c rest w) :=
      ih (fun ⟨r, hr, h⟩ => hend ⟨r, List.mem_cons_of_mem _ hr, h⟩) hP
    rw [connectionRead]
    cases hres : readReserve env w c with
    | mk rc w' =>
      cases rc with
      | err => exact hfull w w' hP hres
      | ok =>
        have hP' := hreserve w w' hP hres
        match result with
        | .wouldBlock => exact hidle w' hP'
        | .interrupted => exact ih' w' hP'
        | .error => exact hend ⟨.error, by simp, .inl rfl⟩ w' hP'
        | .data [] => exact hend ⟨.data [], by simp, .inr rfl⟩ w' hP'
        | .data (b :: bytes) =>
          obtain ⟨hQ, hnext⟩ := hparse w w' (b :: bytes) hres hP' (by simp)
          simp only
          split
          · exact hQ
          · rename_i hclosing
            exact ih' _ (hnext (by simpa using hclosing))

/-- What reading changes beside handling packets: the input of the connection, the mark for
closing, and the note that memory was short. -/
def Worker.touchRead (w : Worker) (c : ℕ) (readBuf : List UInt8) (readCap : ℕ)
    (received : List UInt8) (closing : Bool) (ticks : ℕ) (failed : Bool) : Worker :=
  { w.setConn c
      { w.conns c with
        readBuf := readBuf
        readCap := readCap
        received := received
        closing := (w.conns c).closing || closing } with
    tick := w.tick + ticks
    readFailed := w.readFailed || failed }

section Touch

variable {cfg : ServerConfig} {env : ℕ → Env} {c : ℕ} {P : Worker → Prop}

theorem compact_eq (w : Worker) (c off : ℕ) :
    compact w c off = w.setConn c { w.conns c with readBuf := (w.conns c).readBuf.drop off } := by
  unfold compact
  split_ifs with hoff
  · rfl
  · obtain rfl : off = 0 := by omega
    rw [List.drop_zero, Worker.setConn_self]

/-- The mark for closing is only ever set. -/
theorem ite_setClosing (b : Bool) (w : Worker) (c : ℕ) :
    (if b then w.setClosing c else w) =
      w.setConn c { w.conns c with closing := (w.conns c).closing || b } := by
  cases b with
  | false =>
    rw [Bool.or_false]
    exact (Worker.setConn_self w c).symm
  | true =>
    rw [Bool.or_true]
    rfl

/-- The connection when the parser has stopped: the packets it handled leave their mark, and the
buffer is moved up. -/
theorem parseAvailable_eq {w : Worker} (parsed : Parsed Worker)
    (hparsed : parseLoop cfg.integrity
      (fun w header payload => handlePacket cfg env w c header payload)
      (w.conns c).readBuf (w.conns c).readBuf.length 0 w = parsed) :
    parseAvailable cfg env w c = parsed.state.setConn c
      { parsed.state.conns c with
        closing := (parsed.state.conns c).closing || parsed.closing
        readBuf := (parsed.state.conns c).readBuf.drop parsed.off } := by
  rw [parseAvailable]
  simp only [hparsed]
  rw [compact_eq, ite_setClosing, Worker.setConn_setConn, Worker.conns_setConn_self]

theorem Worker.touchRead_input (w : Worker) (c : ℕ) (readBuf : List UInt8) (readCap : ℕ)
    (received : List UInt8) (closing : Bool) :
    w.touchRead c readBuf readCap received closing 0 false = w.setConn c
      { w.conns c with
        readBuf := readBuf
        readCap := readCap
        received := received
        closing := (w.conns c).closing || closing } := by
  rw [Worker.touchRead, Bool.or_false]
  rfl

theorem readReserve_eq_touchRead (env : ℕ → Env) (w : Worker) (c : ℕ) :
    ∃ cap ticks failed, (readReserve env w c).2 =
      w.touchRead c (w.conns c).readBuf cap (w.conns c).received false ticks failed := by
  have hconn : w.setConn c { w.conns c with closing := (w.conns c).closing || false } = w := by
    rw [Bool.or_false]
    exact Worker.setConn_self w c
  unfold readReserve
  simp only
  split_ifs with hroom
  · split
    · refine ⟨(w.conns c).readCap, 1, true, ?_⟩
      simp only [Worker.touchRead, hconn, Bool.or_true]
    · rename_i cap hcap
      refine ⟨cap, 1, false, ?_⟩
      simp only [Worker.touchRead, Bool.or_false]
      rfl
  · refine ⟨(w.conns c).readCap, 0, false, ?_⟩
    simp only [Worker.touchRead, hconn]
    rw [Bool.or_false]
    rfl

/-- **Invariant rule for a read**: what survives changes of the input, and the handling of a
packet, survives a read. -/
theorem connectionRead_invariant
    (htouch : ∀ w readBuf readCap received closing ticks failed, P w →
      P (w.touchRead c readBuf readCap received closing ticks failed))
    (hhandle : ∀ w header payload, P w → validOp header.op = true →
      P (handlePacket cfg env w c header payload).2)
    {w : Worker} (hP : P w) (script : List RecvResult) : P (connectionRead cfg env c script w) := by
  have hinput (w : Worker) (readBuf : List UInt8) (readCap : ℕ) (received : List UInt8)
      (closing : Bool) (hw : P w) := htouch w readBuf readCap received closing 0 false hw
  simp only [Worker.touchRead_input] at hinput
  have hclosing (w : Worker) (hw : P w) : P (w.setClosing c) := by
    have := hinput w (w.conns c).readBuf (w.conns c).readCap (w.conns c).received true hw
    rwa [Bool.or_true] at this
  have hreserve (w : Worker) (hw : P w) : P (readReserve env w c).2 := by
    obtain ⟨cap, ticks, failed, h⟩ := readReserve_eq_touchRead env w c
    exact h ▸ htouch _ _ _ _ _ _ _ hw
  have hreceive (w : Worker) (bytes : List UInt8) (hw : P w) : P (receive w c bytes) := by
    have := hinput w ((w.conns c).readBuf ++
      bytes.take ((w.conns c).readCap - (w.conns c).readBuf.length)) (w.conns c).readCap
      ((w.conns c).received ++ bytes.take ((w.conns c).readCap - (w.conns c).readBuf.length))
      false hw
    rwa [Bool.or_false] at this
  have hparse (w : Worker) (hw : P w) : P (parseAvailable cfg env w c) := by
    obtain ⟨parsed, hparsed⟩ : ∃ parsed, parseLoop cfg.integrity
      (fun w header payload => handlePacket cfg env w c header payload)
      (w.conns c).readBuf (w.conns c).readBuf.length 0 w = parsed := ⟨_, rfl⟩
    have hstep (s : Worker) (off n : ℕ) (header : Header) (payload : List UInt8)
        (result : Rc × Worker) (hs : P s) (hhead : packetHead cfg.integrity
          ((w.conns c).readBuf.drop off) = .packet (header, payload) n)
        (h : handlePacket cfg env s c header payload = result) : P result.2 := by
      obtain ⟨bytes, rest, -, hpacket, -⟩ := packetHead_eq_packet_iff.mp hhead
      exact h ▸ hhandle s header payload hs hpacket.validOp
    rw [parseAvailable_eq parsed hparsed]
    refine hinput _ _ _ _ _ ?_
    obtain ⟨hstate, -⟩ | ⟨s, header, payload, n, hs, hhead, h, -⟩ :=
      parseLoop_rule (P := fun _ s => P s) (Nat.zero_le _) (by omega) hw
        (fun off s header payload n s' hs hhead h => hstep s off n header payload _ hs hhead h)
        parsed hparsed
    · exact hstate
    · exact hstep s parsed.off n header payload _ hs hhead h
  refine connectionRead_rule (P := P) (Q := P) ?_ ?_ (fun _ h => h) (fun _ w h => hclosing w h) ?_ hP
  · intro w w' hw h
    have := hreserve w hw
    rwa [h] at this
  · intro w w' hw h
    have := hreserve w hw
    rw [h] at this
    exact hclosing w' this
  · rintro w w' bytes - hw' -
    have := hparse _ (hreceive w' bytes hw')
    exact ⟨this, fun _ => this⟩

end Touch

/-! ## Writing -/

/-- `connection_set_interests`; `modify` is the answer of the backend. -/
def setInterests (modify : Bool) (conn : Conn) (interests : Interest) : Conn :=
  if conn.interests = interests then conn
  else if modify then { conn with interests := interests }
  else conn

/-- The loop of `connection_write` and what follows it. A call that accepts nothing without an
error is treated as an error. -/
def sendLoop (modify : Bool) : List SendResult → Conn → Conn
  | [], conn =>
    if conn.writeOff < conn.writeBuf.length then
      setInterests modify { conn with offers := conn.offers + 1 } ⟨true, true⟩
    else setInterests modify { conn with writeBuf := [], writeOff := 0 } ⟨true, false⟩
  | result :: rest, conn =>
    if conn.writeOff < conn.writeBuf.length then
      let unsent := conn.writeBuf.drop conn.writeOff
      let conn := { conn with offers := conn.offers + 1 }
      match result with
      | .sent 0 => { conn with closing := true }
      | .sent n =>
        let taken := unsent.take n
        sendLoop modify rest
          { conn with writeOff := conn.writeOff + taken.length, sent := conn.sent ++ taken }
      | .interrupted => sendLoop modify rest conn
      | .wouldBlock => setInterests modify conn ⟨true, true⟩
      | .error => { conn with closing := true }
    else setInterests modify { conn with writeBuf := [], writeOff := 0 } ⟨true, false⟩

/-- `connection_write`. -/
def connectionWrite (env : ℕ → Env) (w : Worker) (c : ℕ) (script : List SendResult) : Worker :=
  { w.setConn c (sendLoop (env w.tick).modify script (w.conns c)) with tick := w.tick + 1 }

/-! ## The output of a connection -/

/-- Everything that was queued on a connection: what the socket accepted and what it did not. -/
def Conn.output (conn : Conn) : List UInt8 := conn.sent ++ conn.writeBuf.drop conn.writeOff

/-- Output that is queued comes after what was there. -/
theorem Conn.output_appendOut {conn : Conn} (h : conn.writeOff ≤ conn.writeBuf.length)
    (bytes : List UInt8) (cap : ℕ) :
    (conn.appendOut bytes cap).output = conn.output ++ bytes := by
  simp only [Conn.output, Conn.appendOut]
  rw [List.drop_append_of_le_length h, List.append_assoc]

/-- Bytes are waiting to be sent. -/
def Conn.Unsent (conn : Conn) : Prop := conn.writeOff < conn.writeBuf.length

instance (conn : Conn) : Decidable conn.Unsent :=
  inferInstanceAs (Decidable (conn.writeOff < conn.writeBuf.length))

/-- A connection with what sending changed in another. -/
def Conn.withSentOf (conn other : Conn) : Conn :=
  { conn with
    writeBuf := other.writeBuf
    writeOff := other.writeOff
    interests := other.interests
    sent := other.sent
    offers := other.offers
    closing := other.closing }

/-- **What a write does**: the output as a whole stays, a failure leaves bytes unsent, and WRITE
interest is kept only for unsent bytes if the backend accepts the change. -/
structure Sends (modify : Bool) (script : List SendResult) (conn conn' : Conn) : Prop where
  same : conn' = conn.withSentOf conn'
  output : conn'.output = conn.output
  off_le : conn.writeOff ≤ conn.writeBuf.length → conn'.writeOff ≤ conn'.writeBuf.length
  closing_le : conn.closing = true → conn'.closing = true
  failed : conn'.closing = true → conn.closing = true ∨ conn'.Unsent
  clean : (∀ r ∈ script, r ≠ .error ∧ r ≠ .sent 0) → conn'.closing = conn.closing
  interest : modify = true → conn'.interests.write = true → conn'.Unsent

section Sends

variable {modify : Bool} {script : List SendResult} {conn conn' : Conn}

/-- The write loop ends with bytes left, and WRITE interest for them. -/
theorem Sends.blocked (hunsent : conn.Unsent) :
    Sends modify script conn
      (setInterests modify { conn with offers := conn.offers + 1 } ⟨true, true⟩) := by
  unfold setInterests
  split_ifs
  · exact ⟨rfl, rfl, id, id, .inl, fun _ => rfl, fun _ _ => hunsent⟩
  · exact ⟨rfl, rfl, id, id, .inl, fun _ => rfl, fun _ _ => hunsent⟩
  · exact ⟨rfl, rfl, id, id, .inl, fun _ => rfl, fun _ _ => hunsent⟩

/-- The write loop ends with everything sent. -/
theorem Sends.drained (hsent : ¬ conn.Unsent) :
    Sends modify script conn
      (setInterests modify { conn with writeBuf := [], writeOff := 0 } ⟨true, false⟩) := by
  have houtput : { conn with writeBuf := [], writeOff := 0 }.output = conn.output := by
    simp only [Conn.output, List.drop_nil]
    rw [List.drop_eq_nil_of_le (Nat.not_lt.mp hsent)]
  have hsends (interests : Interest) (h : modify = true → interests.write = false) :
      Sends modify script conn
        { conn with writeBuf := [], writeOff := 0, interests := interests } := by
    refine ⟨rfl, houtput, fun _ => le_rfl, id, .inl, fun _ => rfl, ?_⟩
    intro hmodify hwrite
    exact absurd (hwrite.symm.trans (h hmodify)) (by decide)
  unfold setInterests
  split_ifs with hsame hmodify
  · exact hsends conn.interests fun _ => congrArg Interest.write hsame
  · exact hsends ⟨true, false⟩ fun _ => rfl
  · exact hsends conn.interests fun h => absurd h hmodify

/-- The socket fails while bytes are left. -/
theorem Sends.broken (hunsent : conn.Unsent) (hscript : ∃ r ∈ script, r = .error ∨ r = .sent 0) :
    Sends modify script conn { conn with offers := conn.offers + 1, closing := true } := by
  refine ⟨rfl, rfl, id, fun _ => rfl, fun _ => .inr hunsent, ?_, fun _ _ => hunsent⟩
  intro hclean
  obtain ⟨r, hr, h | h⟩ := hscript
  · exact absurd h (hclean r hr).1
  · exact absurd h (hclean r hr).2

/-- One call of the socket, and the rest of the loop. -/
theorem Sends.step {r : SendResult} {mid : Conn} (hrest : Sends modify script mid conn')
    (hsame : mid = conn.withSentOf mid) (houtput : mid.output = conn.output)
    (hoff : mid.writeOff ≤ mid.writeBuf.length) (hclosing : mid.closing = conn.closing) :
    Sends modify (r :: script) conn conn' := by
  refine ⟨?_, hrest.output.trans houtput, fun _ => hrest.off_le hoff, ?_, ?_, ?_, hrest.interest⟩
  · rw [hrest.same, hsame]
    rfl
  · exact fun h => hrest.closing_le (hclosing.trans h)
  · exact fun h => (hrest.failed h).imp_left fun h => hclosing.symm.trans h
  · exact fun h => (hrest.clean fun r hr => h r (List.mem_cons_of_mem _ hr)).trans hclosing

/-- **Every write does this.** -/
theorem sendLoop_sends (modify : Bool) (script : List SendResult) (conn : Conn) :
    Sends modify script conn (sendLoop modify script conn) := by
  induction script generalizing conn with
  | nil =>
    rw [sendLoop]
    split_ifs with hunsent
    · exact .blocked hunsent
    · exact .drained hunsent
  | cons r script ih =>
    rw [sendLoop]
    split_ifs with hunsent
    swap
    · exact .drained hunsent
    match r with
    | .sent 0 => exact .broken hunsent ⟨.sent 0, by simp, .inr rfl⟩
    | .error => exact .broken hunsent ⟨.error, by simp, .inl rfl⟩
    | .wouldBlock => exact .blocked hunsent
    | .interrupted => exact (ih _).step rfl rfl hunsent.le rfl
    | .sent (n + 1) =>
      refine (ih _).step rfl ?_ ?_ rfl
      · have hrest : ((conn.writeBuf.drop conn.writeOff).take (n + 1) ++
            (conn.writeBuf.drop conn.writeOff).drop (n + 1)).drop
              ((conn.writeBuf.drop conn.writeOff).take (n + 1)).length =
            (conn.writeBuf.drop conn.writeOff).drop (n + 1) := List.drop_left
        rw [List.take_append_drop] at hrest
        simp only [Conn.output]
        rw [← List.drop_drop, hrest, List.append_assoc, List.take_append_drop]
      · simp only [List.length_take, List.length_drop]
        omega

end Sends

end Wirecall

import Wirecall.Server.Framing

/-!
# What happens inside a read

A read calls `recv`, `parse_available` and `handle_packet` many times. The states in which it does
so are recorded here, so that what holds in the middle of a read can be stated.

## Main definitions

* `ReadPoint`: a state inside a read, and what the read is about to do, or has just done
* `readPoints`, `readAllPoints`: the points of one read, and of any number of reads
* `readLogged`: a read that keeps a record of its points
* `DisconnectLast`: only the last packet in a buffer may be a DISCONNECT
* `Conn.Fits`, `Conn.Bounded`: the bounds on the read buffer inside a call of the parser and
  between two of them

## Main results

* `readLogged_eq`: the record changes nothing
* `dispatchStates_rule`, `readPoints_rule`: what holds at the points of a read
* `readPoints_not_closing`: **nothing is dispatched after closing** in a read, if no packet stands
  behind a DISCONNECT in the buffer
* `ping_dispatched_after_disconnect`: otherwise it is
* `read_memory_bounded`: **the read buffer is bounded**, whatever the peer sends
-/

namespace Wirecall

open Framing

/-- A state inside a read. -/
inductive ReadPoint where
  /-- `recv` is about to be called. -/
  | recv (w : Worker)
  /-- `parse_available` is about to be called. -/
  | parse (w : Worker)
  /-- `handle_packet` is about to be called. -/
  | dispatch (w : Worker)
  /-- `parse_available` has returned. -/
  | parsed (w : Worker)

/-- The worker at that point. -/
def ReadPoint.worker : ReadPoint → Worker
  | .recv w => w
  | .parse w => w
  | .dispatch w => w
  | .parsed w => w

/-- The states in which `parse_available` calls `handle_packet`. -/
def dispatchStates (cfg : ServerConfig) (env : ℕ → Env) (w : Worker) (c : ℕ) : List Worker :=
  let buf := (w.conns c).readBuf
  let handle (s : Worker × List Worker) (header : Header) (payload : List UInt8) :=
    let (rc, w') := handlePacket cfg env s.1 c header payload
    (rc, (w', s.2 ++ [s.1]))
  (parseLoop cfg.integrity handle buf buf.length 0 (w, [])).state.2

/-- The points of a call of `parse_available`. -/
def parsePoints (cfg : ServerConfig) (env : ℕ → Env) (w : Worker) (c : ℕ) : List ReadPoint :=
  .parse w :: (dispatchStates cfg env w c).map .dispatch ++ [.parsed (parseAvailable cfg env w c)]

/-- The points of a call of `connection_read`. -/
def readPoints (cfg : ServerConfig) (env : ℕ → Env) (c : ℕ) :
    List RecvResult → Worker → List ReadPoint
  | [], w =>
    match readReserve env w c with
    | (.err, _) => []
    | (.ok, w) => [.recv w]
  | result :: rest, w =>
    match readReserve env w c with
    | (.err, _) => []
    | (.ok, w) =>
      .recv w ::
        match result with
        | .wouldBlock => []
        | .interrupted => readPoints cfg env c rest w
        | .error => []
        | .data [] => []
        | .data bytes =>
          let w := receive w c bytes
          parsePoints cfg env w c ++
            let w := parseAvailable cfg env w c
            if (w.conns c).closing then [] else readPoints cfg env c rest w

/-- The points of any number of reads. -/
def readAllPoints (cfg : ServerConfig) (env : ℕ → Env) (c : ℕ) :
    List (List RecvResult) → Worker → List ReadPoint
  | [], _ => []
  | script :: scripts, w =>
    if (w.conns c).closing then readAllPoints cfg env c scripts w
    else readPoints cfg env c script w ++
      readAllPoints cfg env c scripts (connectionRead cfg env c script w)

/-! ## The points of a read and the read -/

/-- `parse_available`, with its points. -/
def parseLogged (cfg : ServerConfig) (env : ℕ → Env) (w : Worker) (c : ℕ) :
    Worker × List ReadPoint :=
  let buf := (w.conns c).readBuf
  let handle (s : Worker × List Worker) (header : Header) (payload : List UInt8) :=
    let (rc, w') := handlePacket cfg env s.1 c header payload
    (rc, (w', s.2 ++ [s.1]))
  let parsed := parseLoop cfg.integrity handle buf buf.length 0 (w, [])
  let w' := parsed.state.1
  let w' := compact (if parsed.closing then w'.setClosing c else w') c parsed.off
  (w', .parse w :: parsed.state.2.map .dispatch ++ [.parsed w'])

/-- `connection_read`, with its points. -/
def readLogged (cfg : ServerConfig) (env : ℕ → Env) (c : ℕ) :
    List RecvResult → Worker → Worker × List ReadPoint
  | [], w =>
    match readReserve env w c with
    | (.err, w) => (w.setClosing c, [])
    | (.ok, w) => (w, [.recv w])
  | result :: rest, w =>
    match readReserve env w c with
    | (.err, w) => (w.setClosing c, [])
    | (.ok, w) =>
      match result with
      | .wouldBlock => (w, [.recv w])
      | .interrupted =>
        let after := readLogged cfg env c rest w
        (after.1, .recv w :: after.2)
      | .error => (w.setClosing c, [.recv w])
      | .data [] => (w.setClosing c, [.recv w])
      | .data bytes =>
        let parsed := parseLogged cfg env (receive w c bytes) c
        if (parsed.1.conns c).closing then (parsed.1, .recv w :: parsed.2)
        else
          let after := readLogged cfg env c rest parsed.1
          (after.1, .recv w :: (parsed.2 ++ after.2))

section Logged

variable (cfg : ServerConfig) (env : ℕ → Env) (c : ℕ)

/-- A parser that keeps a record beside its state goes through the same states. -/
theorem parseLoop_fst {σ τ : Type} (i : Integrity) (handle : σ → Header → List UInt8 → Rc × σ)
    (record : σ → τ → τ) (buf : List UInt8) (fuel off : ℕ) (s : σ × τ) :
    ∃ t, parseLoop i (fun s header payload =>
        ((handle s.1 header payload).1, ((handle s.1 header payload).2, record s.1 s.2)))
        buf fuel off s =
      ⟨(parseLoop i handle buf fuel off s.1).off, (parseLoop i handle buf fuel off s.1).closing,
        ((parseLoop i handle buf fuel off s.1).state, t)⟩ := by
  induction fuel generalizing off s with
  | zero => exact ⟨s.2, rfl⟩
  | succ fuel ih =>
    rw [parseLoop_succ, parseLoop_succ]
    cases packetHead i (buf.drop off) with
    | more => exact ⟨s.2, rfl⟩
    | bad => exact ⟨s.2, rfl⟩
    | packet packet n =>
      obtain ⟨header, payload⟩ := packet
      simp only
      rcases handle s.1 header payload with ⟨rc, s'⟩
      cases rc with
      | err => exact ⟨_, rfl⟩
      | ok => exact ih (off + n) (s', record s.1 s.2)

theorem parseLogged_eq (w : Worker) :
    parseLogged cfg env w c = (parseAvailable cfg env w c, parsePoints cfg env w c) := by
  obtain ⟨states, hstates⟩ := parseLoop_fst cfg.integrity
    (fun w header payload => handlePacket cfg env w c header payload)
    (fun w states => states ++ [w]) (w.conns c).readBuf (w.conns c).readBuf.length 0 (w, [])
  unfold parseLogged parsePoints dispatchStates parseAvailable
  simp only
  rw [hstates]

/-- **The record of a read changes nothing**, and it is the points. -/
theorem readLogged_eq (script : List RecvResult) (w : Worker) :
    readLogged cfg env c script w =
      (connectionRead cfg env c script w, readPoints cfg env c script w) := by
  induction script generalizing w with
  | nil =>
    rw [readLogged, connectionRead, readPoints]
    rcases readReserve env w c with ⟨rc, w'⟩
    cases rc <;> rfl
  | cons result rest ih =>
    rw [readLogged, connectionRead, readPoints]
    rcases readReserve env w c with ⟨rc, w'⟩
    cases rc with
    | err => rfl
    | ok =>
      cases result with
      | wouldBlock => rfl
      | interrupted => simp only [ih]
      | error => rfl
      | data bytes =>
        cases bytes with
        | nil => rfl
        | cons b bytes =>
          simp only [parseLogged_eq, ih]
          split_ifs <;> simp

/-- Later reads go on from where the earlier ones left the worker. -/
theorem readAllPoints_append (scripts more : List (List RecvResult)) (w : Worker) :
    readAllPoints cfg env c (scripts ++ more) w =
      readAllPoints cfg env c scripts w ++
        readAllPoints cfg env c more (readAll cfg env c scripts w) := by
  induction scripts generalizing w with
  | nil => rfl
  | cons script scripts ih =>
    rw [List.cons_append, readAllPoints, readAllPoints, readAll]
    split_ifs
    · exact ih w
    · rw [ih, List.append_assoc]

end Logged

/-! ## Rules for the points of a read -/

section Rules

variable {cfg : ServerConfig} {env : ℕ → Env} {w : Worker} {c : ℕ}

/-- **Rule for dispatching**: when a packet is handed over, those before it in the buffer were
handled. -/
theorem dispatchStates_rule {D : Worker → Prop} (hopen : (w.conns c).Open)
    (hD : ∀ s packets rest p n, Handled w s c packets →
      Parses (packetFormat cfg.integrity) (w.conns c).readBuf packets rest →
      packetHead cfg.integrity rest = .packet p n → D s) :
    ∀ s ∈ dispatchStates cfg env w c, D s := by
  obtain ⟨handle, hhandle⟩ : ∃ handle : Worker × List Worker → Header → List UInt8 →
      Rc × Worker × List Worker, handle = fun s header payload =>
        ((handlePacket cfg env s.1 c header payload).1,
          ((handlePacket cfg env s.1 c header payload).2, s.2 ++ [s.1])) := ⟨_, rfl⟩
  obtain ⟨parsed, hparsed⟩ : ∃ parsed, parseLoop cfg.integrity handle (w.conns c).readBuf
      (w.conns c).readBuf.length 0 (w, []) = parsed := ⟨_, rfl⟩
  have hstates : dispatchStates cfg env w c = parsed.state.2 := by
    rw [← hparsed, hhandle]
    rfl
  -- a state is recorded where a packet follows those handled so far
  have hrecord (s : Worker) (states : List Worker) (packets : List (Header × List UInt8))
      (rest : List UInt8) (p : Header × List UInt8) (n : ℕ) (hstates : ∀ s ∈ states, D s)
      (hhandled : Handled w s c packets)
      (hparses : Parses (packetFormat cfg.integrity) (w.conns c).readBuf packets rest)
      (hhead : packetHead cfg.integrity rest = .packet p n) : ∀ s' ∈ states ++ [s], D s' := by
    intro s' hs'
    rcases List.mem_append.mp hs' with hs' | hs'
    · exact hstates s' hs'
    · obtain rfl := List.mem_singleton.mp hs'
      exact hD s' packets rest p n hhandled hparses hhead
  have hrule := parseLoop_rule (P := fun off s => (∀ s' ∈ s.2, D s') ∧
      ∃ packets, Handled w s.1 c packets ∧ Parses (packetFormat cfg.integrity)
        (w.conns c).readBuf packets ((w.conns c).readBuf.drop off))
    (Nat.zero_le _) (by omega) ⟨List.forall_mem_nil _, [], Handled.refl w c, .nil _⟩ ?_
    parsed hparsed
  swap
  · rintro off ⟨s, states⟩ header payload n s' ⟨hdone, packets, hhandled, hparses⟩ hhead hstep
    have hhandles := handlePacket_handles cfg env (hhandled.isOpen hopen) header payload
    rw [hhandle] at hstep
    obtain ⟨-, rfl⟩ := Prod.mk.inj hstep
    refine ⟨hrecord s states packets _ _ n hdone hhandled hparses hhead,
      packets ++ [(header, payload)], hhandled.trans hhandles.handled, ?_⟩
    rw [← List.drop_drop]
    exact hparses.trans (.single hhead)
  rw [hstates]
  rcases hrule with ⟨⟨hdone, -⟩, -⟩ |
    ⟨⟨s, states⟩, header, payload, n, ⟨hdone, packets, hhandled, hparses⟩, hhead, hstep, -⟩
  · exact hdone
  · rw [hhandle] at hstep
    obtain ⟨-, hstate⟩ := Prod.mk.inj hstep
    rw [← hstate]
    exact hrecord s states packets _ _ n hdone hhandled hparses hhead

/-- **Rule for the points of a read**: `P` holds at the head of the loop, `C` is known of the
states in which the parser is called, and `G` holds at every point. -/
theorem readPoints_rule {P C : Worker → Prop} {G : ReadPoint → Prop} {script : List RecvResult}
    (hreserve : ∀ w w', P w → readReserve env w c = (.ok, w') → P w' ∧ G (.recv w'))
    (hparse : ∀ w w' bytes, readReserve env w c = (.ok, w') → P w' → bytes ≠ [] →
      C (receive w' c bytes) →
      (∀ p ∈ parsePoints cfg env (receive w' c bytes) c, G p) ∧
        (((parseAvailable cfg env (receive w' c bytes) c).conns c).closing = false →
          P (parseAvailable cfg env (receive w' c bytes) c)))
    (hP : P w) (hC : ∀ w', .parse w' ∈ readPoints cfg env c script w → C w') :
    ∀ p ∈ readPoints cfg env c script w, G p := by
  induction script generalizing w with
  | nil =>
    rw [readPoints]
    cases hres : readReserve env w c with
    | mk rc w' =>
      cases rc with
      | err => exact fun _ h => by cases h
      | ok =>
        intro p hp
        obtain rfl := List.mem_singleton.mp hp
        exact (hreserve w w' hP hres).2
  | cons result rest ih =>
    rw [readPoints] at hC ⊢
    cases hres : readReserve env w c with
    | mk rc w' =>
      rw [hres] at hC
      cases rc with
      | err => exact fun _ h => by cases h
      | ok =>
        obtain ⟨hP', hG⟩ := hreserve w w' hP hres
        have hC' := fun w'' hw'' => hC w'' (List.mem_cons_of_mem _ hw'')
        refine List.forall_mem_cons.mpr ⟨hG, ?_⟩
        match result with
        | .wouldBlock => exact fun _ h => by cases h
        | .error => exact fun _ h => by cases h
        | .data [] => exact fun _ h => by cases h
        | .interrupted => exact ih hP' hC'
        | .data (b :: bytes) =>
          simp only at hC' ⊢
          obtain ⟨hpoints, hnext⟩ := hparse w w' (b :: bytes) hres hP' (by simp)
            (hC' _ (List.mem_append_left _ List.mem_cons_self))
          refine List.forall_mem_append.mpr ⟨hpoints, ?_⟩
          split
          · exact fun _ h => by cases h
          · rename_i hclosing
            refine ih (hnext (by simpa using hclosing)) fun w'' hw'' =>
              hC' w'' (List.mem_append_right _ ?_)
            rwa [if_neg hclosing]

/-- What holds between reads, unless the connection is to be closed, and what holds at the points
of one read, give what holds at the points of any number of reads. -/
theorem readAllPoints_rule {P C : Worker → Prop} {G : ReadPoint → Prop}
    (hpoints : ∀ w script, P w → (w.conns c).closing = false →
      (∀ w', .parse w' ∈ readPoints cfg env c script w → C w') →
      ∀ p ∈ readPoints cfg env c script w, G p)
    (hread : ∀ w script, P w → (w.conns c).closing = false → P (connectionRead cfg env c script w))
    {scripts : List (List RecvResult)} (hP : P w)
    (hC : ∀ w', .parse w' ∈ readAllPoints cfg env c scripts w → C w') :
    (∀ p ∈ readAllPoints cfg env c scripts w, G p) ∧ P (readAll cfg env c scripts w) := by
  induction scripts generalizing w with
  | nil => exact ⟨List.forall_mem_nil _, hP⟩
  | cons script scripts ih =>
    rw [readAllPoints] at hC ⊢
    rw [readAll]
    split
    · rename_i hclosing
      rw [if_pos hclosing] at hC
      exact ih hP hC
    · rename_i hclosing
      rw [if_neg hclosing] at hC
      have hopen : (w.conns c).closing = false := by simpa using hclosing
      obtain ⟨hrest, hlast⟩ := ih (hread w script hP hopen)
        fun w' hw' => hC w' (List.mem_append_right _ hw')
      have hfirst := hpoints w script hP hopen fun w' hw' => hC w' (List.mem_append_left _ hw')
      exact ⟨List.forall_mem_append.mpr ⟨hfirst, hrest⟩, hlast⟩

variable (cfg env) in
/-- What the parser leaves of the input: a rest of it, which needs more input unless the
connection is to be closed. -/
theorem parseAvailable_input (hopen : (w.conns c).Open) :
    ((parseAvailable cfg env w c).conns c).Open ∧
      ((parseAvailable cfg env w c).conns c).readCap = (w.conns c).readCap ∧
      ∃ off, ((parseAvailable cfg env w c).conns c).readBuf = (w.conns c).readBuf.drop off ∧
        (((parseAvailable cfg env w c).conns c).closing = false →
          packetHead cfg.integrity ((w.conns c).readBuf.drop off) = .more) := by
  obtain ⟨parsed, hparsed⟩ : ∃ parsed, parseLoop cfg.integrity
      (fun w header payload => handlePacket cfg env w c header payload)
      (w.conns c).readBuf (w.conns c).readBuf.length 0 w = parsed := ⟨_, rfl⟩
  have hrule := parseLoop_rule (P := fun _ s => ∃ packets, Handled w s c packets)
    (Nat.zero_le _) (by omega) ⟨[], Handled.refl w c⟩ ?_ parsed hparsed
  swap
  · rintro off s header payload n s' ⟨packets, hhandled⟩ - hhandle
    have hhandles := handlePacket_handles cfg env (hhandled.isOpen hopen) header payload
    rw [hhandle] at hhandles
    exact ⟨_, hhandled.trans hhandles.handled⟩
  obtain ⟨⟨packets, hhandled⟩, hstop⟩ : (∃ packets, Handled w parsed.state c packets) ∧
      (parsed.closing = false →
        packetHead cfg.integrity ((w.conns c).readBuf.drop parsed.off) = .more) := by
    rcases hrule with ⟨hhandled, ⟨hmore, -⟩ | ⟨-, hclose⟩⟩ |
      ⟨s, header, payload, n, ⟨packets, hhandled⟩, -, hhandle, hclose⟩
    · exact ⟨hhandled, fun _ => hmore⟩
    · exact ⟨hhandled, fun h => absurd (hclose.symm.trans h) (by decide)⟩
    · have hhandles := handlePacket_handles cfg env (hhandled.isOpen hopen) header payload
      rw [hhandle] at hhandles
      exact ⟨⟨_, hhandled.trans hhandles.handled⟩,
        fun h => absurd (hclose.symm.trans h) (by decide)⟩
  rw [parseAvailable_eq parsed hparsed, Worker.conns_setConn_self]
  refine ⟨hhandled.isOpen hopen, ?_, parsed.off, ?_, ?_⟩
  · rw [hhandled.conn]
    rfl
  · rw [hhandled.conn]
    rfl
  · intro hclosing
    exact hstop (Bool.or_eq_false_iff.mp hclosing).2

end Rules

/-! ## Nothing is dispatched after closing -/

/-- The packets at the front of a buffer. -/
def bufferPackets (i : Integrity) (buf : List UInt8) : List (Header × List UInt8) :=
  (parseLoop i (fun packets header payload => (.ok, packets ++ [(header, payload)]))
    buf buf.length 0 []).state

/-- In a buffer no packet follows a DISCONNECT. -/
def DisconnectLast (i : Integrity) (buf : List UInt8) : Prop :=
  ∀ p ∈ (bufferPackets i buf).dropLast, p.1.op ≠ Op.disconnect.code

instance (i : Integrity) (buf : List UInt8) : Decidable (DisconnectLast i buf) :=
  inferInstanceAs (Decidable (∀ p ∈ (bufferPackets i buf).dropLast, p.1.op ≠ Op.disconnect.code))

theorem bufferPackets_maximal (i : Integrity) (buf : List UInt8) :
    ∃ rest, Maximal (packetFormat i) buf (bufferPackets i buf) rest := by
  obtain ⟨parsed, hparsed⟩ : ∃ parsed, parseLoop i
      (fun packets header payload => (Rc.ok, packets ++ [(header, payload)]))
      buf buf.length 0 [] = parsed := ⟨_, rfl⟩
  have hrule := parseLoop_rule (P := fun off packets => Parses (packetFormat i) buf packets
    (buf.drop off)) (Nat.zero_le _) (by omega) (.nil _) ?_ parsed hparsed
  swap
  · intro off packets header payload n packets' hparses hhead hhandle
    obtain ⟨-, rfl⟩ := Prod.mk.inj hhandle
    rw [← List.drop_drop]
    exact hparses.trans (.single hhead)
  have hpackets : bufferPackets i buf = parsed.state := by
    rw [← hparsed]
    rfl
  rw [hpackets]
  rcases hrule with ⟨hparses, ⟨hmore, -⟩ | ⟨hbad, -⟩⟩ | ⟨s, header, payload, n, -, -, hhandle, -⟩
  · exact ⟨_, hparses, .of_more hmore⟩
  · exact ⟨_, hparses, .of_bad hbad⟩
  · cases hhandle

/-- Where a further packet follows, the packets before it are not the last. -/
theorem DisconnectLast.of_parses {i : Integrity} {buf rest : List UInt8}
    {packets : List (Header × List UInt8)} {p : Header × List UInt8} {n : ℕ}
    (h : DisconnectLast i buf) (hparses : Parses (packetFormat i) buf packets rest)
    (hhead : packetHead i rest = .packet p n) :
    (packets.any fun q => q.1.op == Op.disconnect.code) = false := by
  obtain ⟨end_, hmax⟩ := bufferPackets_maximal i buf
  obtain ⟨more, hmore, -⟩ := (hparses.trans (.single hhead)).split hmax
  refine List.any_eq_false.mpr fun q hq => ?_
  have hbefore : q ∈ (bufferPackets i buf).dropLast := by
    rw [hmore, List.append_assoc, List.dropLast_append_of_ne_nil (by simp)]
    exact List.mem_append_left _ hq
  simpa using h q hbefore

/-- A read never calls `handle_packet` on a connection that is to be closed, if no packet follows
a DISCONNECT in what is parsed. -/
theorem readPoints_not_closing {cfg : ServerConfig} {env : ℕ → Env} {w : Worker} {c : ℕ}
    {script : List RecvResult} (hopen : (w.conns c).Open) (hclosing : (w.conns c).closing = false)
    (hlast : ∀ w', .parse w' ∈ readPoints cfg env c script w →
      DisconnectLast cfg.integrity (w'.conns c).readBuf) :
    ∀ p ∈ readPoints cfg env c script w,
      ∀ w', p = .dispatch w' → (w'.conns c).closing = false := by
  refine readPoints_rule (P := fun w => (w.conns c).Open ∧ (w.conns c).closing = false)
    (C := fun w => DisconnectLast cfg.integrity (w.conns c).readBuf) ?_ ?_ ⟨hopen, hclosing⟩ hlast
  · rintro w w' ⟨hopen, hclosing⟩ hreserve
    obtain ⟨⟨cap, hconn⟩, -⟩ := readReserve_ok hreserve
    refine ⟨?_, (fun _ h => by cases h)⟩
    rw [hconn]
    exact ⟨hopen, hclosing⟩
  · rintro - w bytes - ⟨hopen, hclosing⟩ - hlast
    obtain ⟨hopen', hclosing'⟩ : ((receive w c bytes).conns c).Open ∧
        ((receive w c bytes).conns c).closing = false := by
      rw [receive_conns]
      exact ⟨hopen, hclosing⟩
    generalize receive w c bytes = w at *
    refine ⟨?_, fun h => ⟨(parseAvailable_input cfg env hopen').1, h⟩⟩
    rintro p hp w' rfl
    obtain ⟨s, hs, hsw⟩ : ∃ s ∈ dispatchStates cfg env w c, ReadPoint.dispatch s = .dispatch w' := by
      simpa [parsePoints] using hp
    cases hsw
    refine dispatchStates_rule (D := fun s => (s.conns c).closing = false) hopen' ?_ w' hs
    intro s packets rest p n hhandled hparses hhead
    rw [hhandled.closing, hclosing', hlast.of_parses hparses hhead]
    rfl

/-- A point at which `handle_packet` is called on a connection that is to be closed. -/
def ReadPoint.dispatchesClosing (c : ℕ) : ReadPoint → Bool
  | .dispatch w => (w.conns c).closing
  | _ => false

/-- A DISCONNECT and a PING. In one `recv` the PING is dispatched after the connection was marked
for closing, and it is answered; in two it is not even read. -/
theorem ping_dispatched_after_disconnect :
    let stream := pingThenDisconnect.drop 34 ++ pingThenDisconnect.take 34
    let w := workerInit.setConn 0 { Conn.zero with fd := 3 }
    (∃ w', .dispatch w' ∈ readAllPoints .plain (fun _ => .quiet) 0 [[.data stream]] w ∧
      (w'.conns 0).closing = true) ∧
    (packetsOf 0 (readAll .plain (fun _ => .quiet) 0 [[.data stream]] w).log).map
      (fun p => p.1.op) = [3, 2] ∧
    (((readAll .plain (fun _ => .quiet) 0 [[.data stream]] w).conns 0).writeBuf.length = 34) ∧
    (packetsOf 0 (readAll .plain (fun _ => .quiet) 0
      [[.data (stream.take 34), .data (stream.drop 34)]] w).log).map (fun p => p.1.op) = [3] := by
  refine ⟨?_, by decide +kernel, by decide +kernel, by decide +kernel⟩
  have hany : ((readAllPoints .plain (fun _ => .quiet) 0
      [[.data (pingThenDisconnect.drop 34 ++ pingThenDisconnect.take 34)]]
      (workerInit.setConn 0 { Conn.zero with fd := 3 })).any
        (ReadPoint.dispatchesClosing 0)) = true := by decide +kernel
  obtain ⟨p, hp, hclosing⟩ := List.any_eq_true.mp hany
  cases p with
  | dispatch w' => exact ⟨w', hp, hclosing⟩
  | recv w' => cases hclosing
  | parse w' => cases hclosing
  | parsed w' => cases hclosing

/-! ## The read buffer is bounded -/

/-- What needs more input is short: a header that decodes announces at most one megabyte. -/
theorem length_lt_of_more {i : Integrity} {buf : List UInt8} (h : packetHead i buf = .more) :
    buf.length < headerSize + maxPayloadSize := by
  unfold packetHead at h
  split_ifs at h with hshort
  · omega
  · split at h
    · cases h
    · rename_i header hdecode
      have hsize := (headerDecode_eq_some_iff.mp hdecode).1.2
      have heq : header.size = getU32 (buf.drop 10) := by
        rw [(headerDecode_eq_some_iff.mp hdecode).2]
      simp only at h
      split_ifs at h with hlong
      rw [heq] at hlong
      omega

/-- **The input of a connection**: it fits its buffer, whose capacity was reached by doubling. -/
structure Conn.Fits (conn : Conn) : Prop where
  len_le : conn.readBuf.length ≤ conn.readCap
  cap : Doubled 21 conn.readCap

/-- **The read buffer is bounded**: between two calls of the parser the rest is short, too. -/
structure Conn.Bounded (conn : Conn) : Prop extends conn.Fits where
  isOpen : conn.Open
  short : conn.closing = false → conn.readBuf.length < headerSize + maxPayloadSize

section Bounded

variable {cfg : ServerConfig} {env : ℕ → Env} {w : Worker} {c : ℕ}

/-- Marking a connection for closing leaves its input alone. -/
theorem Conn.Bounded.setClosing (h : (w.conns c).Bounded) : ((w.setClosing c).conns c).Bounded := by
  rw [Worker.setClosing, Worker.conns_setConn_self]
  exact ⟨⟨h.len_le, h.cap⟩, h.isOpen, fun hclosing => by cases hclosing⟩

/-- **Before `recv` there is room**, and the buffer is large enough for it at the latest when its
capacity is two megabytes. -/
theorem Conn.Bounded.readReserve {w' : Worker} (h : (w.conns c).Bounded)
    (hclosing : (w.conns c).closing = false) (hreserve : readReserve env w c = (.ok, w')) :
    (w'.conns c).Bounded ∧ (w'.conns c).closing = false ∧
      readChunk ≤ (w'.conns c).readCap - (w'.conns c).readBuf.length := by
  unfold Wirecall.readReserve at hreserve
  simp only at hreserve
  split_ifs at hreserve with hroom
  · split at hreserve
    · cases hreserve
    · rename_i cap hcap
      cases hreserve
      have hneed := reserveBytes_eq_some hcap
      have hshort := h.short hclosing
      have hdoubled : Doubled 21 cap := by
        refine h.cap.reserveBytes (by decide) ?_ hcap
        unfold headerSize maxPayloadSize at hshort
        unfold readChunk
        omega
      change (Conn.Bounded (Function.update w.conns c _ c)) ∧ _
      rw [Function.update_self]
      refine ⟨⟨⟨?_, hdoubled⟩, h.isOpen, h.short⟩, ?_, ?_⟩
      · simp only
        omega
      · change (Function.update w.conns c _ c).closing = false
        rw [Function.update_self]
        exact hclosing
      · change _ ≤ (Function.update w.conns c _ c).readCap -
          (Function.update w.conns c _ c).readBuf.length
        rw [Function.update_self]
        simp only
        omega
  · cases hreserve
    exact ⟨h, hclosing, Nat.not_lt.mp hroom⟩

/-- `recv` gets no more bytes than there is room for. -/
theorem Conn.Bounded.receive (h : (w.conns c).Bounded) (bytes : List UInt8) :
    ((receive w c bytes).conns c).Fits ∧ ((receive w c bytes).conns c).Open := by
  rw [receive_conns]
  refine ⟨⟨?_, h.cap⟩, h.isOpen⟩
  have hfits := h.len_le
  simp only [List.length_append, List.length_take]
  omega

variable (cfg env) in
/-- The parser leaves a bounded rest. -/
theorem Conn.Fits.parseAvailable (h : (w.conns c).Fits) (hopen : (w.conns c).Open) :
    ((parseAvailable cfg env w c).conns c).Bounded := by
  obtain ⟨hopen', hcap, off, hbuf, hmore⟩ := parseAvailable_input cfg env hopen
  refine ⟨⟨?_, ?_⟩, hopen', ?_⟩
  · rw [hbuf, hcap, List.length_drop]
    exact (Nat.sub_le _ _).trans h.len_le
  · rw [hcap]
    exact h.cap
  · intro hclosing
    rw [hbuf]
    exact length_lt_of_more (hmore hclosing)

/-- While packets are handled the input stays as it is. -/
theorem Conn.Fits.dispatchStates (h : (w.conns c).Fits) (hopen : (w.conns c).Open) :
    ∀ s ∈ dispatchStates cfg env w c, (s.conns c).Fits := by
  refine dispatchStates_rule hopen ?_
  intro s packets rest p n hhandled _ _
  rw [hhandled.conn]
  exact ⟨h.len_le, h.cap⟩

/-- What is claimed of a point of a read. -/
structure ReadPoint.Bounded (c : ℕ) (p : ReadPoint) : Prop where
  fits : (p.worker.conns c).Fits
  room : ∀ w, p = .recv w → readChunk ≤ (w.conns c).readCap - (w.conns c).readBuf.length
  short : ∀ w, p = .parsed w → (w.conns c).closing = false →
    (w.conns c).readBuf.length < headerSize + maxPayloadSize

theorem parsePoints_bounded (h : (w.conns c).Fits) (hopen : (w.conns c).Open) :
    ∀ p ∈ parsePoints cfg env w c, p.Bounded c := by
  have hparsed := h.parseAvailable cfg env hopen
  intro p hp
  simp only [parsePoints, List.mem_append, List.mem_cons, List.mem_map, List.not_mem_nil,
    or_false] at hp
  rcases hp with (rfl | ⟨s, hs, rfl⟩) | rfl
  · exact ⟨h, (fun _ hw => by cases hw), (fun _ hw => by cases hw)⟩
  · exact ⟨h.dispatchStates hopen s hs, (fun _ hw => by cases hw), (fun _ hw => by cases hw)⟩
  · refine ⟨hparsed.toFits, (fun _ hw => by cases hw), ?_⟩
    rintro w' hw'
    cases hw'
    exact hparsed.short

theorem readPoints_bounded {script : List RecvResult} (h : (w.conns c).Bounded)
    (hclosing : (w.conns c).closing = false) :
    ∀ p ∈ readPoints cfg env c script w, p.Bounded c := by
  refine readPoints_rule (P := fun w => (w.conns c).Bounded ∧ (w.conns c).closing = false)
    (C := fun _ => True) ?_ ?_ ⟨h, hclosing⟩ (fun _ _ => trivial)
  · rintro w w' ⟨h, hclosing⟩ hreserve
    obtain ⟨h', hclosing', hroom⟩ := h.readReserve hclosing hreserve
    refine ⟨⟨h', hclosing'⟩, h'.toFits, ?_, (fun _ hw => by cases hw)⟩
    rintro w hw
    cases hw
    exact hroom
  · rintro - w bytes - ⟨h, -⟩ - -
    obtain ⟨hfits, hopen⟩ := h.receive bytes
    exact ⟨parsePoints_bounded hfits hopen,
      fun hclosing => ⟨hfits.parseAvailable cfg env hopen, hclosing⟩⟩

/-- A read keeps the buffer bounded. -/
theorem Conn.Bounded.connectionRead (h : (w.conns c).Bounded)
    (hclosing : (w.conns c).closing = false) (script : List RecvResult) :
    ((connectionRead cfg env c script w).conns c).Bounded := by
  refine connectionRead_rule
    (P := fun w => (w.conns c).Bounded ∧ (w.conns c).closing = false)
    (Q := fun w => (w.conns c).Bounded) ?_ ?_ (fun _ h => h.1) ?_ ?_ ⟨h, hclosing⟩
  · rintro w w' ⟨h, hclosing⟩ hreserve
    obtain ⟨h', hclosing', -⟩ := h.readReserve hclosing hreserve
    exact ⟨h', hclosing'⟩
  · rintro w w' ⟨h, -⟩ hreserve
    obtain ⟨hconns, -⟩ := readReserve_err hreserve
    exact Conn.Bounded.setClosing (by rw [hconns]; exact h)
  · rintro - w ⟨h, -⟩
    exact h.setClosing
  · rintro - w bytes - ⟨h, -⟩ -
    obtain ⟨hfits, hopen⟩ := h.receive bytes
    have hparsed := hfits.parseAvailable cfg env hopen
    exact ⟨hparsed, fun hclosing => ⟨hparsed, hclosing⟩⟩

/-- **The read memory of a connection is bounded, whatever the peer sends.** A new connection is
read any number of times, and every call of `recv` returns anything. Every `recv` is given 4096
bytes, what the parser leaves is shorter than the longest packet unless the connection is to be
closed, and the capacity of the buffer never passes two megabytes. -/
theorem read_memory_bounded (cfg : ServerConfig) (env : ℕ → Env) (w : Worker) (c : ℕ)
    (scripts : List (List RecvResult)) (hopen : (w.conns c).Open)
    (hbuf : (w.conns c).readBuf = []) (hcap : (w.conns c).readCap = 0) :
    (∀ w', .recv w' ∈ readAllPoints cfg env c scripts w →
      4096 ≤ (w'.conns c).readCap - (w'.conns c).readBuf.length) ∧
    (∀ w', .parsed w' ∈ readAllPoints cfg env c scripts w → (w'.conns c).closing = false →
      (w'.conns c).readBuf.length < 34 + 2 ^ 20) ∧
    (∀ p ∈ readAllPoints cfg env c scripts w,
      (p.worker.conns c).readBuf.length ≤ (p.worker.conns c).readCap ∧
        (p.worker.conns c).readCap ≤ 2 ^ 21) ∧
    ((readAll cfg env c scripts w).conns c).readBuf.length ≤
      ((readAll cfg env c scripts w).conns c).readCap ∧
    ((readAll cfg env c scripts w).conns c).readCap ≤ 2 ^ 21 := by
  have hstart : (w.conns c).Bounded := by
    refine ⟨⟨?_, .inl hcap⟩, hopen, ?_⟩
    · rw [hbuf]
      exact Nat.zero_le _
    · intro _
      rw [hbuf]
      decide
  obtain ⟨hpoints, hend⟩ : (∀ p ∈ readAllPoints cfg env c scripts w, p.Bounded c) ∧
      ((readAll cfg env c scripts w).conns c).Bounded :=
    readAllPoints_rule (P := fun w => (w.conns c).Bounded) (C := fun _ => True)
      (fun w script h hclosing _ => readPoints_bounded h hclosing)
      (fun w script h hclosing => h.connectionRead hclosing script) hstart (fun _ _ => trivial)
  refine ⟨?_, ?_, ?_, hend.len_le, hend.cap.le⟩
  · exact fun w' hw' => (hpoints _ hw').room w' rfl
  · exact fun w' hw' => (hpoints _ hw').short w' rfl
  · exact fun p hp => ⟨(hpoints p hp).fits.len_le, (hpoints p hp).fits.cap.le⟩

/-- A peer that announces a payload of one megabyte and sends its first bytes. -/
theorem read_memory_bounded_megabyte :
    let w := workerInit.setConn 0 { Conn.zero with fd := 3 }
    let header : List UInt8 := [2, 0, 0, 0, 0, 0, 0, 0, 0, 0, 0, 16, 0, 0] ++ List.replicate 20 0
    let scripts : List (List RecvResult) := [[.data header, .data (List.replicate 4096 7)]]
    ((readAll .plain (fun _ => .quiet) 0 scripts w).conns 0).readCap = 16384 ∧
      ∀ p ∈ readAllPoints .plain (fun _ => .quiet) 0 scripts w,
        (p.worker.conns 0).readBuf.length ≤ (p.worker.conns 0).readCap ∧
          (p.worker.conns 0).readCap ≤ 2 ^ 21 := by
  refine ⟨by decide +kernel, ?_⟩
  exact (read_memory_bounded .plain (fun _ => .quiet)
    (workerInit.setConn 0 { Conn.zero with fd := 3 }) 0
    [[.data ([2, 0, 0, 0, 0, 0, 0, 0, 0, 0, 0, 16, 0, 0] ++ List.replicate 20 0),
      .data (List.replicate 4096 7)]] ⟨rfl, by decide⟩ rfl rfl).2.2.1

end Bounded

end Wirecall

import Wirecall.Server.Reading

/-!
# What the server takes from a stream

The packets that `parse_available` hands on are the longest sequence of packets the stream starts
with, however the stream was cut into `recv` results and `connection_read` calls.

## Main definitions

* `packetsOf inst log`: the packets dispatched on a connection, in order
* `readAll`: a sequence of `connection_read` calls, as the worker loop makes them
* `PacketPrefix`: a stream starts with these packets
* `Framed`: the state of a connection between two reads

## Main results

* `handlePacket_effect`: what handling a packet does to its connection
* `framed_connectionRead`: a read keeps a connection framed
* `framing_of_stream`: **framing does not depend on the segmentation**
-/

namespace Wirecall

open Framing

/-- The packets dispatched on a connection, in order. -/
def packetsOf (inst : ℕ) (log : List Entry) : List (Header × List UInt8) :=
  log.filterMap fun
    | .dispatched request header payload _ =>
      if request.inst = inst then some (header, payload) else none
    | _ => none

@[simp] theorem packetsOf_append (inst : ℕ) (log log' : List Entry) :
    packetsOf inst (log ++ log') = packetsOf inst log ++ packetsOf inst log' :=
  List.filterMap_append

@[simp] theorem packetsOf_reply (inst target : ℕ) (request : Request) (op : Op)
    (procId callId : UInt64) :
    packetsOf inst [.reply target request op procId callId] = [] := rfl

@[simp] theorem packetsOf_completion (inst : ℕ) (request : Request) (ok : Bool) :
    packetsOf inst [.completion request ok] = [] := rfl

/-! ## What handling a packet does to its connection -/

/-- A connection with the fields that handling a packet may change taken from another. -/
def Conn.withOutputOf (conn new : Conn) : Conn :=
  { conn with
    writeBuf := new.writeBuf
    writeCap := new.writeCap
    writeQueued := new.writeQueued
    pendingDeferred := new.pendingDeferred
    closing := new.closing }

/-- What is left of a connection when packets were handled on it: only output, the count of
deferred calls and the mark for closing change. -/
structure Handled (w w' : Worker) (c : ℕ) (packets : List (Header × List UInt8)) : Prop where
  conn : w'.conns c = (w.conns c).withOutputOf (w'.conns c)
  closing : (w'.conns c).closing =
    ((w.conns c).closing || packets.any fun p => p.1.op == Op.disconnect.code)
  packets : packetsOf (w.conns c).inst w'.log = packetsOf (w.conns c).inst w.log ++ packets
  readFailed : w'.readFailed = w.readFailed

theorem Handled.refl (w : Worker) (c : ℕ) : Handled w w c [] :=
  ⟨rfl, by simp, by simp, rfl⟩

theorem Handled.trans {w w' w'' : Worker} {c : ℕ} {ps qs : List (Header × List UInt8)}
    (h : Handled w w' c ps) (h' : Handled w' w'' c qs) : Handled w w'' c (ps ++ qs) where
  conn := by
    rw [h'.conn, h.conn]
    rfl
  closing := by rw [h'.closing, h.closing, List.any_append, Bool.or_assoc]
  packets := by
    have hinst : (w'.conns c).inst = (w.conns c).inst := by rw [h.conn]; rfl
    rw [← hinst, h'.packets, hinst, h.packets, List.append_assoc]
  readFailed := h'.readFailed.trans h.readFailed

theorem Handled.isOpen {w w' : Worker} {c : ℕ} {ps : List (Header × List UInt8)}
    (h : Handled w w' c ps) (hopen : (w.conns c).Open) : (w'.conns c).Open := by
  rw [h.conn]
  exact hopen

theorem Churn.conns {w w' : Worker} (h : Churn w w') : w'.conns = w.conns := by
  cases h <;> rfl

theorem Churn.log {w w' : Worker} (h : Churn w w') : w'.log = w.log := by
  cases h <;> rfl

theorem Churn.readFailed {w w' : Worker} (h : Churn w w') : w'.readFailed = w.readFailed := by
  cases h <;> rfl

theorem Churn.queueFailed {w w' : Worker} (h : Churn w w') : w'.queueFailed = w.queueFailed := by
  cases h <;> rfl

section Effect

variable {cfg : ServerConfig} {env : Env} {w w' : Worker} {c : ℕ} {header : Header}
  {payload : List UInt8} {rc : Rc}

theorem packetsOf_dispatching (w : Worker) (c : ℕ) (header : Header) (payload : List UInt8) :
    packetsOf (w.conns c).inst (w.dispatching c header payload).log =
      packetsOf (w.conns c).inst w.log ++ [(header, payload)] := by
  change packetsOf _ (w.log ++ [_]) = _
  rw [packetsOf_append]
  congr 1
  simp [packetsOf, Worker.request]

/-- Queueing a reply, or failing to, is an effect of handling the packet that asked for it. -/
theorem Queues.handled {w₁ : Worker} {request : Request} {op : Op} {procId callId : UInt64}
    {data : List UInt8} (h : Queues cfg w₁ c request op procId callId data (rc, w'))
    (hconns : w₁.conns = w.conns)
    (hlog : packetsOf (w.conns c).inst w₁.log =
      packetsOf (w.conns c).inst w.log ++ [(header, payload)])
    (hread : w₁.readFailed = w.readFailed) (hop : header.op ≠ Op.disconnect.code) :
    Handled w w' c [(header, payload)] := by
  have hany : ([(header, payload)].any fun p => p.1.op == Op.disconnect.code) = false := by
    simpa using hop
  cases h with
  | queued hfront =>
    rw [Worker.queued_eq]
    refine ⟨?_, ?_, ?_, hread⟩
    · change Function.update w₁.conns c _ c = Conn.withOutputOf _ (Function.update w₁.conns c _ c)
      rw [Function.update_self, hconns]
      rfl
    · change (Function.update w₁.conns c _ c).closing = _
      rw [Function.update_self, hconns, hany, Bool.or_false]
      rfl
    · change packetsOf _ (w₁.log ++ [_]) = _
      rw [packetsOf_append, hlog, packetsOf_reply, List.append_nil]
  | failed bytes cap =>
    refine ⟨?_, ?_, hlog, hread⟩
    · change Function.update w₁.conns c _ c = Conn.withOutputOf _ (Function.update w₁.conns c _ c)
      rw [Function.update_self, hconns]
      rfl
    · change (Function.update w₁.conns c _ c).closing = _
      rw [Function.update_self, hconns, hany, Bool.or_false]
      rfl

/-- Completions of a deferred call change neither connections nor the packets on record. -/
theorem runDeferred_frame (w : Worker) (d : ℕ) (outcome : DeferredOutcome) (inst : ℕ) :
    (runDeferred w d outcome).conns = w.conns ∧
      packetsOf inst (runDeferred w d outcome).log = packetsOf inst w.log ∧
      (runDeferred w d outcome).readFailed = w.readFailed ∧
      (runDeferred w d outcome).queueFailed = w.queueFailed := by
  refine runDeferred_rule (P := fun w' => w'.conns = w.conns ∧
    packetsOf inst w'.log = packetsOf inst w.log ∧ w'.readFailed = w.readFailed ∧
    w'.queueFailed = w.queueFailed) ?_ ⟨rfl, rfl, rfl, rfl⟩ outcome
  rintro w' completion ⟨hconns, hlog, hread, hqueue⟩
  cases hdone : (w'.deferreds d).completed with
  | true =>
    rw [complete_of_completed hdone]
    refine ⟨hconns, ?_, hread, hqueue⟩
    rw [← hlog]
    simp [Worker.logEntry]
  | false =>
    obtain ⟨response, result, error, -, heq⟩ := complete_of_open hdone completion
    rw [heq]
    refine ⟨hconns, ?_, hread, hqueue⟩
    rw [← hlog]
    simp [Worker.logEntry]

/-- **What handling a packet does to its connection.** -/
theorem Handles.handled (h : Handles cfg env w c header payload (rc, w')) :
    Handled w w' c [(header, payload)] := by
  have hlog := packetsOf_dispatching w c header payload
  generalize hresult : (rc, w') = result at h
  cases h with
  | replied hchurn hreply hqueues =>
    subst hresult
    exact hqueues.handled hchurn.conns (by rw [hchurn.log]; exact hlog) hchurn.readFailed
      hreply.op_ne
  | notStarted halloc hreply hqueues =>
    rename_i result'
    obtain ⟨rc', w₁⟩ := result'
    cases hresult
    obtain ⟨hconn, hclosing, hpackets, hread⟩ := hqueues.handled (w := w) rfl hlog rfl hreply.op_ne
    exact ⟨hconn, hclosing, hpackets, hread⟩
  | disconnected hop =>
    cases hresult
    have hconn : ((w.dispatching c header payload).setClosing c).conns c =
        { w.conns c with closing := true } := Worker.conns_setConn_self _ _ _
    refine ⟨?_, ?_, hlog, rfl⟩
    · rw [hconn]
      rfl
    · rw [hconn]
      simp [hop]
  | issued outcome hop halloc hsucceeds =>
    cases hresult
    obtain ⟨hconns, hpackets, hread, -⟩ := runDeferred_frame
      (issueDeferred ((w.dispatching c header payload).takeDeferred _ _
        (newDeferred c (w.request c) header)) c _) _ outcome (w.conns c).inst
    have hne : (header.op == Op.disconnect.code) = false := by rw [hop]; rfl
    refine ⟨?_, ?_, hpackets.trans hlog, hread⟩
    · rw [hconns]
      change Function.update w.conns c _ c = Conn.withOutputOf _ (Function.update w.conns c _ c)
      rw [Function.update_self]
      rfl
    · rw [hconns]
      change (Function.update w.conns c _ c).closing = _
      rw [Function.update_self]
      simp [hne, Worker.takeDeferred, Worker.dispatching, logDispatch, Worker.logEntry]
  | submitted call args hop hasync halloc hconn hrequest =>
    cases hresult
    have hne : (header.op == Op.disconnect.code) = false := by rw [hop]; rfl
    refine ⟨rfl, ?_, hlog, rfl⟩
    simp [hne, Worker.startCall, Worker.takeCall, Worker.dispatching, logDispatch, Worker.logEntry]

/-- A packet that could not be handled shows that memory was short, and that is not forgotten. -/
theorem Handles.queueFailed (h : Handles cfg env w c header payload (rc, w')) :
    (w.queueFailed = true ∨ rc = .err) → w'.queueFailed = true := by
  have hqueues : ∀ {w₁ : Worker} {request : Request} {op : Op} {procId callId : UInt64}
      {data : List UInt8} {result : Rc × Worker},
      Queues cfg w₁ c request op procId callId data result → w₁.queueFailed = w.queueFailed →
      (w.queueFailed = true ∨ result.1 = .err) → result.2.queueFailed = true := by
    intro w₁ request op procId callId data result hq hw hfailed
    cases hq with
    | queued hfront =>
      rw [Worker.queued_eq]
      rcases hfailed with hfailed | hfailed
      · exact hw.trans hfailed
      · cases hfailed
    | failed bytes cap => rfl
  intro hfailed
  generalize hresult : (rc, w') = result at h
  cases h with
  | replied hchurn hreply hq =>
    subst hresult
    exact hqueues hq hchurn.queueFailed hfailed
  | notStarted halloc hreply hq =>
    rename_i result'
    cases hresult
    refine hqueues hq rfl ?_
    rcases hfailed with hfailed | hfailed
    · exact .inl hfailed
    · cases hfailed
  | disconnected hop =>
    cases hresult
    exact hfailed.resolve_right (fun h => by cases h)
  | issued outcome hop halloc hsucceeds =>
    cases hresult
    refine (runDeferred_frame _ _ outcome 0).2.2.2.trans ?_
    exact hfailed.resolve_right (fun h => by cases h)
  | submitted call args hop hasync halloc hconn hrequest =>
    cases hresult
    exact hfailed.resolve_right (fun h => by cases h)

end Effect

/-! ## Reading keeps a connection framed -/

/-- A buffer of the worker could not grow. -/
def Failed (w : Worker) : Prop := w.queueFailed = true ∨ w.readFailed = true

/-- **A connection between two reads**: what was received is the packets dispatched so far
followed by the read buffer. Unless the connection is to be closed, more input is needed for the
next packet; otherwise no packet can follow, or the peer disconnected. -/
structure Framed (i : Integrity) (w : Worker) (c inst : ℕ) : Prop where
  inst_eq : (w.conns c).inst = inst
  parses : Parses (packetFormat i) (w.conns c).received (packetsOf inst w.log) (w.conns c).readBuf
  idle : (w.conns c).closing = false → packetHead i (w.conns c).readBuf = .more ∧
    ∀ p ∈ packetsOf inst w.log, p.1.op ≠ Op.disconnect.code
  closed : (w.conns c).closing = true → packetHead i (w.conns c).readBuf = .bad ∨
    ∃ p ∈ packetsOf inst w.log, p.1.op = Op.disconnect.code

/-- A connection that received nothing yet. -/
theorem Framed.start {i : Integrity} {w : Worker} {c : ℕ} (hbuf : (w.conns c).readBuf = [])
    (hreceived : (w.conns c).received = []) (hclosing : (w.conns c).closing = false)
    (hnew : packetsOf (w.conns c).inst w.log = []) : Framed i w c (w.conns c).inst := by
  refine ⟨rfl, ?_, ?_, ?_⟩
  · rw [hreceived, hnew, hbuf]
    exact .nil _
  · intro _
    rw [hbuf, hnew]
    exact ⟨rfl, fun _ h => by cases h⟩
  · intro h
    rw [hclosing] at h
    cases h

section Reading

variable {cfg : ServerConfig} {env : ℕ → Env} {w : Worker} {c inst : ℕ}

/-- **What parsing does**: unless memory is short, it dispatches the packets at the front of the
buffer and stops where none follows. -/
theorem parseAvailable_spec {w' : Worker} (hopen : (w.conns c).Open)
    (hclosing : (w.conns c).closing = false) (hw' : parseAvailable cfg env w c = w') :
    (w'.conns c).Open ∧ (Failed w → Failed w') ∧
    (Failed w' ∨
      ∃ packets rest, Parses (packetFormat cfg.integrity) (w.conns c).readBuf packets rest ∧
        packetsOf (w.conns c).inst w'.log = packetsOf (w.conns c).inst w.log ++ packets ∧
        (w'.conns c).inst = (w.conns c).inst ∧
        (w'.conns c).received = (w.conns c).received ∧ (w'.conns c).readBuf = rest ∧
        ((packetHead cfg.integrity rest = .more ∧ (w'.conns c).closing =
            packets.any fun p => p.1.op == Op.disconnect.code) ∨
          (packetHead cfg.integrity rest = .bad ∧ (w'.conns c).closing = true))) := by
  obtain ⟨parsed, hparsed⟩ : ∃ parsed, parseLoop cfg.integrity
      (fun w header payload => handlePacket cfg env w c header payload)
      (w.conns c).readBuf (w.conns c).readBuf.length 0 w = parsed := ⟨_, rfl⟩
  -- along the loop, the packets handled so far are those the buffer starts with
  have hrule := parseLoop_rule (P := fun off s => (w.queueFailed = true → s.queueFailed = true) ∧
      ∃ packets, Handled w s c packets ∧ Parses (packetFormat cfg.integrity)
        (w.conns c).readBuf packets ((w.conns c).readBuf.drop off))
    (Nat.zero_le _) (by omega) ⟨id, [], Handled.refl w c, .nil _⟩ ?_ parsed hparsed
  swap
  · rintro off s header payload n s' ⟨hfailed, packets, hhandled, hparses⟩ hhead hhandle
    have hhandles := handlePacket_handles cfg env (hhandled.isOpen hopen) header payload
    rw [hhandle] at hhandles
    refine ⟨fun h => hhandles.queueFailed (.inl (hfailed h)), packets ++ [(header, payload)],
      hhandled.trans hhandles.handled, ?_⟩
    rw [← List.drop_drop]
    exact hparses.trans (.single hhead)
  rw [parseAvailable_eq parsed hparsed] at hw'
  subst hw'
  simp only [Worker.conns_setConn_self]
  rcases hrule with ⟨⟨hfailed, packets, hhandled, hparses⟩, hstop⟩ |
    ⟨s, header, payload, n, ⟨-, packets, hhandled, -⟩, -, hhandle, -⟩
  · have hconn := hhandled.conn
    have hdone := hhandled.closing
    rw [hclosing, Bool.false_or] at hdone
    refine ⟨hhandled.isOpen hopen, ?_,
      .inr ⟨packets, _, hparses, hhandled.packets, ?_, ?_, ?_, ?_⟩⟩
    · rintro (h | h)
      · exact .inl (hfailed h)
      · exact .inr (hhandled.readFailed.trans h)
    · rw [hconn]
      rfl
    · rw [hconn]
      rfl
    · rw [hconn]
      rfl
    · rcases hstop with ⟨hmore, hclose⟩ | ⟨hbad, hclose⟩
      · exact .inl ⟨hmore, by rw [hclose, Bool.or_false, hdone]⟩
      · exact .inr ⟨hbad, by rw [hclose, Bool.or_true]⟩
  · -- a packet that could not be handled: memory was short
    have hhandles := handlePacket_handles cfg env (hhandled.isOpen hopen) header payload
    rw [hhandle] at hhandles
    have hqueue : parsed.state.queueFailed = true := hhandles.queueFailed (.inr rfl)
    exact ⟨(hhandled.trans hhandles.handled).isOpen hopen, fun _ => .inl hqueue, .inl (.inl hqueue)⟩

/-- Bytes that arrive are appended to the buffer and put on record. -/
theorem receive_conns (w : Worker) (c : ℕ) (bytes : List UInt8) :
    (receive w c bytes).conns c =
      { w.conns c with
        readBuf := (w.conns c).readBuf ++
          bytes.take ((w.conns c).readCap - (w.conns c).readBuf.length)
        received := (w.conns c).received ++
          bytes.take ((w.conns c).readCap - (w.conns c).readBuf.length) } := by
  rw [receive, Worker.conns_setConn_self]

theorem readReserve_ok {w' : Worker} (h : readReserve env w c = (.ok, w')) :
    (∃ cap, w'.conns c = { w.conns c with readCap := cap }) ∧ w'.log = w.log ∧
      w'.queueFailed = w.queueFailed ∧ w'.readFailed = w.readFailed := by
  unfold readReserve at h
  simp only at h
  split_ifs at h with hroom
  · split at h
    · cases h
    · cases h
      exact ⟨⟨_, Worker.conns_setConn_self _ _ _⟩, rfl, rfl, rfl⟩
  · cases h
    exact ⟨⟨(w.conns c).readCap, rfl⟩, rfl, rfl, rfl⟩

theorem readReserve_err {w' : Worker} (h : readReserve env w c = (.err, w')) :
    w'.conns = w.conns ∧ w'.readFailed = true := by
  unfold readReserve at h
  simp only at h
  split_ifs at h with hroom
  · split at h
    · cases h
      exact ⟨rfl, rfl⟩
    · cases h
  · cases h

variable (cfg env) in
/-- **A read keeps a connection framed**, unless memory is short. -/
theorem framed_connectionRead {script : List RecvResult}
    (hscript : ∀ r ∈ script, r ≠ .error ∧ r ≠ .data [])
    (hopen : (w.conns c).Open) (hclosing : (w.conns c).closing = false)
    (hframed : Failed w ∨ Framed cfg.integrity w c inst) :
    ((connectionRead cfg env c script w).conns c).Open ∧
      (Failed (connectionRead cfg env c script w) ∨
        Framed cfg.integrity (connectionRead cfg env c script w) c inst) := by
  refine connectionRead_rule
    (P := fun w => (w.conns c).Open ∧ (w.conns c).closing = false ∧
      (Failed w ∨ Framed cfg.integrity w c inst))
    (Q := fun w => (w.conns c).Open ∧ (Failed w ∨ Framed cfg.integrity w c inst))
    ?_ ?_ (fun w h => ⟨h.1, h.2.2⟩) ?_ ?_ ⟨hopen, hclosing, hframed⟩
  · -- room for more input changes nothing that matters here
    rintro w w' ⟨hopen, hclosing, hframed⟩ hreserve
    obtain ⟨⟨cap, hconn⟩, hlog, hqueue, hread⟩ := readReserve_ok hreserve
    refine ⟨by rw [hconn]; exact hopen, by rw [hconn]; exact hclosing, ?_⟩
    rcases hframed with (h | h) | hframed
    · exact .inl (.inl (hqueue.trans h))
    · exact .inl (.inr (hread.trans h))
    · refine .inr ⟨?_, ?_, ?_, ?_⟩
      · rw [hconn]; exact hframed.inst_eq
      · rw [hconn, hlog]; exact hframed.parses
      · rw [hconn, hlog]; exact hframed.idle
      · rw [hconn, hlog]; exact hframed.closed
  · rintro w w' ⟨hopen, -, -⟩ hreserve
    obtain ⟨hconns, hread⟩ := readReserve_err hreserve
    refine ⟨?_, .inl (.inr hread)⟩
    rw [Worker.setClosing, Worker.conns_setConn_self, hconns]
    exact hopen
  · rintro ⟨r, hr, hfault | hfault⟩
    · exact absurd hfault (hscript r hr).1
    · exact absurd hfault (hscript r hr).2
  · rintro w₀ w bytes - ⟨hopen, hclosing, hframed⟩ -
    have hrecv := receive_conns w c bytes
    obtain ⟨w', hw'⟩ : ∃ w', parseAvailable cfg env (receive w c bytes) c = w' := ⟨_, rfl⟩
    obtain ⟨hopen', hfailed, hparsed⟩ := parseAvailable_spec
      (by rw [hrecv]; exact hopen) (by rw [hrecv]; exact hclosing) hw'
    rw [hw']
    suffices hframed' : Failed w' ∨ Framed cfg.integrity w' c inst from
      ⟨⟨hopen', hframed'⟩, fun hclosing' => ⟨hopen', hclosing', hframed'⟩⟩
    rcases hframed with h | hframed
    · exact .inl (hfailed h)
    rcases hparsed with h | ⟨packets, rest, hparses, hpackets, hinst, hreceived, hrest, hstop⟩
    · exact .inl h
    rw [hrecv] at hparses hpackets hinst hreceived
    simp only at hparses hpackets hinst hreceived
    rw [hframed.inst_eq] at hpackets hinst
    have hidle := hframed.idle hclosing
    refine .inr ⟨hinst, ?_, ?_, ?_⟩
    · rw [hreceived, hpackets, hrest]
      exact (hframed.parses.append _).trans hparses
    · intro hopen
      rw [hrest, hpackets]
      rcases hstop with ⟨hmore, hclose⟩ | ⟨-, hclose⟩
      · refine ⟨hmore, ?_⟩
        intro p hp
        rcases List.mem_append.mp hp with hp | hp
        · exact hidle.2 p hp
        · rw [hclose] at hopen
          simpa using List.any_eq_false.mp hopen p hp
      · rw [hclose] at hopen
        cases hopen
    · intro hclosed
      rw [hrest, hpackets]
      rcases hstop with ⟨-, hclose⟩ | ⟨hbad, -⟩
      · rw [hclose] at hclosed
        obtain ⟨p, hp, hop⟩ := List.any_eq_true.mp hclosed
        exact .inr ⟨p, List.mem_append_right _ hp, by simpa using hop⟩
      · exact .inl hbad

/-! ## Any number of reads -/

/-- The reads of a connection: one script for each time it is readable. A connection that is to
be closed is not read any more. -/
def readAll (cfg : ServerConfig) (env : ℕ → Env) (c : ℕ) : List (List RecvResult) → Worker → Worker
  | [], w => w
  | script :: scripts, w =>
    readAll cfg env c scripts
      (if (w.conns c).closing then w else connectionRead cfg env c script w)

variable (cfg env) in
theorem framed_readAll {scripts : List (List RecvResult)}
    (hscripts : ∀ script ∈ scripts, ∀ r ∈ script, r ≠ .error ∧ r ≠ .data [])
    (hopen : (w.conns c).Open) (hframed : Failed w ∨ Framed cfg.integrity w c inst) :
    Failed (readAll cfg env c scripts w) ∨
      Framed cfg.integrity (readAll cfg env c scripts w) c inst := by
  induction scripts generalizing w with
  | nil => exact hframed
  | cons script scripts ih =>
    have hscripts' := fun s hs => hscripts s (List.mem_cons_of_mem _ hs)
    rw [readAll]
    split
    · exact ih hscripts' hopen hframed
    · rename_i hclosing
      obtain ⟨hopen', hframed'⟩ := framed_connectionRead cfg env
        (hscripts script List.mem_cons_self) hopen (by simpa using hclosing) hframed
      exact ih hscripts' hopen' hframed'

/-- **Framing does not depend on segmentation.** A new connection is read any number of times,
and every call of `recv` returns any number of bytes, would block or is interrupted. Let `stream`
be what the peer sends: all of it was received, or the connection is to be closed. If only the
last packet of the stream may be a DISCONNECT, and no buffer failed to grow, then the packets
dispatched are the longest front of the stream made of packets, and the connection is to be closed
exactly when what follows starts with no packet or a DISCONNECT was dispatched. -/
theorem framing_of_stream (cfg : ServerConfig) (env : ℕ → Env) (w : Worker) (c : ℕ)
    (scripts : List (List RecvResult)) (stream undelivered : List UInt8)
    (hopen : (w.conns c).Open) (hclosing : (w.conns c).closing = false)
    (hbuf : (w.conns c).readBuf = []) (hreceived : (w.conns c).received = [])
    (hnew : packetsOf (w.conns c).inst w.log = [])
    (hscripts : ∀ script ∈ scripts, ∀ r ∈ script, r ≠ .error ∧ r ≠ .data [])
    (hstream : stream = ((readAll cfg env c scripts w).conns c).received ++ undelivered)
    (hall : ((readAll cfg env c scripts w).conns c).closing = false → undelivered = [])
    (hqueue : (readAll cfg env c scripts w).queueFailed = false)
    (hread : (readAll cfg env c scripts w).readFailed = false)
    (hlast : ∀ packets rest, PacketSeq cfg.integrity stream packets rest →
      ∀ p ∈ packets.dropLast, p.1.op ≠ Op.disconnect.code) :
    ∃ rest, LongestPackets cfg.integrity stream
        (packetsOf (w.conns c).inst (readAll cfg env c scripts w).log) rest ∧
      (((readAll cfg env c scripts w).conns c).closing = true ↔
        (headerSize ≤ rest.length ∧ headerDecode (rest.take headerSize) = none) ∨
        (∃ front payload after header, rest = front ++ payload ++ after ∧
          front.length = headerSize ∧ headerDecode front = some header ∧
          payload.length = header.size.toNat ∧
          packetVerifyEx cfg.integrity header payload = false) ∨
        ∃ p ∈ packetsOf (w.conns c).inst (readAll cfg env c scripts w).log,
          p.1.op = Op.disconnect.code) := by
  have hstart : Framed cfg.integrity w c (w.conns c).inst :=
    .start hbuf hreceived hclosing hnew
  obtain hfailed | hframed := framed_readAll cfg env hscripts hopen (.inr hstart)
  · rcases hfailed with h | h
    · rw [hqueue] at h
      cases h
    · rw [hread] at h
      cases h
  generalize readAll cfg env c scripts w = w' at *
  obtain ⟨-, hparses, hidle, hclosed⟩ := hframed
  generalize packetsOf (w.conns c).inst w'.log = packets at *
  -- what was not delivered stays behind what no packet starts with
  have hwhole : Parses (packetFormat cfg.integrity) stream packets
      ((w'.conns c).readBuf ++ undelivered) := hstream ▸ hparses.append undelivered
  have hbad (h : packetHead cfg.integrity (w'.conns c).readBuf = .bad) :
      packetHead cfg.integrity ((w'.conns c).readBuf ++ undelivered) = .bad :=
    (packetFormat cfg.integrity).bad_append undelivered h
  have hmore (h : (w'.conns c).closing = false) :
      packetHead cfg.integrity ((w'.conns c).readBuf ++ undelivered) = .more := by
    rw [hall h, List.append_nil]
    exact (hidle h).1
  have hstuck : Stuck (packetFormat cfg.integrity) ((w'.conns c).readBuf ++ undelivered) := by
    cases hc : (w'.conns c).closing with
    | false => exact .of_more (hmore hc)
    | true =>
      rcases hclosed hc with h | ⟨q, hq, hop⟩
      · exact .of_bad (hbad h)
      · -- a further packet would stand after the DISCONNECT
        intro p n hhead
        have hseq := parses_iff_packetSeq.mp (hwhole.trans (.single hhead))
        exact hlast _ _ hseq q (by rwa [List.dropLast_concat]) hop
  refine ⟨_, longestPackets_of_maximal ⟨hwhole, hstuck⟩, ?_⟩
  rw [← or_assoc, ← packetHead_eq_bad_iff]
  constructor
  · intro hc
    exact (hclosed hc).imp_left hbad
  · intro h
    by_contra hne
    have hc : (w'.conns c).closing = false := by simpa using hne
    rcases h with h | ⟨q, hq, hop⟩
    · rw [hmore hc] at h
      cases h
    · exact (hidle hc).2 q hq hop

/-- The bytes of a PING and of a DISCONNECT. -/
def pingThenDisconnect : List UInt8 :=
  [2, 0, 0, 0, 0, 0, 0, 0, 0, 0, 0, 0, 0, 0, 0, 0, 0, 0, 0, 0, 0, 7, 0, 0, 0, 0,
    0, 0, 0, 0, 0, 0, 0, 0] ++
  [3, 0, 0, 0, 0, 0, 0, 0, 0, 0, 0, 0, 0, 0, 0, 0, 0, 0, 0, 0, 0, 8, 0, 0, 0, 0,
    0, 0, 0, 0, 0, 0, 0, 0]

/-- A PING that arrives in two pieces, and the rest of a DISCONNECT in a second read. -/
theorem framing_of_ping_disconnect :
    let w := workerInit.setConn 0 { Conn.zero with fd := 3 }
    let w' := readAll .plain (fun _ => .quiet) 0
      [[.data (pingThenDisconnect.take 20), .interrupted,
        .data ((pingThenDisconnect.drop 20).take 30), .wouldBlock],
       [.data (pingThenDisconnect.drop 50)]] w
    (packetsOf 0 w'.log).map (fun p => p.1.op) = [2, 3] ∧
    ∃ rest, LongestPackets ServerConfig.plain.integrity pingThenDisconnect
        (packetsOf (w.conns 0).inst w'.log) rest := by
  have hfront : Maximal (packetFormat ServerConfig.plain.integrity) pingThenDisconnect
      [(⟨2, 0, 0, 0, 7, 0, 0⟩, []), (⟨3, 0, 0, 0, 8, 0, 0⟩, [])] [] := by
    refine ⟨.cons (n := 34) ?_ (.cons (n := 34) ?_ (.nil _)), .of_more rfl⟩
    · simp only [packetFormat]
      decide +kernel
    · simp only [packetFormat]
      decide +kernel
  have hlast : ∀ packets rest, PacketSeq ServerConfig.plain.integrity pingThenDisconnect packets
      rest → ∀ p ∈ packets.dropLast, p.1.op ≠ Op.disconnect.code := by
    intro packets rest hseq p hp
    obtain ⟨more, hmore, -⟩ := (parses_iff_packetSeq.mpr hseq).split hfront
    match packets, hmore, hp with
    | [a, b], hmore, hp =>
      obtain rfl : p = a := by simpa using hp
      obtain ⟨rfl, -⟩ := List.cons_eq_cons.mp hmore
      decide
  refine ⟨by decide +kernel, ?_⟩
  obtain ⟨rest, hrest, -⟩ := framing_of_stream .plain (fun _ => .quiet)
    (workerInit.setConn 0 { Conn.zero with fd := 3 }) 0
    [[.data (pingThenDisconnect.take 20), .interrupted,
        .data ((pingThenDisconnect.drop 20).take 30), .wouldBlock],
       [.data (pingThenDisconnect.drop 50)]] pingThenDisconnect []
    ⟨rfl, by decide⟩ rfl rfl rfl rfl (by decide) (by decide +kernel)
    (fun _ => rfl) (by decide +kernel) (by decide +kernel) hlast
  exact ⟨rest, hrest⟩

end Reading

end Wirecall

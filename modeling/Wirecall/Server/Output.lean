import Wirecall.Machine.Run
import Wirecall.Server.Framing

/-!
# The output of a connection

`queue_packet` appends to the output of a connection, `connection_write` sends from its front. A
run of the two on one connection is a run of a small machine: whatever the socket accepts, nothing
is lost, repeated or reordered.

`queue_packet` appends a header and a payload one after the other. If the buffer cannot grow for
the payload, it reports a failure and leaves the header where it is.

## Main definitions

* `QueueOutcome`: what `queue_packet` comes to
* `OutputOp`, `outputStep`: a packet is queued with success, or the connection is written
* `OutputOp.packet`: the bytes an operation adds to the output
* `TearsPacket`: the packet gets past the checks, and the buffer takes its header and not its payload
* `OutputKept`: what a caller that sees `-1` relies on

## Main results

* `output_in_order`: **the output is lossless and in order**
* `failed_queue_keeps_output`: **a failed `queue_packet` leaves the output alone exactly if it does
  not tear the packet**
-/

namespace Wirecall

/-! ## What queueing and writing do to the buffer -/

/-- `queue_packet` gets past its checks, and the output buffer takes the header of the packet and not
its payload. -/
structure TearsPacket (cfg : ServerConfig) (mem : Mem) (conn : Conn) (payload : List UInt8) :
    Prop where
  attached : conn.detached = false ∧ 0 ≤ conn.fd
  short : payload.length ≤ maxPayloadSize
  key : cfg.integrity.HasKey
  front : TakesMore mem conn.writeBuf.length conn.writeCap headerSize
  rest : ¬ TakesMore mem (conn.writeBuf.length + headerSize)
    (capAfter conn.writeBuf.length conn.writeCap headerSize) payload.length

/-- **What `queue_packet` comes to**: nothing changes; the buffer takes neither header nor payload;
it takes the header only; or it takes both. -/
inductive QueueOutcome (cfg : ServerConfig) (mem : Mem) (w : Worker) (c : ℕ) (request : Request)
    (op : Op) (procId callId : UInt64) (payload : List UInt8) : Rc × Worker → Prop
  | refused (hwhole : ¬ TearsPacket cfg mem (w.conns c) payload) :
      QueueOutcome cfg mem w c request op procId callId payload (.err, w)
  | full (hwhole : ¬ TearsPacket cfg mem (w.conns c) payload) :
      QueueOutcome cfg mem w c request op procId callId payload (.err, w.failQueue)
  | torn {front : List UInt8} {cap : ℕ} (htears : TearsPacket cfg mem (w.conns c) payload)
      (hlen : front.length = headerSize) :
      QueueOutcome cfg mem w c request op procId callId payload
        (.err, (w.setConn c ((w.conns c).appendOut front cap)).failQueue)
  | queued {front : List UInt8} {cap : ℕ} (hwhole : ¬ TearsPacket cfg mem (w.conns c) payload)
      (hlen : payload.length ≤ maxPayloadSize)
      (hfront : signedHeader cfg.integrity op procId callId payload = some front)
      (hcap : (w.conns c).writeBuf.length ≤ (w.conns c).writeCap →
        ((w.conns c).writeBuf ++ (front ++ payload)).length ≤ cap) :
      QueueOutcome cfg mem w c request op procId callId payload
        (.ok, w.queued c ((w.conns c).appendOut (front ++ payload) cap)
          (.reply (w.conns c).inst request op procId callId))

theorem queuePacket_outcome (cfg : ServerConfig) (mem : Mem) (w : Worker) (c : ℕ)
    (request : Request) (op : Op) (procId callId : UInt64) (payload : List UInt8) :
    QueueOutcome cfg mem w c request op procId callId payload
      (queuePacket cfg mem w c request op procId callId payload) := by
  unfold queuePacket
  simp only
  by_cases hclosed : (w.conns c).detached = true ∨ (w.conns c).fd < 0
  · rw [if_pos hclosed]
    refine .refused fun htears => ?_
    rcases hclosed with hdetached | hfd
    · exact absurd htears.attached.1 (by simp [hdetached])
    · exact absurd htears.attached.2 (by omega)
  by_cases hlong : payload.length > maxPayloadSize
  · rw [if_neg hclosed, if_pos hlong]
    exact .refused fun htears => absurd htears.short (by omega)
  rw [if_neg hclosed, if_neg hlong]
  have hshort : payload.length ≤ maxPayloadSize := Nat.not_lt.mp hlong
  have hkey := @isSome_signedHeader cfg.integrity op procId callId payload hshort
  cases hfront : signedHeader cfg.integrity op procId callId payload with
  | none =>
    refine .refused fun htears => ?_
    have hsome := hkey.mpr htears.key
    rw [hfront] at hsome
    cases hsome
  | some front =>
    have hlen := length_signedHeader hfront
    simp only
    cases happ : appendBytes mem (w.conns c).writeBuf (w.conns c).writeCap front with
    | none =>
      refine .full fun htears => appendBytes_eq_none_iff.mp happ ?_
      rw [hlen]
      exact htears.front
    | some grown =>
      obtain ⟨buf, cap⟩ := grown
      obtain rfl := appendBytes_eq_some happ
      have hcap := cap_of_appendBytes happ (by rw [hlen]; decide)
      simp only
      cases happ' : appendBytes mem ((w.conns c).writeBuf ++ front) cap payload with
      | none =>
        have hrest := appendBytes_eq_none_iff.mp happ'
        rw [List.length_append, hlen, hcap, hlen] at hrest
        refine .torn ⟨by simpa using hclosed, hshort, ?_, ?_, hrest⟩ hlen
        · exact hkey.mp (by rw [hfront]; rfl)
        · by_contra htakes
          rw [← hlen, ← appendBytes_eq_none_iff, happ] at htakes
          cases htakes
      | some grown' =>
        obtain ⟨buf', cap'⟩ := grown'
        obtain rfl := appendBytes_eq_some happ'
        simp only [Worker.setConn_setConn, List.append_assoc]
        refine .queued (fun htears => ?_) hshort hfront fun hfits => ?_
        · have hrest := htears.rest
          rw [← hlen, ← hcap, ← List.length_append, ← appendBytes_eq_none_iff, happ'] at hrest
          cases hrest
        · rw [← List.append_assoc]
          exact length_le_of_appendBytes happ' (length_le_of_appendBytes happ hfits)

/-- A write leaves the buffer as it is, or empties it. -/
theorem sendLoop_writeBuf (modify : Bool) (script : List SendResult) (conn : Conn) :
    (sendLoop modify script conn).writeBuf = conn.writeBuf ∨
      (sendLoop modify script conn).writeBuf = [] := by
  have hinterests (conn : Conn) (interests : Interest) :
      (setInterests modify conn interests).writeBuf = conn.writeBuf := by
    unfold setInterests
    split_ifs <;> rfl
  induction script generalizing conn with
  | nil =>
    rw [sendLoop]
    split_ifs
    · exact .inl (hinterests _ _)
    · exact .inr (hinterests _ _)
  | cons r script ih =>
    rw [sendLoop]
    split_ifs
    · cases r with
      | sent n =>
        cases n with
        | zero => exact .inl rfl
        | succ n => exact ih _
      | interrupted => exact ih _
      | wouldBlock => exact .inl (hinterests _ _)
      | error => exact .inl rfl
    · exact .inr (hinterests _ _)

/-! ## Any number of packets and writes -/

/-- An operation on the output of a connection. -/
inductive OutputOp where
  /-- A packet is queued; `mem` is the allocator during the call. -/
  | queue (mem : Mem) (request : Request) (op : Op) (procId callId : UInt64)
      (payload : List UInt8)
  /-- The connection is written; the list is what the socket calls return. -/
  | write (env : ℕ → Env) (script : List SendResult)

/-- The operations of a connection. A packet that could not be queued ends the run. -/
def outputStep (cfg : ServerConfig) (c : ℕ) (w : Worker) : OutputOp → Option Worker
  | .queue mem request op procId callId payload =>
    match queuePacket cfg mem w c request op procId callId payload with
    | (.ok, w) => some w
    | (.err, _) => none
  | .write env script => some (connectionWrite env w c script)

/-- The bytes an operation adds to the output: a header and a payload. -/
def OutputOp.packet (cfg : ServerConfig) : OutputOp → List UInt8
  | .queue _ _ op procId callId payload =>
    (signedHeader cfg.integrity op procId callId payload).getD [] ++ payload
  | .write _ _ => []

/-- The bytes of a packet that can be queued are a header of 34 bytes and the payload. -/
def OutputOp.IsWhole (cfg : ServerConfig) : OutputOp → Prop
  | .queue mem request op procId callId payload =>
    ∃ front : List UInt8, front.length = 34 ∧
      (OutputOp.queue mem request op procId callId payload).packet cfg = front ++ payload
  | .write _ _ => True

/-- The indices of the output buffer are in order. -/
structure Conn.OutputFits (conn : Conn) : Prop where
  off_le : conn.writeOff ≤ conn.writeBuf.length
  len_le : conn.writeBuf.length ≤ conn.writeCap

section Output

variable {cfg : ServerConfig} {w w' : Worker} {c : ℕ}

/-- **One operation** adds its bytes at the end of the output, and the indices stay in order. -/
theorem outputStep_output {o : OutputOp} (hfits : (w.conns c).OutputFits)
    (hstep : outputStep cfg c w o = some w') :
    (w'.conns c).output = (w.conns c).output ++ o.packet cfg ∧ (w'.conns c).OutputFits ∧
      o.IsWhole cfg := by
  cases o with
  | queue mem request op procId callId payload =>
    rw [outputStep] at hstep
    have houtcome := queuePacket_outcome cfg mem w c request op procId callId payload
    generalize queuePacket cfg mem w c request op procId callId payload = result at hstep houtcome
    cases houtcome with
    | refused => cases hstep
    | full => cases hstep
    | torn => cases hstep
    | @queued front cap hwhole hlen hfront hcap =>
      obtain rfl := Option.some.inj hstep
      have hpacket : (OutputOp.queue mem request op procId callId payload).packet cfg =
          front ++ payload := by
        rw [OutputOp.packet, hfront]
        rfl
      rw [Worker.queued_eq]
      change (Function.update w.conns c _ c).output = _ ∧
        (Function.update w.conns c _ c).OutputFits ∧ _
      rw [Function.update_self, hpacket]
      refine ⟨Conn.output_appendOut hfits.off_le _ cap, ⟨?_, hcap hfits.len_le⟩, front, ?_, hpacket⟩
      · change (w.conns c).writeOff ≤ ((w.conns c).writeBuf ++ (front ++ payload)).length
        rw [List.length_append]
        exact hfits.off_le.trans (Nat.le_add_right _ _)
      · exact length_signedHeader hfront
  | write env script =>
    obtain rfl : connectionWrite env w c script = w' := Option.some.inj hstep
    have hsends := sendLoop_sends (env w.tick).modify script (w.conns c)
    have hself : (connectionWrite env w c script).conns c =
        sendLoop (env w.tick).modify script (w.conns c) := Worker.conns_setConn_self _ _ _
    have hcap : (sendLoop (env w.tick).modify script (w.conns c)).writeCap =
        (w.conns c).writeCap := by
      rw [hsends.same]
      rfl
    rw [hself]
    refine ⟨?_, ⟨hsends.off_le hfits.off_le, ?_⟩, trivial⟩
    · rw [hsends.output]
      exact (List.append_nil _).symm
    · rw [hcap]
      rcases sendLoop_writeBuf (env w.tick).modify script (w.conns c) with hbuf | hbuf
      · rw [hbuf]
        exact hfits.len_le
      · rw [hbuf]
        exact Nat.zero_le _

/-- **The output of a connection is lossless and in order.** Packets are queued and the connection
is written in any order, and the socket does anything. What the socket accepted, followed by the
unsent bytes, is what the output was before, followed by the packets in the order they were queued;
on a new connection it is the packets. Each is a header of 34 bytes and a payload, and the indices
of the buffer are in order. -/
theorem output_in_order (cfg : ServerConfig) (c : ℕ) (w w' : Worker) (ops : List OutputOp)
    (hoff : (w.conns c).writeOff ≤ (w.conns c).writeBuf.length)
    (hlen : (w.conns c).writeBuf.length ≤ (w.conns c).writeCap)
    (hrun : Machine.exec (outputStep cfg c) w ops = some w') :
    (w'.conns c).sent ++ (w'.conns c).writeBuf.drop (w'.conns c).writeOff =
      (w.conns c).sent ++ (w.conns c).writeBuf.drop (w.conns c).writeOff ++
        (ops.map (OutputOp.packet cfg)).flatten ∧
    (∀ o ∈ ops, o.IsWhole cfg) ∧
    (w'.conns c).writeOff ≤ (w'.conns c).writeBuf.length ∧
    (w'.conns c).writeBuf.length ≤ (w'.conns c).writeCap := by
  suffices hall : (w'.conns c).output =
      (w.conns c).output ++ (ops.map (OutputOp.packet cfg)).flatten ∧
      (∀ o ∈ ops, o.IsWhole cfg) ∧ (w'.conns c).OutputFits from
    ⟨hall.1, hall.2.1, hall.2.2.off_le, hall.2.2.len_le⟩
  have hfits : (w.conns c).OutputFits := ⟨hoff, hlen⟩
  clear hoff hlen
  induction ops generalizing w with
  | nil =>
    obtain rfl : w = w' := Option.some.inj hrun
    exact ⟨(List.append_nil _).symm, List.forall_mem_nil _, hfits⟩
  | cons o ops ih =>
    obtain ⟨w₁, hstep, hrest⟩ := Machine.exec_cons_eq_some.mp hrun
    obtain ⟨houtput₁, hfits₁, hwhole₁⟩ := outputStep_output hfits hstep
    obtain ⟨houtput, hwhole, hfits'⟩ := ih w₁ hrest hfits₁
    refine ⟨?_, List.forall_mem_cons.mpr ⟨hwhole₁, hwhole⟩, hfits'⟩
    rw [houtput, houtput₁, List.map_cons, List.flatten_cons, List.append_assoc]

/-- Two packets with a partial write between them, and an interruption and an error after them. -/
theorem output_in_order_two :
    let w := workerInit.setConn 0 { Conn.zero with fd := 3 }
    let ops : List OutputOp :=
      [.queue (fun _ => true) ⟨0, 0⟩ .response 1 1 [9, 9], .write (fun _ => .quiet) [.sent 7],
        .queue (fun _ => true) ⟨0, 1⟩ .response 1 2 [8],
        .write (fun _ => .quiet) [.interrupted, .sent 40, .error]]
    ∃ w', Machine.exec (outputStep .plain 0) w ops = some w' ∧
      (w'.conns 0).sent.length = 47 ∧ (w'.conns 0).closing = true ∧
      (w'.conns 0).sent ++ (w'.conns 0).writeBuf.drop (w'.conns 0).writeOff =
        (ops.map (OutputOp.packet .plain)).flatten := by
  intro w ops
  obtain ⟨w', hrun, h⟩ := Machine.exists_of_any
    (show (Machine.exec (outputStep .plain 0) w ops).any (fun w' =>
      decide ((w'.conns 0).sent.length = 47 ∧ (w'.conns 0).closing = true)) = true by
        decide +kernel)
  obtain ⟨hsent, hclosing⟩ := of_decide_eq_true h
  exact ⟨w', hrun, hsent, hclosing,
    (output_in_order .plain 0 w w' ops (by decide) (by decide) hrun).1⟩

/-- **What a caller that sees `-1` relies on**: the output of the connection is as before, and so is
its place on the list of pending writes. -/
structure OutputKept (w w' : Worker) (c : ℕ) : Prop where
  buf : (w'.conns c).writeBuf = (w.conns c).writeBuf
  off : (w'.conns c).writeOff = (w.conns c).writeOff
  queued : (w'.conns c).writeQueued = (w.conns c).writeQueued
  pending : w'.pendingWrites = w.pendingWrites
  output : (w'.conns c).output = (w.conns c).output

/-- **A failed `queue_packet` leaves the output alone exactly if it does not tear the packet**, on any
connection, with any packet and any allocator. -/
theorem failed_queue_keeps_output (cfg : ServerConfig) (mem : Mem) (w : Worker) (c : ℕ)
    (request : Request) (op : Op) (procId callId : UInt64) (payload : List UInt8) :
    ((queuePacket cfg mem w c request op procId callId payload).1 = .err →
      OutputKept w (queuePacket cfg mem w c request op procId callId payload).2 c) ↔
      ¬ TearsPacket cfg mem (w.conns c) payload := by
  have houtcome := queuePacket_outcome cfg mem w c request op procId callId payload
  generalize queuePacket cfg mem w c request op procId callId payload = result at houtcome ⊢
  cases houtcome with
  | refused hwhole => exact iff_of_true (fun _ => ⟨rfl, rfl, rfl, rfl, rfl⟩) hwhole
  | full hwhole => exact iff_of_true (fun _ => ⟨rfl, rfl, rfl, rfl, rfl⟩) hwhole
  | @torn front cap htears hlen =>
    refine iff_of_false (fun hkept => ?_) fun hwhole => hwhole htears
    -- the header is left in the buffer
    have hbuf := (hkept rfl).buf
    change (Function.update w.conns c ((w.conns c).appendOut front cap) c).writeBuf = _ at hbuf
    rw [Function.update_self] at hbuf
    have hfront : front = [] := List.append_right_eq_self.mp hbuf
    rw [hfront] at hlen
    cases hlen
  | queued hwhole => exact iff_of_true (fun herr => by cases herr) hwhole

/-- A connection whose socket is closed: the packet is refused on the first line, whatever the
allocator would say. And one with no memory at all: the packet queued before is left whole. -/
theorem failed_queue_keeps_output_early :
    let closed := workerInit.setConn 0 { Conn.zero with fd := -1 }
    let full := workerInit.setConn 0
      { Conn.zero with fd := 3, writeBuf := List.replicate 40 7, writeCap := 64, writeOff := 5 }
    OutputKept closed (queuePacket .plain (fun n => n ≤ 4096) closed 0 ⟨0, 0⟩ .response 1 1
        (List.replicate 5000 1)).2 0 ∧
      OutputKept full (queuePacket .plain (fun _ => false) full 0 ⟨0, 0⟩ .response 1 1 []).2 0 := by
  intro closed full
  refine ⟨?_, ?_⟩
  · refine (failed_queue_keeps_output _ _ _ _ _ _ _ _ _).mpr (fun htears => ?_) (by decide +kernel)
    exact absurd htears.attached.2 (by decide)
  · refine (failed_queue_keeps_output _ _ _ _ _ _ _ _ _).mpr (fun htears => ?_) (by decide +kernel)
    exact htears.rest (.inl rfl)

/-- A buffer that may grow to 4096 bytes and no further: a packet with 5000 bytes is refused, and
its header stays in the output of a connection that is not put on the list of pending writes. -/
theorem failed_queue_leaves_header :
    let w := workerInit.setConn 0 { Conn.zero with fd := 3 }
    let payload := List.replicate 5000 (1 : UInt8)
    let result := queuePacket .plain (fun n => n ≤ 4096) w 0 ⟨0, 0⟩ .response 1 1 payload
    result.1 = .err ∧ (w.conns 0).writeBuf = [] ∧ (result.2.conns 0).writeBuf.length = 34 ∧
      result.2.pendingWrites = [] := by
  decide +kernel

end Output

end Wirecall

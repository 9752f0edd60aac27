import Wirecall.Server.Closing
import Wirecall.Server.Packets

/-!
# Both streams of every connection

A worker serves many connections. Their reads and writes interleave with each other, with calls that
the scheduler resumes and with deferred calls that other threads complete, and slots of closed
connections are handed out again. Through all of it the two streams of every open connection stay
what they should be. What was received is the packets that were dispatched for this connection, each
of them verified, followed by the read buffer. What was sent, followed by what waits to be sent, is
a sequence of whole signed packets: the replies that were put on record for this connection, in
order.

## Main definitions

* `repliesOn`: the replies on record for a connection
* `Streams`: both streams of a connection agree with the record
* `Conn.Speaks`, `Worker.Speaks`: what an action adds to the output of the connections
* `Worker.Hushed`: an action that reads nothing

## Main results

* `connectionRead_streams`: a read keeps both streams of its connection
* `streams_loopRule`: the actions that are taken in no connection event keep all of them
* `streams_in_step`: **in every run both streams of every connection agree with the record**
-/

namespace Wirecall

open Framing

/-! ## The replies on record -/

/-- The operation, the procedure and the call id of a packet. -/
def replyOf (p : Header × List UInt8) : UInt8 × UInt64 × UInt64 := (p.1.op, p.1.procId, p.1.callId)

/-- The replies that were queued on a connection, in order. -/
def repliesOn (inst : ℕ) (log : List Entry) : List (UInt8 × UInt64 × UInt64) :=
  log.filterMap fun
    | .reply target _ op procId callId =>
      if target = inst then some (op.code, procId, callId) else none
    | .dispatched _ _ _ _ => none
    | .completion _ _ => none
    | .freed _ _ _ _ => none

@[simp] theorem repliesOn_append (inst : ℕ) (log log' : List Entry) :
    repliesOn inst (log ++ log') = repliesOn inst log ++ repliesOn inst log' :=
  List.filterMap_append

theorem repliesOn_reply_self (inst : ℕ) (request : Request) (op : Op) (procId callId : UInt64) :
    repliesOn inst [.reply inst request op procId callId] = [(op.code, procId, callId)] := by
  simp [repliesOn]

theorem repliesOn_reply_of_ne {inst target : ℕ} (h : target ≠ inst) (request : Request) (op : Op)
    (procId callId : UInt64) : repliesOn inst [.reply target request op procId callId] = [] := by
  simp [repliesOn, h]

/-- Entries that are neither a dispatch nor a reply. -/
def OnlyNotes (entries : List Entry) : Prop :=
  ∀ inst, packetsOf inst entries = [] ∧ repliesOn inst entries = []

theorem OnlyFrees.onlyNotes {entries : List Entry} (h : OnlyFrees entries) : OnlyNotes entries := by
  intro inst
  cases h with
  | nothing => exact ⟨rfl, rfl⟩
  | freed slot inst' detached pointing => exact ⟨rfl, rfl⟩

theorem onlyNotes_completion (request : Request) (ok : Bool) :
    OnlyNotes [.completion request ok] := fun _ => ⟨rfl, rfl⟩

/-! ## What an action adds to the output -/

/-- The packets with these fields are added to the output of a connection. -/
structure Conn.Speaks (i : Integrity) (conn conn' : Conn)
    (replies : List (UInt8 × UInt64 × UInt64)) : Prop where
  inst : conn'.inst = conn.inst
  within : conn.Within → conn'.Within
  output : conn.Within → ∃ bytes packets, conn'.output = conn.output ++ bytes ∧
    PacketSeq i bytes packets [] ∧ packets.map replyOf = replies

/-- A sequence of packets after another. -/
theorem PacketSeq.append {i : Integrity} {bytes bytes' : List UInt8}
    {packets packets' : List (Header × List UInt8)} (h : PacketSeq i bytes packets [])
    (h' : PacketSeq i bytes' packets' []) :
    PacketSeq i (bytes ++ bytes') (packets ++ packets') [] := by
  obtain ⟨pieces, hpieces, rfl⟩ := h
  obtain ⟨pieces', hpieces', rfl⟩ := h'
  exact ⟨pieces ++ pieces', List.rel_append hpieces hpieces', by simp⟩

section Speaks

variable {i : Integrity} {conn conn' conn'' : Conn}
  {replies replies' : List (UInt8 × UInt64 × UInt64)}

theorem Conn.Speaks.of_emits (h : conn.Emits conn' []) : conn.Speaks i conn' [] :=
  ⟨h.inst, h.within, fun hwithin => ⟨[], [], h.output hwithin, ⟨[], .nil, rfl⟩, rfl⟩⟩

theorem Conn.Speaks.trans (h : conn.Speaks i conn' replies) (h' : conn'.Speaks i conn'' replies') :
    conn.Speaks i conn'' (replies ++ replies') := by
  refine ⟨h'.inst.trans h.inst, fun hwithin => h'.within (h.within hwithin), fun hwithin => ?_⟩
  obtain ⟨bytes, packets, hout, hseq, hreplies⟩ := h.output hwithin
  obtain ⟨bytes', packets', hout', hseq', hreplies'⟩ := h'.output (h.within hwithin)
  refine ⟨bytes ++ bytes', packets ++ packets', ?_, hseq.append hseq', ?_⟩
  · rw [hout', hout, List.append_assoc]
  · rw [List.map_append, hreplies, hreplies']

/-- A signed packet is queued. -/
theorem Conn.Speaks.appendOut (conn : Conn) {op : Op} {procId callId : UInt64}
    {payload front : List UInt8} (hfront : signedHeader i op procId callId payload = some front)
    (cap : ℕ) :
    conn.Speaks i (conn.appendOut (front ++ payload) cap) [(op.code, procId, callId)] := by
  have hemits := Conn.Emits.appendOut conn (front ++ payload) cap
  obtain ⟨header, hsign, hencode⟩ := Option.bind_eq_some_iff.mp hfront
  obtain ⟨-, checksum, mac, hheader⟩ := packetSignEx_eq_some hsign
  refine ⟨hemits.inst, hemits.within, fun hwithin =>
    ⟨_, [(header, payload)], hemits.output hwithin, ?_, ?_⟩⟩
  · exact ⟨[front ++ payload], .cons (isPacket_of_signed hsign hencode) .nil, by simp⟩
  · rw [hheader]
    rfl

end Speaks

/-- **What an action adds to the output of the connections**: whole packets, which it puts on
record. Nothing is said once a buffer could not grow. -/
structure Worker.Speaks (cfg : ServerConfig) (w w' : Worker) : Prop where
  failed : Failed w → Failed w'
  nextInst : w'.nextInst = w.nextInst
  late : ∀ inst, w.nextInst ≤ inst → repliesOn inst w'.log = repliesOn inst w.log
  listed : ∀ c ∈ w'.connections, c ∈ w.connections
  conn : ¬ Failed w' → ∀ c ∈ w'.connections, ∃ replies,
    (w.conns c).Speaks cfg.integrity (w'.conns c) replies ∧
      repliesOn (w.conns c).inst w'.log = repliesOn (w.conns c).inst w.log ++ replies

/-- **An action that reads nothing**: no packet is dispatched, and the input of the connections is
as it was. -/
structure Worker.Hushed (w w' : Worker) : Prop where
  packets : ∀ inst, packetsOf inst w'.log = packetsOf inst w.log
  input : ∀ c ∈ w'.connections,
    (w'.conns c).received = (w.conns c).received ∧ (w'.conns c).readBuf = (w.conns c).readBuf

/-- Both. -/
structure Worker.Mutters (cfg : ServerConfig) (w w' : Worker) : Prop extends
  Worker.Speaks cfg w w', Worker.Hushed w w'

section Actions

variable {cfg : ServerConfig} {env : ℕ → Env} {w w' w'' : Worker} {c c' d : ℕ}

theorem Worker.Speaks.trans (h : w.Speaks cfg w') (h' : w'.Speaks cfg w'') : w.Speaks cfg w'' where
  failed hfailed := h'.failed (h.failed hfailed)
  nextInst := h'.nextInst.trans h.nextInst
  late inst hinst := (h'.late inst (h.nextInst ▸ hinst)).trans (h.late inst hinst)
  listed c hc := h.listed c (h'.listed c hc)
  conn hok c hc := by
    obtain ⟨replies, hspeaks, hreplies⟩ := h.conn (fun hf => hok (h'.failed hf)) c (h'.listed c hc)
    obtain ⟨replies', hspeaks', hreplies'⟩ := h'.conn hok c hc
    refine ⟨replies ++ replies', hspeaks.trans hspeaks', ?_⟩
    rw [hspeaks.inst] at hreplies'
    rw [hreplies', hreplies, List.append_assoc]

theorem Worker.Hushed.trans (h : w.Hushed w') (h' : w'.Hushed w'')
    (hlisted : ∀ c ∈ w''.connections, c ∈ w'.connections) : w.Hushed w'' where
  packets inst := (h'.packets inst).trans (h.packets inst)
  input c hc := by
    obtain ⟨hreceived, hbuf⟩ := h.input c (hlisted c hc)
    obtain ⟨hreceived', hbuf'⟩ := h'.input c hc
    exact ⟨hreceived'.trans hreceived, hbuf'.trans hbuf⟩

theorem Worker.Mutters.trans (h : w.Mutters cfg w') (h' : w'.Mutters cfg w'') :
    w.Mutters cfg w'' :=
  ⟨h.toSpeaks.trans h'.toSpeaks, h.toHushed.trans h'.toHushed h'.listed⟩

/-- An action that neither reads nor replies. -/
theorem Worker.Mutters.silent (entries : List Entry) (hlog : w'.log = w.log ++ entries)
    (hnotes : OnlyNotes entries) (hfailed : Failed w → Failed w')
    (hnext : w'.nextInst = w.nextInst) (hlisted : ∀ c ∈ w'.connections, c ∈ w.connections)
    (hconns : ∀ c ∈ w'.connections, (w.conns c).Emits (w'.conns c) [] ∧
      (w'.conns c).received = (w.conns c).received ∧ (w'.conns c).readBuf = (w.conns c).readBuf) :
    w.Mutters cfg w' where
  failed := hfailed
  nextInst := hnext
  late inst _ := by rw [hlog, repliesOn_append, (hnotes inst).2, List.append_nil]
  listed := hlisted
  conn _ c hc := ⟨[], .of_emits (hconns c hc).1, by
    rw [hlog, repliesOn_append, (hnotes _).2]⟩
  packets inst := by rw [hlog, packetsOf_append, (hnotes inst).1, List.append_nil]
  input c hc := (hconns c hc).2

/-- An action that concerns neither the connections nor the record. -/
theorem Worker.Mutters.of_eq (hconns : w'.conns = w.conns) (hlist : w'.connections = w.connections)
    (hlog : w'.log = w.log) (hnext : w'.nextInst = w.nextInst)
    (hqueue : w'.queueFailed = w.queueFailed) (hread : w'.readFailed = w.readFailed) :
    w.Mutters cfg w' := by
  refine .silent [] (by rw [hlog, List.append_nil]) (fun _ => ⟨rfl, rfl⟩) ?_ hnext
    (fun c hc => hlist ▸ hc) fun c _ => ?_
  · exact Or.imp (hqueue.trans ·) (hread.trans ·)
  · rw [hconns]
    exact ⟨.refl _, rfl, rfl⟩

theorem Worker.Mutters.refl (w : Worker) : w.Mutters cfg w := .of_eq rfl rfl rfl rfl rfl rfl

/-- A connection is stored whose output and input are as they were. -/
theorem Worker.Mutters.setConn {conn : Conn} (hemits : (w.conns c').Emits conn [])
    (hreceived : conn.received = (w.conns c').received)
    (hbuf : conn.readBuf = (w.conns c').readBuf) : w.Mutters cfg (w.setConn c' conn) := by
  refine .silent [] (List.append_nil _).symm (fun _ => ⟨rfl, rfl⟩) id rfl
    (fun _ hc => hc) fun c _ => ⟨Worker.emits_setConn hemits c, ?_⟩
  by_cases hc : c = c'
  · subst hc
    rw [Worker.conns_setConn_self]
    exact ⟨hreceived, hbuf⟩
  · rw [Worker.conns_setConn_of_ne _ _ _ hc]
    exact ⟨rfl, rfl⟩

theorem connectionWrite_mutters (env : ℕ → Env) (w : Worker) (c' : ℕ) (script : List SendResult) :
    w.Mutters cfg (connectionWrite env w c' script) := by
  have hsends := sendLoop_sends (env w.tick).modify script (w.conns c')
  have hstore : w.Mutters cfg
      (w.setConn c' (sendLoop (env w.tick).modify script (w.conns c'))) := by
    refine .setConn (.sendLoop _ script _) ?_ ?_
    · rw [hsends.same]
      rfl
    · rw [hsends.same]
      rfl
  exact hstore.trans (.of_eq rfl rfl rfl rfl rfl rfl)

theorem flushWrite_mutters (env : ℕ → Env) (script : List SendResult) (w : Worker) (c' : ℕ) :
    w.Mutters cfg (flushWrite env script w c') := by
  refine flushWrite_rule (P := fun w' => w.Mutters cfg w') ?_ fun w' hw' _ => ?_
  · exact .setConn (.of_eq rfl rfl rfl rfl) rfl rfl
  · exact hw'.trans (connectionWrite_mutters env w' c' script)

/-- **A packet is queued** on a slot in use: on this connection it is one reply more, and the others
have other numbers. -/
theorem Queues.mutters {request : Request} {op : Op} {procId callId : UInt64} {data : List UInt8}
    {result : Rc × Worker} (h : Queues cfg w c' request op procId callId data result)
    (hlt : (w.conns c').inst < w.nextInst)
    (hother : ∀ c ∈ w.connections, c ≠ c' → (w.conns c).inst ≠ (w.conns c').inst) :
    w.Mutters cfg result.2 := by
  cases h with
  | failed bytes cap =>
    refine ⟨⟨fun _ => .inl rfl, rfl, fun _ _ => rfl, fun _ hc => hc, fun hok => ?_⟩,
      fun _ => rfl, fun c _ => ?_⟩
    · exact absurd (.inl rfl) hok
    · change ((w.setConn c' _).conns c).received = _ ∧ ((w.setConn c' _).conns c).readBuf = _
      by_cases hc : c = c'
      · subst hc
        rw [Worker.conns_setConn_self]
        exact ⟨rfl, rfl⟩
      · rw [Worker.conns_setConn_of_ne _ _ _ hc]
        exact ⟨rfl, rfl⟩
  | @queued front cap hfront =>
    rw [Worker.queued_eq]
    have hqueued : (w.conns c').Speaks cfg.integrity
        { (w.conns c').appendOut (front ++ data) cap with writeQueued := true }
        [(op.code, procId, callId)] := by
      have hflag : ((w.conns c').appendOut (front ++ data) cap).Speaks cfg.integrity
          { (w.conns c').appendOut (front ++ data) cap with writeQueued := true } [] :=
        .of_emits (.of_eq rfl rfl rfl rfl)
      have hspeaks := (Conn.Speaks.appendOut (w.conns c') hfront cap).trans hflag
      rwa [List.append_nil] at hspeaks
    refine ⟨⟨id, rfl, fun inst hinst => ?_, fun _ hc => hc, fun _ c hc => ?_⟩, fun inst => ?_,
      fun c _ => ?_⟩
    · change repliesOn inst (w.log ++ [_]) = _
      rw [repliesOn_append, repliesOn_reply_of_ne (by omega), List.append_nil]
    · by_cases hcc : c = c'
      · subst hcc
        refine ⟨_, ?_, (repliesOn_append _ _ _).trans (by rw [repliesOn_reply_self])⟩
        change (w.conns c).Speaks cfg.integrity (Function.update w.conns c _ c) _
        rw [Function.update_self]
        exact hqueued
      · refine ⟨[], ?_, (repliesOn_append _ _ _).trans
          (by rw [repliesOn_reply_of_ne (Ne.symm (hother c hc hcc))])⟩
        change (w.conns c).Speaks cfg.integrity (Function.update w.conns c' _ c) _
        rw [Function.update_of_ne hcc]
        exact .of_emits (.refl _)
    · exact (packetsOf_append _ _ _).trans (List.append_nil _)
    · change (Function.update w.conns c' _ c).received = _ ∧
        (Function.update w.conns c' _ c).readBuf = _
      by_cases hc : c = c'
      · subst hc
        rw [Function.update_self]
        exact ⟨rfl, rfl⟩
      · rw [Function.update_of_ne hc]
        exact ⟨rfl, rfl⟩

/-- An attempt to queue a packet, on any slot. -/
theorem Attempts.mutters {request : Request} {op : Op} {procId callId : UInt64}
    (h : Attempts cfg w c' request op procId callId w')
    (hlt : (w.conns c').Open → (w.conns c').inst < w.nextInst)
    (hother : (w.conns c').Open → ∀ c ∈ w.connections, c ≠ c' →
      (w.conns c).inst ≠ (w.conns c').inst) : w.Mutters cfg w' := by
  cases h with
  | queues hopen hqueues => exact hqueues.mutters (hlt hopen) (hother hopen)
  | refused => exact .refl w
  | failed =>
    refine ⟨⟨fun _ => .inl rfl, rfl, fun _ _ => rfl, fun _ hc => hc, fun hok => ?_⟩,
      fun _ => rfl, fun _ _ => ⟨rfl, rfl⟩⟩
    exact absurd (.inl rfl) hok

/-- A slot that was handed out and takes output is in use. -/
theorem ConnInv.live_of_open (h : ConnInv w none) (hlt : c' < w.connectionArena.watermark)
    (hopen : (w.conns c').Open) : w.connectionArena.Live c' := by
  refine ⟨hlt, fun hfree => ?_⟩
  have hattached := hopen.1
  rw [h.gone c' hfree] at hattached
  cases hattached

/-- The connections have numbers of their own. -/
theorem ConnInv.numbered (h : ConnInv w none) (hlive : w.connectionArena.Live c') :
    ∀ c ∈ w.connections, c ≠ c' → (w.conns c).inst ≠ (w.conns c').inst :=
  fun c hc hne heq => hne (h.inst_inj c c' ((h.mem_connections c).mp hc).1 hlive heq)

/-- No connection comes when one ends. -/
theorem connectionDestroy_listed : ∀ c ∈ (connectionDestroy cfg w c').connections,
    c ∈ w.connections := by
  intro c hc
  unfold connectionDestroy at hc
  simp only at hc
  split_ifs at hc
  all_goals first | exact hc | exact List.mem_of_mem_erase hc

/-- The end of a connection. -/
theorem connectionDestroy_mutters (hgone : c' ∉ (connectionDestroy cfg w c').connections) :
    w.Mutters cfg (connectionDestroy cfg w c') := by
  have hsub : ∀ c ∈ (connectionDestroy cfg w c').connections, c ∈ w.connections :=
    connectionDestroy_listed
  have hself : ∀ c ∈ (connectionDestroy cfg w c').connections,
      (connectionDestroy cfg w c').conns c = w.conns c :=
    fun c hc => connectionDestroy_of_ne cfg w fun heq => hgone (heq ▸ hc)
  obtain ⟨conns, arena, connections, writes, entries, hfrees, heq⟩ := connectionDestroy_eq cfg w c'
  rw [heq] at hsub hself ⊢
  refine .silent entries rfl hfrees.onlyNotes id rfl hsub fun c hc => ?_
  rw [hself c hc]
  exact ⟨.refl _, rfl, rfl⟩

theorem complete_mutters (w : Worker) (d : ℕ) (completion : Completion) :
    w.Mutters cfg (complete w d completion) := by
  have hsilent {entries : List Entry} {deferreds : ℕ → Deferred} {completed : List ℕ}
      (hnotes : OnlyNotes entries) : w.Mutters cfg
        { w with deferreds := deferreds, completed := completed, log := w.log ++ entries } :=
    .silent entries rfl hnotes id rfl (fun _ hc => hc) fun c _ => ⟨.refl _, rfl, rfl⟩
  cases hdone : (w.deferreds d).completed with
  | true =>
    rw [complete_of_completed hdone]
    exact hsilent (onlyNotes_completion _ _)
  | false =>
    obtain ⟨response, result, error, -, heq⟩ := complete_of_open hdone completion
    rw [heq]
    exact hsilent (onlyNotes_completion _ _)

/-- **A completed call is drained.** -/
theorem drainOne_mutters {done : List ℕ} (hinv : Inv ⟨w, [], d :: done, []⟩) :
    w.Mutters cfg (drainOne cfg env w d) := by
  have hd : d ∈ w.undrained :=
    ((hinv.defer.mem_done d).mp (List.mem_append_right _ List.mem_cons_self)).1
  have hlive := hinv.defer.conn_live d hd
  obtain ⟨w₁, w₂, hw₁, hw₂, heq⟩ := drainOne_eq cfg env w d
  obtain ⟨op, hattempts⟩ := replyDeferred_attempts cfg (env w.tick).mem w d
  rw [hw₁] at hattempts
  have hreplied : w.Mutters cfg w₁ :=
    hattempts.mutters (fun _ => hinv.conn.inst_lt _ hlive) fun _ => hinv.conn.numbered hlive
  have hsettled : w₁.Mutters cfg w₂ := by
    rw [← hw₂]
    refine .silent [] (List.append_nil _).symm (fun _ => ⟨rfl, rfl⟩) id rfl
      (fun _ hc => hc) fun c _ => ?_
    obtain ⟨n, hn, -⟩ := settleDeferred_conns w₁ d c
    change (w₁.conns c).Emits ((settleDeferred w₁ d).conns c) [] ∧ _
    rw [hn]
    exact ⟨.of_eq rfl rfl rfl rfl, rfl, rfl⟩
  rw [heq]
  split_ifs with hgone
  · -- the connection was taken off the list when it was detached
    refine (hreplied.trans hsettled).trans (connectionDestroy_mutters fun hc => ?_)
    have hlisted := (hreplied.trans hsettled).listed _ (connectionDestroy_listed _ hc)
    obtain ⟨n, hn, -⟩ := settleDeferred_conns w₁ d (w.deferreds d).conn
    have hdetached : (w.conns (w.deferreds d).conn).detached = true := by
      rw [← (hattempts.marks.2 _).detached]
      rw [← hw₂] at hgone
      exact (congrArg Conn.detached hn).symm.trans hgone.1
    rw [((hinv.conn.mem_connections _).mp hlisted).2] at hdetached
    cases hdetached
  · exact hreplied.trans hsettled

/-- **A call is resumed**: its slot takes a reply only if a connection holds it. -/
theorem resumeCall_mutters {resume : Resume} (hinv : Inv w.mid)
    (hresume : resumeCall cfg env w resume = some w') : w.Mutters cfg w' := by
  obtain ⟨k, rest, call, hready, hcall, hend⟩ := resumeCall_cases hresume
  have hlt : call.conn < w.connectionArena.watermark := by
    obtain ⟨called, hcalled, hlt⟩ := hinv.call.call k (by
      rw [show w.mid.worker.ready = k :: rest from hready]
      exact List.mem_cons_self)
    obtain rfl := Option.some.inj (hcall.symm.trans hcalled)
    exact hlt
  rcases hend with rfl | ⟨op, w₁, hattempts, rfl⟩
  · exact .of_eq rfl rfl rfl rfl rfl rfl
  · have htaken : w.Mutters cfg { w with ready := rest, tick := w.tick + 1 } :=
      .of_eq rfl rfl rfl rfl rfl rfl
    have hreplied := hattempts.mutters
      (fun hopen => hinv.conn.inst_lt _ (hinv.conn.live_of_open hlt hopen))
      (fun hopen => hinv.conn.numbered (hinv.conn.live_of_open hlt hopen))
    exact (htaken.trans hreplied).trans (.of_eq rfl rfl rfl rfl rfl rfl)

/-- The record of a dispatch is no reply. -/
theorem dispatching_speaks (w : Worker) (c' : ℕ) (header : Header) (payload : List UInt8) :
    w.Speaks cfg (w.dispatching c' header payload) where
  failed := id
  nextInst := rfl
  late _ _ := (repliesOn_append _ _ _).trans (List.append_nil _)
  listed _ hc := hc
  conn _ _ _ := ⟨[], .of_emits (.refl _), repliesOn_append _ _ _⟩

theorem Churn.mutters (h : Churn w w') : w.Mutters cfg w' := by
  cases h with
  | none => exact .refl w
  | deferred call halloc htick => exact .of_eq rfl rfl rfl rfl rfl rfl
  | call call halloc => exact .of_eq rfl rfl rfl rfl rfl rfl

theorem issueDeferred_mutters (w : Worker) (c' d : ℕ) : w.Mutters cfg (issueDeferred w c' d) := by
  have hcounted : w.Mutters cfg (w.setConn c'
      { w.conns c' with pendingDeferred := (w.conns c').pendingDeferred + 1 }) :=
    .setConn (.of_eq rfl rfl rfl rfl) rfl rfl
  have hissued : Worker.Mutters cfg (w.setConn c'
      { w.conns c' with pendingDeferred := (w.conns c').pendingDeferred + 1 })
      (issueDeferred w c' d) := .of_eq rfl rfl rfl rfl rfl rfl
  exact hcounted.trans hissued

/-- **A packet is handled**: once its dispatch is on record, nothing more is read, and what is
replied is a packet on the connection it came from. -/
theorem Handles.mutters {e : Env} {header : Header} {payload : List UInt8} {rc : Rc}
    (h : Handles cfg e w c' header payload (rc, w')) (hlive : w.connectionArena.Live c')
    (hinv : ConnInv w none) : (w.dispatching c' header payload).Mutters cfg w' := by
  have hlt := hinv.inst_lt c' hlive
  have hother := hinv.numbered hlive
  generalize hresult : (rc, w') = result at h
  cases h with
  | @replied w₁ _ _ _ _ _ hchurn hreply hqueues =>
    subst hresult
    have hchurned : (w.dispatching c' header payload).Mutters cfg w₁ := hchurn.mutters
    have hconns : w₁.conns = w.conns := hchurn.conns
    have hnext : w₁.nextInst = w.nextInst := hchurned.nextInst
    have hlist : w₁.connections = w.connections := hchurn.connections
    refine hchurned.trans (hqueues.mutters ?_ ?_)
    · rw [hconns, hnext]
      exact hlt
    · rw [hconns, hlist]
      exact hother
  | @notStarted k arena call op procId callId data result halloc hreply hqueues =>
    cases hresult
    have htaken : (w.dispatching c' header payload).Mutters cfg
        ((w.dispatching c' header payload).takeCall k arena call) :=
      .of_eq rfl rfl rfl rfl rfl rfl
    have hreplied := hqueues.mutters hlt hother
    exact (htaken.trans hreplied).trans (.of_eq rfl rfl rfl rfl rfl rfl)
  | disconnected hop =>
    cases hresult
    exact .setConn (.of_eq rfl rfl rfl rfl) rfl rfl
  | @issued d arena outcome hop halloc hsucceeds =>
    cases hresult
    have htaken : (w.dispatching c' header payload).Mutters cfg
        ((w.dispatching c' header payload).takeDeferred d arena
          (newDeferred c' (w.request c') header)) := .of_eq rfl rfl rfl rfl rfl rfl
    refine runDeferred_rule (P := fun w' => (w.dispatching c' header payload).Mutters cfg w') ?_ ?_
      outcome
    · exact fun w' completion hw' => hw'.trans (complete_mutters w' _ completion)
    · exact htaken.trans (issueDeferred_mutters _ c' d)
  | submitted call args hop hasync halloc hconn hrequest =>
    cases hresult
    exact .of_eq rfl rfl rfl rfl rfl rfl

/-- The dispatch of a packet is on record for its connection. -/
theorem packetsOf_dispatching_of_ne {inst : ℕ} (hinst : inst ≠ (w.conns c').inst) (header : Header)
    (payload : List UInt8) :
    packetsOf inst (w.dispatching c' header payload).log = packetsOf inst w.log := by
  change packetsOf inst (w.log ++ [_]) = _
  rw [packetsOf_append]
  simp [packetsOf, Worker.request, Ne.symm hinst]

/-- Input that is stored is no reply. -/
theorem touchRead_speaks (readBuf : List UInt8) (readCap : ℕ) (received : List UInt8)
    (closing : Bool) (ticks : ℕ) (failed : Bool) :
    w.Speaks cfg (w.touchRead c' readBuf readCap received closing ticks failed) := by
  have hstored : (w.conns c').Emits
      { w.conns c' with
        readBuf := readBuf
        readCap := readCap
        received := received
        closing := (w.conns c').closing || closing } [] := .of_eq rfl rfl rfl rfl
  refine ⟨Or.imp id fun h => ?_, rfl, fun _ _ => rfl, fun _ hc => hc, fun _ c _ => ⟨[], ?_, ?_⟩⟩
  · change (w.readFailed || failed) = true
    rw [h, Bool.true_or]
  · exact .of_emits (Worker.emits_setConn hstored c)
  · exact (List.append_nil _).symm

end Actions

/-! ## Both streams -/

/-- **Both streams of a connection agree with the record**: what was received is the packets that
were dispatched for it and the read buffer, and its output is whole packets, the replies to it. -/
structure Streams (cfg : ServerConfig) (w : Worker) (c : ℕ) : Prop where
  taken : PacketSeq cfg.integrity (w.conns c).received (packetsOf (w.conns c).inst w.log)
    (w.conns c).readBuf
  within : (w.conns c).Within
  queued : ∃ packets, PacketSeq cfg.integrity (w.conns c).output packets [] ∧
    packets.map replyOf = repliesOn (w.conns c).inst w.log

/-- The streams of all connections agree with the record unless memory was short, and numbers that
were not given yet are not on it. -/
structure InStreams (cfg : ServerConfig) (w : Worker) : Prop where
  late : ∀ inst, w.nextInst ≤ inst → packetsOf inst w.log = [] ∧ repliesOn inst w.log = []
  streams : Failed w ∨ ∀ c ∈ w.connections, Streams cfg w c

section Streams

variable {cfg : ServerConfig} {env : ℕ → Env} {w w' : Worker} {c c' : ℕ} {fd : Int}
  {fds : List Int}

/-- What is said after the output of a connection. -/
theorem Conn.Speaks.queued {conn conn' : Conn} {replies before : List (UInt8 × UInt64 × UInt64)}
    (h : conn.Speaks cfg.integrity conn' replies) (hwithin : conn.Within)
    (hqueued : ∃ packets, PacketSeq cfg.integrity conn.output packets [] ∧
      packets.map replyOf = before) :
    ∃ packets, PacketSeq cfg.integrity conn'.output packets [] ∧
      packets.map replyOf = before ++ replies := by
  obtain ⟨packets, hseq, hreplies⟩ := hqueued
  obtain ⟨bytes, more, houtput, hmore, hmoreReplies⟩ := h.output hwithin
  refine ⟨packets ++ more, houtput ▸ hseq.append hmore, ?_⟩
  rw [List.map_append, hreplies, hmoreReplies]

theorem InStreams.mutters (h : InStreams cfg w) (hmutters : w.Mutters cfg w') :
    InStreams cfg w' := by
  refine ⟨fun inst hinst => ?_, ?_⟩
  · rw [hmutters.nextInst] at hinst
    rw [hmutters.packets, hmutters.late inst hinst]
    exact h.late inst hinst
  · by_cases hfailed' : Failed w'
    · exact .inl hfailed'
    have hstreams := h.streams.resolve_left fun hfailed => hfailed' (hmutters.failed hfailed)
    refine .inr fun c hc => ?_
    obtain ⟨replies, hspeaks, hreplies⟩ := hmutters.conn hfailed' c hc
    obtain ⟨hreceived, hbuf⟩ := hmutters.input c hc
    obtain ⟨htaken, hwithin, hqueued⟩ := hstreams c (hmutters.listed c hc)
    refine ⟨?_, hspeaks.within hwithin, ?_⟩
    · rw [hreceived, hbuf, hspeaks.inst, hmutters.packets]
      exact htaken
    · rw [hspeaks.inst, hreplies]
      exact hspeaks.queued hwithin hqueued

/-- A new connection has a number that is not on record. -/
theorem InStreams.added (h : InStreams cfg w) (c' : ℕ) (arena : Arena) (fd : Int) :
    InStreams cfg (w.added c' arena fd) := by
  refine ⟨fun inst hinst => h.late inst (Nat.le_of_succ_le hinst), h.streams.imp_right ?_⟩
  intro hstreams c hc
  by_cases hcc : c = c'
  · subst hcc
    have hself := Worker.added_self w c arena fd
    obtain ⟨hpackets, hreplies⟩ := h.late w.nextInst le_rfl
    refine ⟨?_, ?_, [], ?_, ?_⟩
    · rw [hself]
      exact ⟨[], hpackets ▸ .nil, rfl⟩
    · rw [hself]
      exact Nat.le_refl 0
    · rw [hself]
      exact ⟨[], .nil, rfl⟩
    · rw [hself]
      exact hreplies.symm
  · obtain ⟨htaken, hwithin, hqueued⟩ := hstreams c ((List.mem_cons.mp hc).resolve_left hcc)
    have hother := Worker.added_of_ne w arena fd hcc
    exact ⟨by rw [hother]; exact htaken, by rw [hother]; exact hwithin,
      by rw [hother]; exact hqueued⟩

theorem InStreams.add (h : InStreams cfg w) (hinv : Inv ⟨w, [], [], fd :: fds⟩) :
    InStreams cfg (workerAddConnection cfg env w fd) := by
  cases halloc : w.connectionArena.alloc with
  | none =>
    rw [workerAddConnection, halloc]
    exact h
  | some slot =>
    obtain ⟨c', arena⟩ := slot
    rw [workerAddConnection_eq halloc]
    split_ifs
    · exact (h.added c' arena fd).mutters (.setConn (.of_eq rfl rfl rfl rfl) rfl rfl)
    · -- the backend refused the socket, and the connection is off the list again
      refine (h.added c' arena fd).mutters (connectionDestroy_mutters ?_)
      have hattached : ((w.added c' arena fd).conns c').detached = false := by
        rw [Worker.added_self]
        rfl
      rw [connectionDestroy_connections cfg hattached]
      change c' ∉ (c' :: w.connections).erase c'
      rw [List.erase_cons_head]
      exact fun hc => (Arena.live_alloc hinv.conn.arena halloc).1
        ((hinv.conn.mem_connections c').mp hc).1

/-- A connection that ends was on the list. -/
theorem connectionDestroy_gone (hinv : ConnInv w none) (hc : c ∈ w.connections) :
    c ∉ (connectionDestroy cfg w c).connections := by
  rw [connectionDestroy_connections cfg ((hinv.mem_connections c).mp hc).2]
  exact fun hmem => (List.Nodup.mem_erase_iff hinv.nodup).mp hmem |>.1 rfl

/-! ## Reads -/

variable (cfg) in
/-- What was received on a connection is its packets and the read buffer. -/
def Taken (w : Worker) (c inst : ℕ) : Prop :=
  (w.conns c).inst = inst ∧ Parses (packetFormat cfg.integrity) (w.conns c).received
    (packetsOf inst w.log) (w.conns c).readBuf

/-- **A read** takes packets from the stream, whatever the socket does. -/
theorem connectionRead_taken {inst : ℕ} {script : List RecvResult} (hopen : (w.conns c).Open)
    (hclosing : (w.conns c).closing = false) (htaken : Failed w ∨ Taken cfg w c inst) :
    Failed (connectionRead cfg env c script w) ∨
      Taken cfg (connectionRead cfg env c script w) c inst := by
  have hmark (w : Worker) (h : Failed w ∨ Taken cfg w c inst) :
      Failed (w.setClosing c) ∨ Taken cfg (w.setClosing c) c inst := by
    refine h.imp id fun htaken => ?_
    unfold Taken
    rw [Worker.setClosing, Worker.conns_setConn_self]
    exact htaken
  refine connectionRead_rule
    (P := fun w => (w.conns c).Open ∧ (w.conns c).closing = false ∧
      (Failed w ∨ Taken cfg w c inst))
    (Q := fun w => Failed w ∨ Taken cfg w c inst)
    ?_ ?_ (fun w h => h.2.2) (fun _ w h => hmark w h.2.2) ?_ ⟨hopen, hclosing, htaken⟩
  · rintro w w' ⟨hopen, hclosing, htaken⟩ hreserve
    obtain ⟨⟨cap, hconn⟩, hlog, hqueue, hread⟩ := readReserve_ok hreserve
    refine ⟨by rw [hconn]; exact hopen, by rw [hconn]; exact hclosing, ?_⟩
    refine htaken.imp (Or.imp (hqueue.trans ·) (hread.trans ·)) fun htaken => ?_
    unfold Taken
    rw [hconn, hlog]
    exact htaken
  · intro w w' _ hreserve
    exact .inl (.inr (readReserve_err hreserve).2)
  · rintro w₀ w bytes - ⟨hopen, hclosing, htaken⟩ -
    have hrecv := receive_conns w c bytes
    obtain ⟨w', hw'⟩ : ∃ w', parseAvailable cfg env (receive w c bytes) c = w' := ⟨_, rfl⟩
    obtain ⟨hopen', hfailed, hparsed⟩ := parseAvailable_spec
      (by rw [hrecv]; exact hopen) (by rw [hrecv]; exact hclosing) hw'
    rw [hw']
    suffices htaken' : Failed w' ∨ Taken cfg w' c inst from
      ⟨htaken', fun hclosing' => ⟨hopen', hclosing', htaken'⟩⟩
    rcases htaken with h | ⟨rfl, hparses₀⟩
    · exact .inl (hfailed h)
    rcases hparsed with h | ⟨packets, rest, hparses, hpackets, hinst, hreceived, hrest, -⟩
    · exact .inl h
    rw [hrecv] at hparses hpackets hinst hreceived
    refine .inr ⟨hinst, ?_⟩
    rw [hreceived, hpackets, hrest]
    exact (hparses₀.append _).trans hparses

/-- What a read does to the rest: whole packets are queued, and other connections are left alone. -/
structure ReadsOn (cfg : ServerConfig) (w w' : Worker) (c : ℕ) : Prop where
  inv : Inv w'.mid
  mem : c ∈ w'.connections
  speaks : w.Speaks cfg w'
  inst : (w'.conns c).inst = (w.conns c).inst
  others : ∀ c' ≠ c, w'.conns c' = w.conns c'
  packets : ∀ inst ≠ (w.conns c).inst, packetsOf inst w'.log = packetsOf inst w.log

theorem connectionRead_readsOn (hinv : Inv w.mid) (hc : c ∈ w.connections)
    (script : List RecvResult) : ReadsOn cfg w (connectionRead cfg env c script w) c := by
  have hrule := inv_loopRule cfg env (fun _ => True) fun _ => True
  refine connectionRead_invariant (P := fun w' => ReadsOn cfg w w' c) ?_ ?_
    ⟨hinv, hc, (Worker.Mutters.refl w).toSpeaks, rfl, fun _ _ => rfl, fun _ _ => rfl⟩ script
  · intro w' readBuf readCap received closing ticks failed h
    refine ⟨hrule.touch readBuf readCap received closing ticks failed h.inv trivial h.mem, h.mem,
      h.speaks.trans (touchRead_speaks _ _ _ _ _ _), ?_, fun c' hne => ?_, h.packets⟩
    · have hconn : (w'.touchRead c readBuf readCap received closing ticks failed).conns c = _ :=
        Worker.conns_setConn_self _ _ _
      rw [hconn]
      exact h.inst
    · exact (Worker.conns_setConn_of_ne _ _ _ hne).trans (h.others c' hne)
  · intro w' header payload h hvalid
    have hlive := ((h.inv.conn.mem_connections c).mp h.mem).1
    have hopen : (w'.conns c).Open := h.inv.isOpen h.mem
    have hhandles := handlePacket_handles cfg env hopen header payload
    generalize handlePacket cfg env w' c header payload = result at hhandles ⊢
    obtain ⟨rc, w''⟩ := result
    have hmutters := hhandles.mutters hlive h.inv.conn
    refine ⟨hrule.handle h.inv trivial h.mem hvalid hhandles, ?_,
      h.speaks.trans ((dispatching_speaks w' c header payload).trans hmutters.toSpeaks), ?_,
      fun c' hne => ?_, fun inst hinst => ?_⟩
    · change c ∈ w''.connections
      rw [hhandles.connections]
      exact h.mem
    · change (w''.conns c).inst = _
      rw [hhandles.handled.conn]
      exact h.inst
    · exact (hhandles.conns_of_ne hne).trans (h.others c' hne)
    · rw [hmutters.packets, packetsOf_dispatching_of_ne (h.inst ▸ hinst)]
      exact h.packets inst hinst

/-- **A read keeps both streams of all connections.** -/
theorem connectionRead_streams (h : InStreams cfg w) (hinv : Inv w.mid) (hc : c ∈ w.connections)
    (hclosing : (w.conns c).closing = false) (script : List RecvResult) :
    InStreams cfg (connectionRead cfg env c script w) := by
  have hopen : (w.conns c).Open := hinv.isOpen hc
  have hreads : ReadsOn cfg w (connectionRead cfg env c script w) c :=
    connectionRead_readsOn hinv hc script
  have htaken : Failed (connectionRead cfg env c script w) ∨
      Taken cfg (connectionRead cfg env c script w) c (w.conns c).inst := by
    refine connectionRead_taken hopen hclosing (h.streams.imp_right fun hstreams => ⟨rfl, ?_⟩)
    exact parses_iff_packetSeq.mpr (hstreams c hc).taken
  generalize connectionRead cfg env c script w = w' at hreads htaken ⊢
  have hlt := hinv.conn.inst_lt c ((hinv.conn.mem_connections c).mp hc).1
  refine ⟨fun inst hinst => ?_, ?_⟩
  · rw [hreads.speaks.nextInst] at hinst
    rw [hreads.packets inst (Nat.ne_of_gt (Nat.lt_of_lt_of_le hlt hinst)),
      hreads.speaks.late inst hinst]
    exact h.late inst hinst
  · by_cases hfailed' : Failed w'
    · exact .inl hfailed'
    have hstreams := h.streams.resolve_left fun hfailed => hfailed' (hreads.speaks.failed hfailed)
    obtain ⟨hinst, hparses⟩ := htaken.resolve_left hfailed'
    refine .inr fun c' hc' => ?_
    obtain ⟨replies, hspeaks, hreplies⟩ := hreads.speaks.conn hfailed' c' hc'
    obtain ⟨htaken', hwithin, hqueued⟩ := hstreams c' (hreads.speaks.listed c' hc')
    refine ⟨?_, hspeaks.within hwithin, ?_⟩
    · by_cases hcc : c' = c
      · subst hcc
        rw [hinst]
        exact parses_iff_packetSeq.mp hparses
      · have hne : (w.conns c').inst ≠ (w.conns c).inst :=
          hinv.conn.numbered ((hinv.conn.mem_connections c).mp hc).1 c'
            (hreads.speaks.listed c' hc') hcc
        rw [hreads.others c' hcc, hreads.packets _ hne]
        exact htaken'
    · rw [hspeaks.inst, hreplies]
      exact hspeaks.queued hwithin hqueued

/-! ## The loop -/

/-- **The actions that are taken in no connection event** keep both streams of all connections. -/
theorem streams_loopRule (cfg : ServerConfig) (env : ℕ → Env) :
    LoopRule cfg env (fun _ => False) (fun _ => True) (fun _ => True)
      fun m => Inv m ∧ InStreams cfg m.worker := by
  have hinv := inv_loopRule cfg env (fun _ => False) fun _ => True
  exact
    { isOpen := fun h hc => hinv.isOpen h.1 hc
      touch := fun _ _ _ _ _ _ _ hT _ => hT.elim
      handle := fun _ hT _ _ _ => hT.elim
      write := fun _ _ hT _ => hT.elim
      close := fun h hU hc hwrites hclosing hsent hfds =>
        ⟨hinv.close h.1 hU hc hwrites hclosing hsent hfds,
          h.2.mutters (connectionDestroy_mutters (connectionDestroy_gone h.1.conn hc))⟩
      takeFds := fun h hK =>
        ⟨hinv.takeFds h.1 hK, h.2.mutters (.of_eq rfl rfl rfl rfl rfl rfl)⟩
      add := fun h => ⟨hinv.add h.1, h.2.add h.1⟩
      takeDone := fun h => ⟨hinv.takeDone h.1, h.2.mutters (.of_eq rfl rfl rfl rfl rfl rfl)⟩
      drain := fun h => ⟨hinv.drain h.1, h.2.mutters (drainOne_mutters h.1)⟩
      accept := fun fds h =>
        ⟨hinv.accept fds h.1, h.2.mutters (.of_eq rfl rfl rfl rfl rfl rfl)⟩
      closes := fun _ => trivial
      complete := fun completion h hd =>
        ⟨hinv.complete completion h.1 hd, h.2.mutters (complete_mutters _ _ completion)⟩
      resume := fun h hresume =>
        ⟨hinv.resume h.1 hresume, h.2.mutters (resumeCall_mutters h.1 hresume)⟩
      takeWrites := fun h => ⟨hinv.takeWrites h.1, h.2.mutters (.of_eq rfl rfl rfl rfl rfl rfl)⟩
      queued := fun h => hinv.queued h.1
      flush := fun script h =>
        ⟨hinv.flush script h.1, h.2.mutters (flushWrite_mutters env script _ _)⟩ }

/-- **An event of a connection** keeps both streams of all connections. -/
theorem handleEvent_streams (hinv : Inv w.mid) (h : InStreams cfg w) (hc : c ∈ w.connections)
    (recv : List RecvResult) (send : List SendResult) (ready : Interest) :
    InStreams cfg (handleEvent cfg env w recv send (.conn c ready)) := by
  have hrule := streams_loopRule cfg env
  rw [handleEvent]
  generalize hw₁ : (if ready.read = true ∧ (w.conns c).closing = false then
    connectionRead cfg env c recv w else w) = w₁
  have hread : (Inv w₁.mid ∧ InStreams cfg w₁) ∧ c ∈ w₁.connections := by
    rw [← hw₁]
    split_ifs with hready
    · have hreads : ReadsOn cfg w (connectionRead cfg env c recv w) c :=
        connectionRead_readsOn hinv hc recv
      exact ⟨⟨hreads.inv, connectionRead_streams h hinv hc hready.2 recv⟩, hreads.mem⟩
    · exact ⟨⟨hinv, h⟩, hc⟩
  obtain ⟨⟨hinv₁, h₁⟩, hc₁⟩ := hread
  split_ifs
  · have hwritten : Inv (connectionWrite env w₁ c send).mid ∧
        InStreams cfg (connectionWrite env w₁ c send) :=
      ⟨(inv_loopRule cfg env (fun _ => True) fun _ => True).write send hinv₁ trivial hc₁,
        h₁.mutters (connectionWrite_mutters env w₁ c send)⟩
    exact (hrule.maybeClose (m := (connectionWrite env w₁ c send).mid) hwritten trivial hc₁
      List.not_mem_nil rfl).2
  · exact (hrule.maybeClose (m := w₁.mid) ⟨hinv₁, h₁⟩ trivial hc₁ List.not_mem_nil rfl).2

theorem Loop.step_streams {s s' : Loop} {l : Label} (hinv : Inv s.worker.mid)
    (hmark : s.worker.Marked) (h : InStreams cfg s.worker) (hallocated : Allocated s l)
    (hstep : s.step cfg env l = some s') : InStreams cfg s'.worker := by
  have hnext (hadmits : StepAdmits (fun _ => False) (fun _ => True) (fun _ => True) s l) :
      InStreams cfg s'.worker := ((streams_loopRule cfg env).step ⟨hinv, h⟩ hadmits hstep).2
  cases l with
  | event recv send =>
    by_cases hconn : ∃ c ready batch, s.phase = .events (.conn c ready :: batch)
    · obtain ⟨c, ready, batch, hphase⟩ := hconn
      have hlive : s.worker.connectionArena.Live c := hallocated c (by rw [hphase]; rfl)
      simp only [Loop.step, hphase] at hstep
      cases hstep
      by_cases hc : c ∈ s.worker.connections
      · exact handleEvent_streams hinv h hc recv send ready
      · rw [hmark.handleEvent hinv hlive hc]
        exact h
    · refine hnext fun event batch hphase => ?_
      cases event with
      | wake => trivial
      | listener fds => trivial
      | conn c ready => exact absurd ⟨c, ready, batch, hphase⟩ hconn
  | _ => exact hnext trivial

end Streams

/-- **In every run both streams of every connection agree with the record.** Whatever the order of
events, calls and completions on the connections of a worker, if every event is for an allocated
slot and no buffer failed to grow, then for every open connection the bytes received are those of
verified packets, all of them dispatched in their order, and of what is left in the read buffer. The
bytes that were sent or wait to be sent are those of whole signed packets: the replies on record for
this connection, in their order. -/
theorem streams_in_step (cfg : ServerConfig) (env : ℕ → Env) (labels : List Label) (s : Loop)
    (hevents : Machine.Meets (Loop.step cfg env) Allocated Loop.init labels)
    (hrun : Machine.exec (Loop.step cfg env) Loop.init labels = some s)
    (hqueue : s.worker.queueFailed = false) (hread : s.worker.readFailed = false) :
    ∀ c ∈ s.worker.connections, Streams cfg s.worker c := by
  have hmarked := marked_loopRule cfg env (fun _ => True) fun _ => True
  have hinit : InStreams cfg workerInit :=
    ⟨fun _ _ => ⟨rfl, rfl⟩, .inr fun _ hc => by cases hc⟩
  have hend := Machine.exec_invariant (P := fun s => InStreams cfg s.worker ∧
    Inv s.worker.mid ∧ s.worker.Marked) ?_
    ⟨hinit, inv_workerInit, fun _ hlive => absurd hlive (Arena.not_live_init _ _)⟩ hevents hrun
  · refine hend.1.streams.resolve_left ?_
    rintro (hfailed | hfailed)
    · rw [hqueue] at hfailed
      cases hfailed
    · rw [hread] at hfailed
      cases hfailed
  · rintro s l s' ⟨h, hinv, hmark⟩ hallocated hstep
    refine ⟨Loop.step_streams hinv hmark h hallocated hstep, ?_⟩
    exact (hmarked.stepFrom (fun _ _ _ => trivial) ⟨hinv, hmark⟩ hinv hmark hallocated
      (.of_forall (fun _ => trivial) s l) hstep).2

/-- Two connections: a deferred call arrives in two pieces on one of them, with a PING on the other
in between, and is completed by a thread before the call is drained. -/
def interleaved : List Label :=
  connecting 3 ++ connecting 4 ++
    [.poll [.conn 0 ⟨true, false⟩, .conn 1 ⟨true, false⟩],
      .event [.data ((callBytes 7).take 20), .wouldBlock] [],
      .event [.data (pingThenDisconnect.take 34)] [], .schedule, .finish fun _ => [.sent 10],
      .poll [.conn 0 ⟨true, false⟩], .event [.data ((callBytes 7).drop 20)] [],
      .complete 0 (.complete ⟨[0], by decide⟩), .schedule, .finish fun _ => [.sent 5]]

/-- One packet was taken and one reply queued on each connection. -/
theorem streams_in_step_interleaved :
    ∃ s, Machine.exec (Loop.step .plain fun _ => deferringEnv) Loop.init interleaved = some s ∧
      (packetsOf 0 s.worker.log).length = 1 ∧ (packetsOf 1 s.worker.log).length = 1 ∧
      (s.worker.conns 0).output.length = 35 ∧ (s.worker.conns 0).sent.length = 5 ∧
      Streams .plain s.worker 0 ∧ Streams .plain s.worker 1 := by
  have hrun : (Machine.exec (Loop.step .plain fun _ => deferringEnv) Loop.init interleaved).any
      (fun s => decide (s.worker.queueFailed = false ∧ s.worker.readFailed = false ∧
        s.worker.connections = [1, 0] ∧ (packetsOf 0 s.worker.log).length = 1 ∧
        (packetsOf 1 s.worker.log).length = 1 ∧ (s.worker.conns 0).output.length = 35 ∧
        (s.worker.conns 0).sent.length = 5)) = true := by
    decide +kernel
  obtain ⟨s, hs, hfacts⟩ := Machine.exists_of_any hrun
  obtain ⟨hqueue, hread, hlist, hfirst, hsecond, houtput, hsent⟩ := of_decide_eq_true hfacts
  have hstreams := streams_in_step .plain (fun _ => deferringEnv) interleaved s
    (by decide +kernel) hs hqueue hread
  rw [hlist] at hstreams
  exact ⟨s, hs, hfirst, hsecond, houtput, hsent, hstreams 0 (by decide), hstreams 1 (by decide)⟩

end Wirecall

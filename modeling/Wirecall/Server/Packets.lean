import Wirecall.Server.Actions
import Wirecall.Server.Closing

/-!
# The packets of a connection

What every action of a worker sends on one connection, and what it does with the calls that are yet
to be answered. A packet is queued in answer to the packet that is being handled, or to a call that
waits; calls are numbered by the tick they were made at, and an action that resumes no call leaves
the calls of the scheduler where they are.

## Main definitions

* `QueuedPacket`: a packet in the output of a connection, with the request it answers
* `Worker.Emits`: the packets are added to the output of a connection
* `Worker.Delivers`: they are, if the connection stays open and no buffer is refused
* `Worker.Steps`: what an action does that resumes no call

## Main results

* `Worker.Steps.trans`: one action after the other
* `Mid.Acts.steps`: every action but a resume is such a step
-/

namespace Wirecall

/-! ## Packets -/

/-- A packet that was queued on the connection `target` in answer to a request. -/
structure QueuedPacket where
  target : ℕ
  request : Request
  op : Op
  procId : UInt64
  callId : UInt64
  payload : List UInt8
  deriving DecidableEq

/-- Its entry in the record. -/
def QueuedPacket.entry (p : QueuedPacket) : Entry :=
  .reply p.target p.request p.op p.procId p.callId

/-- Its bytes: a header and the payload. -/
def QueuedPacket.bytes (cfg : ServerConfig) (p : QueuedPacket) : List UInt8 :=
  (signedHeader cfg.integrity p.op p.procId p.callId p.payload).getD [] ++ p.payload

/-- The bytes of those packets that were queued on a connection. -/
def bytesOn (cfg : ServerConfig) (inst : ℕ) (packets : List QueuedPacket) : List UInt8 :=
  (packets.filter fun p => p.target = inst).flatMap (QueuedPacket.bytes cfg)

/-- The entry is for a packet that was queued. -/
def Entry.isReply : Entry → Bool
  | .reply _ _ _ _ _ => true
  | .dispatched _ _ _ _ => false
  | .completion _ _ => false
  | .freed _ _ _ _ => false

/-- The slot `c` holds the connection `inst`, which is open. -/
def Worker.Has (w : Worker) (c inst : ℕ) : Prop := c ∈ w.connections ∧ (w.conns c).inst = inst

instance (w : Worker) (c inst : ℕ) : Decidable (w.Has c inst) :=
  inferInstanceAs (Decidable (c ∈ w.connections ∧ (w.conns c).inst = inst))

/-- No more bytes were sent than there are. -/
def Conn.Within (conn : Conn) : Prop := conn.writeOff ≤ conn.writeBuf.length

/-- The bytes are added to the output of a connection. -/
structure Conn.Emits (conn conn' : Conn) (bytes : List UInt8) : Prop where
  inst : conn'.inst = conn.inst
  within : conn.Within → conn'.Within
  output : conn.Within → conn'.output = conn.output ++ bytes

/-- The packets are the ones that were put on record, and those for a connection are added to its
output. -/
structure Worker.Emits (cfg : ServerConfig) (c inst : ℕ) (w w' : Worker)
    (packets : List QueuedPacket) : Prop where
  conn : (w.conns c).Emits (w'.conns c) (bytesOn cfg inst packets)
  log : ∃ entries, w'.log = w.log ++ entries ∧
    entries.filter Entry.isReply = packets.map QueuedPacket.entry

section Emits

variable {conn conn' conn'' : Conn} {bytes bytes' : List UInt8}

theorem Conn.Emits.of_eq (hinst : conn'.inst = conn.inst) (hbuf : conn'.writeBuf = conn.writeBuf)
    (hoff : conn'.writeOff = conn.writeOff) (hsent : conn'.sent = conn.sent) :
    conn.Emits conn' [] := by
  refine ⟨hinst, fun h => ?_, fun _ => ?_⟩
  · rw [Conn.Within, hoff, hbuf]
    exact h
  · rw [Conn.output, hsent, hbuf, hoff, List.append_nil]
    rfl

theorem Conn.Emits.refl (conn : Conn) : conn.Emits conn [] := .of_eq rfl rfl rfl rfl

theorem Conn.Emits.trans (h : conn.Emits conn' bytes) (h' : conn'.Emits conn'' bytes') :
    conn.Emits conn'' (bytes ++ bytes') := by
  refine ⟨h'.inst.trans h.inst, fun hwithin => h'.within (h.within hwithin), fun hwithin => ?_⟩
  rw [h'.output (h.within hwithin), h.output hwithin, List.append_assoc]

/-- Output is queued. -/
theorem Conn.Emits.appendOut (conn : Conn) (bytes : List UInt8) (cap : ℕ) :
    conn.Emits (conn.appendOut bytes cap) bytes := by
  refine ⟨rfl, fun h => ?_, fun h => Conn.output_appendOut h bytes cap⟩
  rw [Conn.Within, Conn.appendOut, List.length_append]
  exact h.trans (Nat.le_add_right _ _)

/-- What is sent stays in the output. -/
theorem Conn.Emits.sendLoop (modify : Bool) (script : List SendResult) (conn : Conn) :
    conn.Emits (sendLoop modify script conn) [] := by
  have hsends := sendLoop_sends modify script conn
  refine ⟨?_, hsends.off_le, fun _ => by rw [hsends.output, List.append_nil]⟩
  rw [hsends.same]
  rfl

theorem Worker.emits_setConn {w : Worker} {c : ℕ} (h : (w.conns c).Emits conn []) (c' : ℕ) :
    (w.conns c').Emits ((w.setConn c conn).conns c') [] := by
  by_cases hc : c' = c
  · subst hc
    rwa [conns_setConn_self]
  · rw [conns_setConn_of_ne _ _ _ hc]
    exact .refl _

variable {cfg : ServerConfig} {c inst : ℕ} {w w' w'' : Worker} {packets packets' : List QueuedPacket}

theorem Worker.Emits.trans (h : w.Emits cfg c inst w' packets)
    (h' : w'.Emits cfg c inst w'' packets') : w.Emits cfg c inst w'' (packets ++ packets') := by
  obtain ⟨entries, hlog, hreplies⟩ := h.log
  obtain ⟨entries', hlog', hreplies'⟩ := h'.log
  refine ⟨?_, entries ++ entries', ?_, ?_⟩
  · rw [bytesOn, List.filter_append, List.flatMap_append]
    exact h.conn.trans h'.conn
  · rw [hlog', hlog, List.append_assoc]
  · rw [List.filter_append, hreplies, hreplies', List.map_append]

end Emits

/-- **The packets that an action delivers** to the connection `inst` in the slot `c`: if the
connection is open at the end, and no buffer was refused, they are added to its output. -/
structure Worker.Delivers (cfg : ServerConfig) (c inst : ℕ) (w w' : Worker)
    (packets : List QueuedPacket) : Prop where
  listed : w'.Has c inst → w.Has c inst
  emits : w'.Has c inst → w'.queueFailed = false → w.Emits cfg c inst w' packets
  within : (∀ c, (w.conns c).Within) → ∀ c, (w'.conns c).Within
  failed : w'.queueFailed = false → w.queueFailed = false
  tick : w.tick ≤ w'.tick
  nextInst : w.nextInst ≤ w'.nextInst

theorem Worker.Delivers.trans {cfg : ServerConfig} {c inst : ℕ} {w w' w'' : Worker}
    {packets packets' : List QueuedPacket} (h : w.Delivers cfg c inst w' packets)
    (h' : w'.Delivers cfg c inst w'' packets') :
    w.Delivers cfg c inst w'' (packets ++ packets') where
  listed hhas := h.listed (h'.listed hhas)
  emits hhas hok := (h.emits (h'.listed hhas) (h'.failed hok)).trans (h'.emits hhas hok)
  within hwithin := h'.within (h.within hwithin)
  failed hok := h.failed (h'.failed hok)
  tick := h.tick.trans h'.tick
  nextInst := h.nextInst.trans h'.nextInst

/-- An action that queues no packet. -/
theorem Worker.Delivers.quiet {cfg : ServerConfig} {c inst : ℕ} {w w' : Worker} {entries : List Entry}
    (hconns : ∀ c, (w.conns c).Emits (w'.conns c) []) (hlist : w'.connections = w.connections)
    (hlog : w'.log = w.log ++ entries) (hentries : ∀ e ∈ entries, e.isReply = false)
    (hfailed : w'.queueFailed = w.queueFailed) (htick : w.tick ≤ w'.tick)
    (hnext : w.nextInst ≤ w'.nextInst) : w.Delivers cfg c inst w' [] where
  listed hhas := ⟨hlist ▸ hhas.1, (hconns c).inst ▸ hhas.2⟩
  emits _ _ := by
    refine ⟨hconns c, entries, hlog, List.filter_eq_nil_iff.mpr fun e he => ?_⟩
    rw [hentries e he]
    exact Bool.false_ne_true
  within hwithin c := (hconns c).within (hwithin c)
  failed hok := hfailed ▸ hok
  tick := htick
  nextInst := hnext

/-! ## Steps that resume no call -/

/-- **What an action does that resumes no call**, seen from the connection `inst` in the slot `c`. A
call or a packet that is new belongs to a request of the tick `t` or a later one. -/
structure Worker.Steps (cfg : ServerConfig) (c inst t : ℕ) (w w' : Worker)
    (packets : List QueuedPacket) : Prop extends Worker.Delivers cfg c inst w w' packets where
  kept : ∀ k ∈ w.ready, k ∈ w'.ready ∧ w'.calls k = w.calls k
  called : ∀ k ∈ w'.ready, ∀ call, w'.calls k = some call →
    (k ∈ w.ready ∧ w.calls k = some call) ∨ t ≤ call.request.tick ∧ call.request.tick < w'.tick
  deferred : ∀ d ∈ w'.undrained,
    (d ∈ w.undrained ∧ (w'.deferreds d).request = (w.deferreds d).request) ∨
      t ≤ (w'.deferreds d).request.tick ∧ (w'.deferreds d).request.tick < w'.tick
  origin : ∀ p ∈ packets, t ≤ p.request.tick ∨ ∃ d ∈ w.undrained, (w.deferreds d).request = p.request

section Steps

variable {cfg : ServerConfig} {env : ℕ → Env} {c c' d inst t : ℕ} {w w' w'' : Worker}
  {packets packets' : List QueuedPacket}

theorem Worker.Steps.trans (h : w.Steps cfg c inst t w' packets)
    (h' : w'.Steps cfg c inst t w'' packets') :
    w.Steps cfg c inst t w'' (packets ++ packets') where
  toDelivers := h.toDelivers.trans h'.toDelivers
  kept k hk := by
    obtain ⟨hk', hcalls⟩ := h.kept k hk
    obtain ⟨hk'', hcalls'⟩ := h'.kept k hk'
    exact ⟨hk'', hcalls'.trans hcalls⟩
  called k hk call hcall := by
    rcases h'.called k hk call hcall with ⟨hk', hcall'⟩ | hnew
    · rcases h.called k hk' call hcall' with hold | ⟨hle, hlt⟩
      · exact .inl hold
      · exact .inr ⟨hle, hlt.trans_le h'.tick⟩
    · exact .inr hnew
  deferred d hd := by
    rcases h'.deferred d hd with ⟨hd', heq'⟩ | hnew
    · rcases h.deferred d hd' with ⟨hold, heq⟩ | ⟨hle, hlt⟩
      · exact .inl ⟨hold, heq'.trans heq⟩
      · rw [heq']
        exact .inr ⟨hle, hlt.trans_le h'.tick⟩
    · exact .inr hnew
  origin p hp := by
    rcases List.mem_append.mp hp with hp | hp
    · exact h.origin p hp
    · rcases h'.origin p hp with hle | ⟨d, hd, heq⟩
      · exact .inl hle
      · rcases h.deferred d hd with ⟨hold, hsame⟩ | ⟨hle, -⟩
        · exact .inr ⟨d, hold, hsame.symm.trans heq⟩
        · exact .inl (heq ▸ hle)

/-- An action that queues no packet and makes no call. -/
theorem Worker.Steps.quiet {entries : List Entry}
    (hconns : ∀ c, (w.conns c).Emits (w'.conns c) []) (hlist : w'.connections = w.connections)
    (hlog : w'.log = w.log ++ entries) (hentries : ∀ e ∈ entries, e.isReply = false)
    (hfailed : w'.queueFailed = w.queueFailed) (htick : w.tick ≤ w'.tick)
    (hnext : w.nextInst ≤ w'.nextInst) (hready : w'.ready = w.ready)
    (hcalls : ∀ k ∈ w.ready, w'.calls k = w.calls k)
    (hdeferred : ∀ d ∈ w'.undrained,
      d ∈ w.undrained ∧ (w'.deferreds d).request = (w.deferreds d).request) :
    w.Steps cfg c inst t w' [] where
  toDelivers := .quiet hconns hlist hlog hentries hfailed htick hnext
  kept k hk := ⟨hready ▸ hk, hcalls k hk⟩
  called k hk call hcall := by
    rw [hready] at hk
    exact .inl ⟨hk, hcalls k hk ▸ hcall⟩
  deferred d hd := .inl (hdeferred d hd)
  origin := List.forall_mem_nil _

theorem Worker.Steps.refl (w : Worker) : w.Steps cfg c inst t w [] :=
  .quiet (fun _ => .refl _) rfl (List.append_nil _).symm (List.forall_mem_nil _) rfl le_rfl le_rfl rfl
    (fun _ _ => rfl) fun _ hd => ⟨hd, rfl⟩

/-- A connection is stored whose output is as it was. -/
theorem Worker.Steps.setConn {conn : Conn} (h : (w.conns c').Emits conn []) :
    w.Steps cfg c inst t (w.setConn c' conn) [] :=
  .quiet (Worker.emits_setConn h) rfl (List.append_nil _).symm (List.forall_mem_nil _) rfl le_rfl
    le_rfl rfl (fun _ _ => rfl) fun _ hd => ⟨hd, rfl⟩

theorem Worker.within_setConn {conn : Conn} (hconn : conn.Within) (h : ∀ c, (w.conns c).Within)
    (c : ℕ) : ((w.setConn c' conn).conns c).Within := by
  by_cases hc : c = c'
  · subst hc
    rwa [conns_setConn_self]
  · rw [conns_setConn_of_ne _ _ _ hc]
    exact h c

/-- **A packet is queued**, on this connection or on another. -/
theorem Queues.steps {request : Request} {op : Op} {procId callId : UInt64} {data : List UInt8}
    {result : Rc × Worker} (h : Queues cfg w c' request op procId callId data result)
    (hother : w.Has c inst → c' ≠ c → (w.conns c').inst ≠ inst)
    (horigin : t ≤ request.tick ∨ ∃ d ∈ w.undrained, (w.deferreds d).request = request) :
    w.Steps cfg c inst t result.2 [⟨(w.conns c').inst, request, op, procId, callId, data⟩] := by
  have horigin' : ∀ p ∈ [QueuedPacket.mk (w.conns c').inst request op procId callId data],
      t ≤ p.request.tick ∨ ∃ d ∈ w.undrained, (w.deferreds d).request = p.request := by
    intro p hp
    rw [List.mem_singleton.mp hp]
    exact horigin
  cases h with
  | failed bytes cap =>
    have hemits := Conn.Emits.appendOut (w.conns c') bytes cap
    have hinst := Worker.inst_setConn hemits.inst c
    exact
      { listed := fun hhas => ⟨hhas.1, hinst.symm.trans hhas.2⟩
        emits := fun _ hok => by cases hok
        within := fun hwithin => Worker.within_setConn (hemits.within (hwithin c')) hwithin
        failed := fun hok => by cases hok
        tick := le_rfl
        nextInst := le_rfl
        kept := fun k hk => ⟨hk, rfl⟩
        called := fun k hk call hcall => .inl ⟨hk, hcall⟩
        deferred := fun d hd => .inl ⟨hd, rfl⟩
        origin := horigin' }
  | @queued front cap hfront =>
    have hemits : (w.conns c').Emits
        { (w.conns c').appendOut (front ++ data) cap with writeQueued := true } (front ++ data) := by
      have hflag : ((w.conns c').appendOut (front ++ data) cap).Emits
          { (w.conns c').appendOut (front ++ data) cap with writeQueued := true } [] :=
        .of_eq rfl rfl rfl rfl
      have hqueued := (Conn.Emits.appendOut (w.conns c') (front ++ data) cap).trans hflag
      rwa [List.append_nil] at hqueued
    rw [Worker.queued_eq]
    generalize ({ (w.conns c').appendOut (front ++ data) cap with writeQueued := true } : Conn) = conn
      at hemits ⊢
    have hinst := Worker.inst_setConn hemits.inst c
    refine
      { listed := fun hhas => ⟨hhas.1, hinst.symm.trans hhas.2⟩
        emits := fun hhas _ => ⟨?_, _, rfl, ?_⟩
        within := fun hwithin => Worker.within_setConn (hemits.within (hwithin c')) hwithin
        failed := id
        tick := le_rfl
        nextInst := le_rfl
        kept := fun k hk => ⟨hk, rfl⟩
        called := fun k hk call hcall => .inl ⟨hk, hcall⟩
        deferred := fun d hd => .inl ⟨hd, rfl⟩
        origin := horigin' }
    · have hhas' : w.Has c inst := ⟨hhas.1, hinst.symm.trans hhas.2⟩
      by_cases hc : c' = c
      · subst hc
        have hbytes : bytesOn cfg inst [⟨(w.conns c').inst, request, op, procId, callId, data⟩] =
            front ++ data := by
          simp [bytesOn, QueuedPacket.bytes, hhas'.2, hfront]
        change (w.conns c').Emits (Function.update w.conns c' _ c') _
        rw [Function.update_self, hbytes]
        exact hemits
      · have hbytes :
            bytesOn cfg inst [⟨(w.conns c').inst, request, op, procId, callId, data⟩] = [] := by
          simp [bytesOn, hother hhas' hc]
        change (w.conns c).Emits (Function.update w.conns c' _ c) _
        rw [Function.update_of_ne (Ne.symm hc), hbytes]
        exact .refl _
    · rfl

/-- A buffer could not grow, and nothing is said about the output any more. -/
theorem failQueue_steps (w : Worker) : w.Steps cfg c inst t w.failQueue [] := by
  have hsteps : w.Steps cfg c inst t w [] := .refl w
  exact
    { hsteps with
      emits := fun _ hok => by cases hok
      failed := fun hok => by cases hok }

/-- An attempt to queue a packet, on any slot. -/
theorem Attempts.steps {request : Request} {op : Op} {procId callId : UInt64}
    (h : Attempts cfg w c' request op procId callId w')
    (hother : (w.conns c').Open → w.Has c inst → c' ≠ c → (w.conns c').inst ≠ inst)
    (horigin : t ≤ request.tick ∨ ∃ d ∈ w.undrained, (w.deferreds d).request = request) :
    ∃ packets, w.Steps cfg c inst t w' packets ∧ ∀ p ∈ packets, p.request = request := by
  cases h with
  | queues hopen hqueues =>
    refine ⟨_, hqueues.steps (hother hopen) horigin, fun p hp => ?_⟩
    rw [List.mem_singleton.mp hp]
  | refused => exact ⟨[], .refl w, List.forall_mem_nil _⟩
  | failed => exact ⟨[], failQueue_steps w, List.forall_mem_nil _⟩

/-- Another slot that is in use holds another connection. -/
theorem Inv.inst_ne {m : Mid} (hinv : Inv m) (hlive : m.worker.connectionArena.Live c')
    (hhas : m.worker.Has c inst) (hne : c' ≠ c) : (m.worker.conns c').inst ≠ inst := by
  intro heq
  have hlive' := ((hinv.conn.mem_connections c).mp hhas.1).1
  exact hne (hinv.conn.inst_inj c' c hlive hlive' (heq.trans hhas.2.symm))

/-! ## The actions -/

theorem connectionWrite_steps (env : ℕ → Env) (w : Worker) (c' : ℕ) (script : List SendResult) :
    w.Steps cfg c inst t (connectionWrite env w c' script) [] :=
  .quiet (Worker.emits_setConn (.sendLoop _ script _)) rfl (List.append_nil _).symm
    (List.forall_mem_nil _) rfl (Nat.le_succ _) le_rfl rfl (fun _ _ => rfl) fun _ hd => ⟨hd, rfl⟩

theorem complete_steps (w : Worker) (d : ℕ) (completion : Completion) :
    w.Steps cfg c inst t (complete w d completion) [] := by
  have hentry : ∀ e ∈ [Entry.completion (w.deferreds d).request completion.isOk],
      e.isReply = false := by
    intro e he
    rw [List.mem_singleton.mp he]
    rfl
  cases hdone : (w.deferreds d).completed with
  | true =>
    rw [complete_of_completed hdone]
    exact .quiet (fun _ => .refl _) rfl rfl hentry rfl le_rfl le_rfl rfl (fun _ _ => rfl)
      fun _ hd => ⟨hd, rfl⟩
  | false =>
    obtain ⟨response, result, error, -, heq⟩ := complete_of_open hdone completion
    rw [heq]
    refine .quiet (fun _ => .refl _) rfl rfl hentry rfl le_rfl le_rfl rfl (fun _ _ => rfl)
      fun d' hd' => ⟨hd', ?_⟩
    dsimp only
    by_cases hd : d' = d
    · subst hd
      rw [Function.update_self]
    · rw [Function.update_of_ne hd]

/-- **The end of a connection** leaves the others alone. -/
theorem connectionDestroy_steps (hgone : c' ∉ (connectionDestroy cfg w c').connections) :
    w.Steps cfg c inst t (connectionDestroy cfg w c') [] := by
  have hsub : ∀ c ∈ (connectionDestroy cfg w c').connections, c ∈ w.connections := by
    intro c hc
    unfold connectionDestroy at hc
    simp only at hc
    split_ifs at hc
    all_goals first | exact hc | exact List.mem_of_mem_erase hc
  have hwithin : (∀ c, (w.conns c).Within) → ∀ c, ((connectionDestroy cfg w c').conns c).Within := by
    intro hwithin c
    by_cases hc : c = c'
    · subst hc
      have hdetach :
          ((if (w.conns c).detached = true then w else detachConnection w c).conns c).Within := by
        split_ifs
        · exact hwithin c
        · rw [detachConnection_self]
          exact Nat.le_refl 0
      unfold connectionDestroy
      simp only
      generalize (if (w.conns c).detached = true then w else detachConnection w c) = w₁ at hdetach ⊢
      split_ifs
      · exact hdetach
      · obtain ⟨fd, hconn, -⟩ := freeConnection_conns cfg w₁ c c
        rw [hconn]
        exact hdetach
    · rw [connectionDestroy_of_ne cfg w hc]
      exact hwithin c
  have hself : c ∈ (connectionDestroy cfg w c').connections →
      (connectionDestroy cfg w c').conns c = w.conns c :=
    fun hc => connectionDestroy_of_ne cfg w fun heq => hgone (heq ▸ hc)
  obtain ⟨conns, arena, connections, writes, entries, hfrees, heq⟩ := connectionDestroy_eq cfg w c'
  rw [heq] at hgone hsub hwithin hself ⊢
  exact
    { listed := fun hhas => ⟨hsub c hhas.1, (congrArg Conn.inst (hself hhas.1)).symm.trans hhas.2⟩
      emits := fun hhas _ => by
        refine ⟨?_, entries, rfl, ?_⟩
        · rw [hself hhas.1]
          exact .refl _
        · cases hfrees <;> rfl
      within := hwithin
      failed := id
      tick := le_rfl
      nextInst := le_rfl
      kept := fun k hk => ⟨hk, rfl⟩
      called := fun k hk call hcall => .inl ⟨hk, hcall⟩
      deferred := fun d hd => .inl ⟨hd, rfl⟩
      origin := List.forall_mem_nil _ }

/-- A new connection has a number of its own. -/
theorem workerAddConnection_steps {fd : Int} {fds : List Int} (hinv : Inv ⟨w, [], [], fd :: fds⟩)
    (hinst : inst ≠ w.nextInst) : w.Steps cfg c inst t (workerAddConnection cfg env w fd) [] := by
  cases halloc : w.connectionArena.alloc with
  | none =>
    rw [workerAddConnection, halloc]
    exact .refl w
  | some slot =>
    obtain ⟨c', arena⟩ := slot
    have hdead := (Arena.live_alloc hinv.conn.arena halloc).1
    have hadded : w.Steps cfg c inst t (w.added c' arena fd) [] := by
      have hself : (w.added c' arena fd).Has c inst → c ≠ c' := by
        rintro ⟨-, heq⟩ rfl
        rw [Worker.added_self] at heq
        exact hinst heq.symm
      have hlisted : (w.added c' arena fd).Has c inst → w.Has c inst := by
        intro hhas
        have hne := hself hhas
        refine ⟨(List.mem_cons.mp hhas.1).resolve_left hne, ?_⟩
        rw [← Worker.added_of_ne w arena fd hne]
        exact hhas.2
      exact
        { listed := hlisted
          emits := fun hhas _ => by
            refine ⟨?_, [], (List.append_nil _).symm, rfl⟩
            rw [Worker.added_of_ne w arena fd (hself hhas)]
            exact .refl _
          within := Worker.within_setConn (Nat.le_refl 0)
          failed := id
          tick := Nat.le_succ _
          nextInst := Nat.le_succ _
          kept := fun k hk => ⟨hk, rfl⟩
          called := fun k hk call hcall => .inl ⟨hk, hcall⟩
          deferred := fun d hd => .inl ⟨hd, rfl⟩
          origin := List.forall_mem_nil _ }
    rw [workerAddConnection_eq halloc]
    split_ifs
    · exact hadded.trans (.setConn (.of_eq rfl rfl rfl rfl))
    · refine hadded.trans (connectionDestroy_steps ?_)
      have hattached : ((w.added c' arena fd).conns c').detached = false := by
        rw [Worker.added_self]
        rfl
      rw [connectionDestroy_connections cfg hattached]
      change c' ∉ (c' :: w.connections).erase c'
      rw [List.erase_cons_head]
      exact fun hc => hdead ((hinv.conn.mem_connections c').mp hc).1

/-- **A completed call is drained**: the packet that is queued is for a call that waits. -/
theorem drainOne_steps {done : List ℕ} (hinv : Inv ⟨w, [], d :: done, []⟩) :
    ∃ packets, w.Steps cfg c inst t (drainOne cfg env w d) packets := by
  have hd : d ∈ w.undrained :=
    ((hinv.defer.mem_done d).mp (List.mem_append_right _ List.mem_cons_self)).1
  have hlive := hinv.defer.conn_live d hd
  obtain ⟨w₁, w₂, hw₁, hw₂, heq⟩ := drainOne_eq cfg env w d
  obtain ⟨op, hattempts⟩ := replyDeferred_attempts cfg (env w.tick).mem w d
  rw [hw₁] at hattempts
  obtain ⟨packets, hreplied, -⟩ :=
    hattempts.steps (t := t) (fun _ hhas hne => hinv.inst_ne hlive hhas hne) (.inr ⟨d, hd, rfl⟩)
  have hsettled : w₁.Steps cfg c inst t w₂ [] := by
    rw [← hw₂]
    refine .quiet (fun c => ?_) rfl (List.append_nil _).symm (List.forall_mem_nil _) rfl
      (Nat.le_succ _) le_rfl rfl (fun _ _ => rfl) fun d' hd' => ⟨List.mem_of_mem_erase hd', rfl⟩
    obtain ⟨n, hn, -⟩ := settleDeferred_conns w₁ d c
    exact (hn ▸ .of_eq rfl rfl rfl rfl : (w₁.conns c).Emits ((settleDeferred w₁ d).conns c) [])
  rw [heq]
  split_ifs with hgone
  · refine ⟨_, (hreplied.trans hsettled).trans (connectionDestroy_steps ?_)⟩
    -- the connection was taken off the list when it was detached
    have hdetached : (w.conns (w.deferreds d).conn).detached = true := by
      obtain ⟨n, hn, -⟩ := settleDeferred_conns w₁ d (w.deferreds d).conn
      rw [← (hattempts.marks.2 _).detached]
      rw [← hw₂] at hgone
      exact (congrArg Conn.detached hn).symm.trans hgone.1
    have hlist : (connectionDestroy cfg w₂ (w.deferreds d).conn).connections = w.connections := by
      rw [← hattempts.connections]
      simp only [connectionDestroy, if_pos hgone.1]
      rw [← hw₂]
      split_ifs <;> rfl
    rw [hlist]
    intro hc
    have hattached := ((hinv.conn.mem_connections _).mp hc).2
    exact Bool.false_ne_true (hattached.symm.trans hdetached)
  · exact ⟨_, hreplied.trans hsettled⟩

theorem flushWrite_steps (env : ℕ → Env) (script : List SendResult) (w : Worker) (c' : ℕ) :
    w.Steps cfg c inst t (flushWrite env script w c') [] :=
  flushWrite_rule (P := fun w' => w.Steps cfg c inst t w' []) (.setConn (.of_eq rfl rfl rfl rfl))
    fun w' hw' _ => hw'.trans (connectionWrite_steps env w' c' script)

/-- The record of a dispatch. -/
theorem dispatching_steps (w : Worker) (c' : ℕ) (header : Header) (payload : List UInt8) :
    w.Steps cfg c inst t (w.dispatching c' header payload) [] := by
  refine .quiet (fun _ => .refl _) rfl rfl (fun e he => ?_) rfl (Nat.le_succ _) le_rfl rfl
    (fun _ _ => rfl) fun _ hd => ⟨hd, rfl⟩
  rw [List.mem_singleton.mp he]
  rfl

/-- A slot of the call arena is taken or given back that holds no queued call. -/
theorem Worker.Steps.calls {k : ℕ} (hk : k ∉ w.ready) {called : Option Call} {arena : Arena}
    (heq : w' = { w with calls := Function.update w.calls k called, callArena := arena }) :
    w.Steps cfg c inst t w' [] := by
  subst heq
  refine .quiet (fun _ => .refl _) rfl (List.append_nil _).symm (List.forall_mem_nil _) rfl le_rfl
    le_rfl rfl (fun k' hk' => Function.update_of_ne ?_ _ _) fun _ hd => ⟨hd, rfl⟩
  rintro rfl
  exact hk hk'

theorem takeCall_steps {k : ℕ} (hk : k ∉ w.ready) (arena : Arena) (call : Call) :
    w.Steps cfg c inst t (w.takeCall k arena call) [] := .calls hk rfl

theorem callFree_steps {k : ℕ} (hk : k ∉ w.ready) : w.Steps cfg c inst t (callFree w k) [] :=
  .calls hk rfl

/-- A slot of the deferred arena is taken that holds no undrained call. -/
theorem takeDeferred_steps (hd : d ∉ w.undrained) (arena : Arena) (call : Deferred) :
    w.Steps cfg c inst t (w.takeDeferred d arena call) [] := by
  refine .quiet (fun _ => .refl _) rfl (List.append_nil _).symm (List.forall_mem_nil _) rfl le_rfl
    le_rfl rfl (fun _ _ => rfl) fun d' hd' => ⟨hd', ?_⟩
  refine congrArg Deferred.request (Function.update_of_ne ?_ _ _)
  rintro rfl
  exact hd hd'

theorem deferredFree_steps (w : Worker) (d : ℕ) : w.Steps cfg c inst t (deferredFree w d) [] :=
  .quiet (fun _ => .refl _) rfl (List.append_nil _).symm (List.forall_mem_nil _) rfl le_rfl le_rfl rfl
    (fun _ _ => rfl) fun _ hd => ⟨hd, rfl⟩

/-- A deferred call is issued. -/
theorem issueDeferred_steps (hle : t ≤ (w.deferreds d).request.tick)
    (hlt : (w.deferreds d).request.tick < w.tick) :
    w.Steps cfg c inst t (issueDeferred w c' d) [] := by
  have hcounted : w.Steps cfg c inst t
      (w.setConn c' { w.conns c' with pendingDeferred := (w.conns c').pendingDeferred + 1 }) [] :=
    .setConn (.of_eq rfl rfl rfl rfl)
  exact
    { hcounted with
      emits := fun hhas hok => ⟨(hcounted.emits hhas hok).conn, (hcounted.emits hhas hok).log⟩
      deferred := fun d' hd' => by
        rcases List.mem_append.mp hd' with hold | hnew
        · exact .inl ⟨hold, rfl⟩
        · rw [List.mem_singleton.mp hnew]
          exact .inr ⟨hle, hlt⟩ }

/-- A call is queued. -/
theorem startCall_steps {k : ℕ} {call : Call} (hk : k ∉ w.ready) (hle : t ≤ call.request.tick)
    (hlt : call.request.tick < w.tick) : w.Steps cfg c inst t (w.startCall k call) [] := by
  have hsame : ∀ k' ∈ w.ready, Function.update w.calls k (some call) k' = w.calls k' := by
    intro k' hk'
    refine Function.update_of_ne ?_ _ _
    rintro rfl
    exact hk hk'
  have hsteps : w.Steps cfg c inst t w [] := .refl w
  exact
    { hsteps with
      emits := fun hhas hok => ⟨(hsteps.emits hhas hok).conn, (hsteps.emits hhas hok).log⟩
      kept := fun k' hk' => ⟨List.mem_append_left _ hk', hsame k' hk'⟩
      called := fun k' hk' call' hcall' => by
        rcases List.mem_append.mp hk' with hold | hnew
        · exact .inl ⟨hold, (hsame k' hold).symm.trans hcall'⟩
        · rw [List.mem_singleton.mp hnew] at hcall'
          obtain rfl : call = call' := by
            simpa only [Worker.startCall, Function.update_self, Option.some.injEq] using hcall'
          exact .inr ⟨hle, hlt⟩ }

/-- **A packet is handled**: what is queued or called belongs to it. -/
theorem Handles.steps {m : Mid} {e : Env} {header : Header} {payload : List UInt8} {rc : Rc}
    (hinv : Inv m) (hc : c' ∈ m.worker.connections)
    (h : Handles cfg e m.worker c' header payload (rc, w')) :
    ∃ packets, m.worker.Steps cfg c inst m.worker.tick w' packets := by
  have hdispatched := @dispatching_steps cfg c inst m.worker.tick m.worker c' header payload
  have hlive := ((hinv.conn.mem_connections c').mp hc).1
  have hother : m.worker.Has c inst → c' ≠ c → (m.worker.conns c').inst ≠ inst :=
    fun hhas hne => hinv.inst_ne hlive hhas hne
  generalize hresult : (rc, w') = result at h
  cases h with
  | @replied w₁ op procId callId data _ hchurn hreply hqueues =>
    subst hresult
    have hchurned : (m.worker.dispatching c' header payload).Steps cfg c inst m.worker.tick w₁ [] := by
      cases hchurn with
      | none => exact .refl _
      | @deferred d _ call halloc =>
        have hd : d ∉ (m.worker.dispatching c' header payload).undrained :=
          hinv.defer.not_mem_undrained halloc
        exact (takeDeferred_steps hd _ call).trans (deferredFree_steps _ _)
      | @call k _ call halloc =>
        have hk : k ∉ (m.worker.dispatching c' header payload).ready :=
          (hinv.call.take call halloc).2.2
        exact (takeCall_steps hk _ call).trans (callFree_steps hk)
    refine ⟨_, (hdispatched.trans hchurned).trans (hqueues.steps ?_ (.inl le_rfl))⟩
    intro hhas hne
    rw [hchurn.conns]
    exact hother (hdispatched.listed (hchurned.listed hhas)) hne
  | @notStarted k arena call op procId callId data result halloc hreply hqueues =>
    cases hresult
    have hk : k ∉ (m.worker.dispatching c' header payload).ready :=
      (hinv.call.take call halloc).2.2
    have htaken : (m.worker.dispatching c' header payload).Steps cfg c inst m.worker.tick
        ((m.worker.dispatching c' header payload).takeCall k arena call) [] :=
      takeCall_steps hk arena call
    have hqueued := hqueues.steps (t := m.worker.tick) hother (.inl le_rfl)
    obtain ⟨conns, writes, entries, failed, -, heq⟩ := hqueues.eq
    have hready : k ∉ result.2.ready := by
      rw [heq]
      exact hk
    exact ⟨_, ((hdispatched.trans htaken).trans hqueued).trans (callFree_steps hready)⟩
  | disconnected hop =>
    cases hresult
    exact ⟨_, hdispatched.trans (.setConn (.of_eq rfl rfl rfl rfl))⟩
  | @issued d arena outcome hop halloc hsucceeds =>
    cases hresult
    have hd : d ∉ (m.worker.dispatching c' header payload).undrained :=
      hinv.defer.not_mem_undrained halloc
    have htaken : (m.worker.dispatching c' header payload).Steps cfg c inst m.worker.tick
        ((m.worker.dispatching c' header payload).takeDeferred d arena
          (newDeferred c' (m.worker.request c') header)) [] := takeDeferred_steps hd arena _
    have hrequest : (((m.worker.dispatching c' header payload).takeDeferred d arena
        (newDeferred c' (m.worker.request c') header)).deferreds d).request = m.worker.request c' := by
      simp only [Worker.takeDeferred, Function.update_self, newDeferred]
    have hissued := (hdispatched.trans htaken).trans (@issueDeferred_steps cfg c c' d inst
      m.worker.tick _ (by rw [hrequest]; rfl) (by rw [hrequest]; exact Nat.lt_succ_self _))
    refine ⟨[], runDeferred_rule (P := fun w' => m.worker.Steps cfg c inst m.worker.tick w' []) ?_
      hissued outcome⟩
    exact fun w' completion hw' => hw'.trans (complete_steps w' d completion)
  | @submitted k arena call args hop hasync halloc hconn hrequest =>
    cases hresult
    have hk : k ∉ (m.worker.dispatching c' header payload).ready :=
      (hinv.call.take call halloc).2.2
    have htaken : (m.worker.dispatching c' header payload).Steps cfg c inst m.worker.tick
        ((m.worker.dispatching c' header payload).takeCall k arena call) [] :=
      takeCall_steps hk arena call
    refine ⟨_, (hdispatched.trans htaken).trans (startCall_steps hk ?_ ?_)⟩
    · exact hrequest ▸ le_rfl
    · exact hrequest ▸ Nat.lt_succ_self _

/-- **Every action but a resume** is such a step. -/
theorem Mid.Acts.steps {m m' : Mid} {action : Action} (h : Mid.Acts cfg env m action m')
    (hinv : Inv m) (hinst : inst ≠ m.worker.nextInst) (hresume : ∀ r, action ≠ .resume r) :
    ∃ packets, m.worker.Steps cfg c inst m.worker.tick m'.worker packets := by
  cases h with
  | input readBuf readCap received closing ticks failed hc =>
    refine ⟨[], .quiet (Worker.emits_setConn (.of_eq rfl rfl rfl rfl)) rfl (List.append_nil _).symm
      (List.forall_mem_nil _) rfl (Nat.le_add_right _ _) le_rfl rfl (fun _ _ => rfl)
      fun _ hd => ⟨hd, rfl⟩⟩
  | @packet m c' header payload hc hvalid =>
    have hhandles := handlePacket_handles cfg env (hinv.isOpen hc) header payload
    generalize handlePacket cfg env m.worker c' header payload = result at hhandles ⊢
    obtain ⟨rc, w'⟩ := result
    exact hhandles.steps hinv hc
  | write script hc => exact ⟨[], connectionWrite_steps env _ _ script⟩
  | @close m c' hc hwrites hclosing hsent hfds =>
    refine ⟨[], connectionDestroy_steps ?_⟩
    rw [connectionDestroy_connections cfg (hinv.isOpen hc).1]
    exact hinv.conn.nodup.not_mem_erase
  | add w fd fds => exact ⟨[], workerAddConnection_steps hinv hinst⟩
  | drain w d done => exact drainOne_steps hinv
  | complete completion hd => exact ⟨[], complete_steps _ _ completion⟩
  | resume hresumed => exact absurd rfl (hresume _)
  | flush w c' writes script => exact ⟨[], flushWrite_steps env script w c'⟩
  | _ =>
    -- lists are taken off the worker, or sockets handed over
    exact ⟨[], .quiet (fun _ => .refl _) rfl (List.append_nil _).symm (List.forall_mem_nil _) rfl
      le_rfl le_rfl rfl (fun _ _ => rfl) fun _ hd => ⟨hd, rfl⟩⟩

end Steps

end Wirecall

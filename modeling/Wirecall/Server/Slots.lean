import Wirecall.Server.Rules

/-!
# The slots of a worker

Which slots of the three arenas are in use, which lists they are on and what points to them. The
invariant is stated on a worker in the middle of a function; here it is proved for everything that
handling a packet can do.

## Main definitions

* `ConnInv`, `WriteInv`, `DeferInv`, `CallInv`: connections, pending writes, deferred calls and
  scheduler calls
* `Inv`: all of them

## Main results

* `Inv.queues`, `Inv.issue`, `Inv.complete`, `Inv.submit`: what handling a packet is made of
* `Inv.handle`: handling a packet preserves the invariant
-/

namespace Wirecall

/-- A slot that was given back to the connection arena. -/
structure Freed where
  slot : ℕ
  inst : ℕ
  detached : Bool
  pointing : ℕ

/-- The slots given back so far. -/
def freedOf (log : List Entry) : List Freed :=
  log.filterMap fun
    | .freed slot inst detached pointing => some ⟨slot, inst, detached, pointing⟩
    | _ => none

@[simp] theorem freedOf_append (log log' : List Entry) :
    freedOf (log ++ log') = freedOf log ++ freedOf log' := List.filterMap_append

/-- **The slots of connections.** A slot is on the list exactly while it is live and attached, it
is given back once, detached, and without calls that point to it, and it is given back as soon as
that holds; `loose` is a slot for which this is about to be done. -/
structure ConnInv (w : Worker) (loose : Option ℕ) : Prop where
  arena : w.connectionArena.WellFormed
  mem_connections : ∀ c, c ∈ w.connections ↔
    w.connectionArena.Live c ∧ (w.conns c).detached = false
  nodup : w.connections.Nodup
  fd_nonneg : ∀ c ∈ w.connections, 0 ≤ (w.conns c).fd
  inst_lt : ∀ c, w.connectionArena.Live c → (w.conns c).inst < w.nextInst
  inst_inj : ∀ c c', w.connectionArena.Live c → w.connectionArena.Live c' →
    (w.conns c).inst = (w.conns c').inst → c = c'
  gone : ∀ c ∈ w.connectionArena.freeList, (w.conns c).detached = true
  lingering : ∀ c, loose ≠ some c → w.connectionArena.Live c → (w.conns c).detached = true →
    (w.conns c).pendingDeferred ≠ 0
  freed_ok : ∀ f ∈ freedOf w.log, f.detached = true ∧ f.pointing = 0
  freed_lt : ∀ f ∈ freedOf w.log, f.inst < w.nextInst
  freed_gone : ∀ f ∈ freedOf w.log, ∀ c, w.connectionArena.Live c → (w.conns c).inst ≠ f.inst
  freed_nodup : ((freedOf w.log).map Freed.inst).Nodup

/-- **The connections with queued output** are on the list of pending writes, or on what was taken
off it. -/
structure WriteInv (w : Worker) (writes : List ℕ) : Prop where
  nodup : (w.pendingWrites ++ writes).Nodup
  mem_iff : ∀ c, c ∈ w.pendingWrites ++ writes ↔ (w.conns c).writeQueued = true
  attached : ∀ c, (w.conns c).writeQueued = true → c ∈ w.connections

/-- **The deferred calls** that were issued and not drained: a connection counts those that point
to it, and those that are completed wait to be drained. -/
structure DeferInv (w : Worker) (done : List ℕ) : Prop where
  arena : w.deferredArena.WellFormed
  capacity : w.deferredArena.capacity = 262144
  nodup : w.undrained.Nodup
  live : ∀ d ∈ w.undrained, w.deferredArena.Live d
  done_nodup : (w.completed ++ done).Nodup
  mem_done : ∀ d, d ∈ w.completed ++ done ↔ d ∈ w.undrained ∧ (w.deferreds d).completed = true
  conn_live : ∀ d ∈ w.undrained, w.connectionArena.Live (w.deferreds d).conn
  inst_eq : ∀ d ∈ w.undrained, (w.conns (w.deferreds d).conn).inst = (w.deferreds d).request.inst
  pending : ∀ c, (w.conns c).pendingDeferred.toNat = w.pointing c

/-- **The scheduler calls** that are ready hold live slots, and were submitted for a slot that was
handed out. -/
structure CallInv (w : Worker) : Prop where
  arena : w.callArena.WellFormed
  nodup : w.ready.Nodup
  live : ∀ k ∈ w.ready, w.callArena.Live k
  call : ∀ k ∈ w.ready, ∃ call, w.calls k = some call ∧ call.conn < w.connectionArena.watermark

/-- **The invariant of a worker.** -/
structure Inv (m : Mid) : Prop where
  conn : ConnInv m.worker none
  write : WriteInv m.worker m.writes
  defer : DeferInv m.worker m.done
  call : CallInv m.worker
  fds : ∀ fd ∈ m.worker.pendingFds ++ m.fds, 0 ≤ fd

/-! ## What does not concern the invariant -/

/-- A connection keeps what the lists and counts depend on. -/
structure Conn.Kept (conn conn' : Conn) : Prop where
  fd : conn'.fd = conn.fd
  detached : conn'.detached = conn.detached
  pendingDeferred : conn'.pendingDeferred = conn.pendingDeferred
  inst : conn'.inst = conn.inst

theorem Conn.Kept.refl (conn : Conn) : conn.Kept conn := ⟨rfl, rfl, rfl, rfl⟩

/-- Storing a connection that keeps this keeps it on all slots. -/
theorem Worker.kept_setConn {w : Worker} {c : ℕ} {conn : Conn} (h : (w.conns c).Kept conn)
    (c' : ℕ) : (w.conns c').Kept ((w.setConn c conn).conns c') := by
  by_cases hc : c' = c
  · subst hc
    rwa [Worker.conns_setConn_self]
  · rw [Worker.conns_setConn_of_ne _ _ _ hc]
    exact .refl _

section Congr

variable {w w' : Worker} {loose : Option ℕ} {writes done : List ℕ}

/-- The counts of deferred calls may change as long as no slot without one lingers. -/
theorem ConnInv.recount {loose' : Option ℕ} (h : ConnInv w loose)
    (hfd : ∀ c, (w'.conns c).fd = (w.conns c).fd)
    (hdetached : ∀ c, (w'.conns c).detached = (w.conns c).detached)
    (hinst : ∀ c, (w'.conns c).inst = (w.conns c).inst)
    (harena : w'.connectionArena = w.connectionArena) (hlist : w'.connections = w.connections)
    (hnext : w'.nextInst = w.nextInst) (hfreed : freedOf w'.log = freedOf w.log)
    (hlingering : ∀ c, loose' ≠ some c → w.connectionArena.Live c → (w.conns c).detached = true →
      (w'.conns c).pendingDeferred ≠ 0) :
    ConnInv w' loose' where
  arena := harena ▸ h.arena
  mem_connections c := by
    rw [hlist, harena, hdetached]
    exact h.mem_connections c
  nodup := hlist ▸ h.nodup
  fd_nonneg c hc := by
    rw [hfd]
    exact h.fd_nonneg c (hlist ▸ hc)
  inst_lt c hc := by
    rw [hinst, hnext]
    exact h.inst_lt c (harena ▸ hc)
  inst_inj c c' hc hc' := by
    rw [hinst, hinst]
    exact h.inst_inj c c' (harena ▸ hc) (harena ▸ hc')
  gone c hc := by
    rw [hdetached]
    exact h.gone c (harena ▸ hc)
  lingering c hloose hc := by
    rw [hdetached]
    exact hlingering c hloose (harena ▸ hc)
  freed_ok := hfreed ▸ h.freed_ok
  freed_lt := by
    rw [hfreed, hnext]
    exact h.freed_lt
  freed_gone f hf c hc := by
    rw [hinst]
    exact h.freed_gone f (hfreed ▸ hf) c (harena ▸ hc)
  freed_nodup := hfreed ▸ h.freed_nodup

theorem ConnInv.congr (h : ConnInv w loose) (hconns : ∀ c, (w.conns c).Kept (w'.conns c))
    (harena : w'.connectionArena = w.connectionArena) (hlist : w'.connections = w.connections)
    (hnext : w'.nextInst = w.nextInst) (hfreed : freedOf w'.log = freedOf w.log) :
    ConnInv w' loose := by
  refine h.recount (fun c => (hconns c).fd) (fun c => (hconns c).detached)
    (fun c => (hconns c).inst) harena hlist hnext hfreed ?_
  intro c hloose hc hdetached
  rw [(hconns c).pendingDeferred]
  exact h.lingering c hloose hc hdetached

theorem WriteInv.congr (h : WriteInv w writes)
    (hqueued : ∀ c, (w'.conns c).writeQueued = (w.conns c).writeQueued)
    (hpending : w'.pendingWrites = w.pendingWrites) (hlist : w'.connections = w.connections) :
    WriteInv w' writes where
  nodup := hpending ▸ h.nodup
  mem_iff c := by
    rw [hpending, hqueued]
    exact h.mem_iff c
  attached c hc := hlist ▸ h.attached c (hqueued c ▸ hc)

theorem DeferInv.congr (h : DeferInv w done) (hconns : ∀ c, (w.conns c).Kept (w'.conns c))
    (harena : w'.connectionArena = w.connectionArena) (hdeferreds : w'.deferreds = w.deferreds)
    (hslots : w'.deferredArena = w.deferredArena) (hundrained : w'.undrained = w.undrained)
    (hcompleted : w'.completed = w.completed) : DeferInv w' done where
  arena := hslots ▸ h.arena
  capacity := hslots ▸ h.capacity
  nodup := hundrained ▸ h.nodup
  live := by
    rw [hundrained, hslots]
    exact h.live
  done_nodup := hcompleted ▸ h.done_nodup
  mem_done d := by
    rw [hcompleted, hundrained, hdeferreds]
    exact h.mem_done d
  conn_live := by
    rw [hundrained, hdeferreds, harena]
    exact h.conn_live
  inst_eq d hd := by
    rw [hdeferreds, (hconns _).inst]
    exact h.inst_eq d (hundrained ▸ hd)
  pending c := by
    rw [(hconns c).pendingDeferred, Worker.pointing, hundrained, hdeferreds]
    exact h.pending c

theorem CallInv.congr (h : CallInv w)
    (hslots : w.connectionArena.watermark ≤ w'.connectionArena.watermark)
    (harena : w'.callArena = w.callArena) (hready : w'.ready = w.ready)
    (hcalls : w'.calls = w.calls) : CallInv w' where
  arena := harena ▸ h.arena
  nodup := hready ▸ h.nodup
  live := by
    rw [hready, harena]
    exact h.live
  call k hk := by
    obtain ⟨call, hcall, hlt⟩ := h.call k (hready ▸ hk)
    exact ⟨call, by rw [hcalls, hcall], hlt.trans_le hslots⟩

end Congr

/-- A worker keeps everything the invariant speaks of. -/
structure Worker.Same (w w' : Worker) : Prop where
  conns : ∀ c, (w.conns c).Kept (w'.conns c)
  queued : ∀ c, (w'.conns c).writeQueued = (w.conns c).writeQueued
  connectionArena : w'.connectionArena = w.connectionArena
  connections : w'.connections = w.connections
  pendingWrites : w'.pendingWrites = w.pendingWrites
  deferreds : w'.deferreds = w.deferreds
  deferredArena : w'.deferredArena = w.deferredArena
  completed : w'.completed = w.completed
  pendingFds : w'.pendingFds = w.pendingFds
  calls : w'.calls = w.calls
  callArena : w'.callArena = w.callArena
  ready : w'.ready = w.ready
  undrained : w'.undrained = w.undrained
  nextInst : w'.nextInst = w.nextInst
  freed : freedOf w'.log = freedOf w.log

section Same

variable {w : Worker} {c : ℕ} {conn : Conn}

theorem Worker.queued_setConn (h : conn.writeQueued = (w.conns c).writeQueued) (c' : ℕ) :
    ((w.setConn c conn).conns c').writeQueued = (w.conns c').writeQueued := by
  by_cases hc : c' = c
  · subst hc
    rwa [Worker.conns_setConn_self]
  · rw [Worker.conns_setConn_of_ne _ _ _ hc]

/-- Only the input, output, interests or the mark for closing of a connection change. -/
theorem Worker.same_setConn (hkept : (w.conns c).Kept conn)
    (hqueued : conn.writeQueued = (w.conns c).writeQueued) : w.Same (w.setConn c conn) :=
  ⟨kept_setConn hkept, queued_setConn hqueued, rfl, rfl, rfl, rfl, rfl, rfl, rfl, rfl, rfl, rfl,
    rfl, rfl, rfl⟩

theorem Worker.same_touchRead (w : Worker) (c : ℕ) (readBuf : List UInt8) (readCap : ℕ)
    (received : List UInt8) (closing : Bool) (ticks : ℕ) (failed : Bool) :
    w.Same (w.touchRead c readBuf readCap received closing ticks failed) :=
  have h : w.Same (w.setConn c
      { w.conns c with
        readBuf := readBuf
        readCap := readCap
        received := received
        closing := (w.conns c).closing || closing }) := same_setConn ⟨rfl, rfl, rfl, rfl⟩ rfl
  ⟨h.conns, h.queued, rfl, rfl, rfl, rfl, rfl, rfl, rfl, rfl, rfl, rfl, rfl, rfl, rfl⟩

theorem Worker.same_connectionWrite (env : ℕ → Env) (w : Worker) (c : ℕ)
    (script : List SendResult) : w.Same (connectionWrite env w c script) := by
  have hsends := (sendLoop_sends (env w.tick).modify script (w.conns c)).same
  have h : w.Same (w.setConn c (sendLoop (env w.tick).modify script (w.conns c))) := by
    refine same_setConn ⟨?_, ?_, ?_, ?_⟩ ?_
    all_goals
      rw [hsends]
      rfl
  exact ⟨h.conns, h.queued, rfl, rfl, rfl, rfl, rfl, rfl, rfl, rfl, rfl, rfl, rfl, rfl, rfl⟩

theorem Worker.same_dispatching (w : Worker) (c : ℕ) (header : Header) (payload : List UInt8) :
    w.Same (w.dispatching c header payload) :=
  ⟨fun _ => .refl _, fun _ => rfl, rfl, rfl, rfl, rfl, rfl, rfl, rfl, rfl, rfl, rfl, rfl, rfl,
    by simp [Worker.dispatching, logDispatch, Worker.logEntry, freedOf]⟩

theorem Worker.same_failQueue (w : Worker) : w.Same w.failQueue :=
  ⟨fun _ => .refl _, fun _ => rfl, rfl, rfl, rfl, rfl, rfl, rfl, rfl, rfl, rfl, rfl, rfl, rfl, rfl⟩

theorem Inv.same {m : Mid} {w' : Worker} (h : Inv m) (hs : m.worker.Same w') :
    Inv { m with worker := w' } where
  conn := h.conn.congr hs.conns hs.connectionArena hs.connections hs.nextInst hs.freed
  write := h.write.congr hs.queued hs.pendingWrites hs.connections
  defer := h.defer.congr hs.conns hs.connectionArena hs.deferreds hs.deferredArena hs.undrained
    hs.completed
  call := h.call.congr (hs.connectionArena ▸ le_rfl) hs.callArena hs.ready hs.calls
  fds := hs.pendingFds ▸ h.fds

end Same

/-! ## Queueing output -/

section Queueing

variable {cfg : ServerConfig} {m : Mid} {c : ℕ}

/-- A connection on the list takes output. -/
theorem Inv.isOpen (h : Inv m) (hc : c ∈ m.worker.connections) : (m.worker.conns c).Open :=
  ⟨((h.conn.mem_connections c).mp hc).2, h.conn.fd_nonneg c hc⟩

/-- A connection on the list is put on the list of pending writes. -/
theorem Inv.queueWrite (h : Inv m) (hc : c ∈ m.worker.connections) :
    Inv { m with worker := workerQueueWrite m.worker c } := by
  unfold workerQueueWrite
  split_ifs with hqueued
  · exact h
  · have hkept : (m.worker.conns c).Kept { m.worker.conns c with writeQueued := true } :=
      ⟨rfl, rfl, rfl, rfl⟩
    have hconns := Worker.kept_setConn hkept
    refine ⟨h.conn.congr hconns rfl rfl rfl rfl, ⟨?_, ?_, ?_⟩,
      h.defer.congr hconns rfl rfl rfl rfl rfl, h.call.congr le_rfl rfl rfl rfl, h.fds⟩
    · rw [List.cons_append, List.nodup_cons, h.write.mem_iff]
      exact ⟨hqueued, h.write.nodup⟩
    · intro c'
      rw [List.cons_append, List.mem_cons, h.write.mem_iff]
      by_cases hcc : c' = c
      · subst hcc
        simp [Worker.setConn]
      · simp [Worker.setConn, hcc]
    · intro c' hc'
      by_cases hcc : c' = c
      · subst hcc
        exact hc
      · refine h.write.attached c' ?_
        simpa [Worker.setConn, hcc] using hc'

/-- Queueing a packet on a connection of the list. -/
theorem Inv.queues (h : Inv m) (hc : c ∈ m.worker.connections) {request : Request} {op : Op}
    {procId callId : UInt64} {data : List UInt8} {result : Rc × Worker}
    (hqueues : Queues cfg m.worker c request op procId callId data result) :
    Inv { m with worker := result.2 } := by
  have happend (bytes : List UInt8) (cap : ℕ) : m.worker.Same
      (m.worker.setConn c ((m.worker.conns c).appendOut bytes cap)) :=
    Worker.same_setConn ⟨rfl, rfl, rfl, rfl⟩ rfl
  cases hqueues with
  | failed bytes cap => exact (h.same (happend bytes cap)).same (Worker.same_failQueue _)
  | @queued front cap hfront =>
    have hqueued := (h.same (happend (front ++ data) cap)).queueWrite hc
    refine hqueued.same ⟨fun _ => .refl _, fun _ => rfl, rfl, rfl, rfl, rfl, rfl, rfl, rfl, rfl, rfl,
      rfl, rfl, rfl, ?_⟩
    simp [Worker.queued, Worker.logEntry, freedOf]

end Queueing

/-! ## Deferred calls -/

section Deferred

variable {m : Mid} {c d : ℕ} {arena : Arena}

/-- There are never more undrained calls than slots. -/
theorem DeferInv.length_le {w : Worker} {done : List ℕ} (h : DeferInv w done) :
    w.undrained.length ≤ 262144 := by
  have hsubset : w.undrained ⊆ List.range w.deferredArena.watermark :=
    fun d hd => List.mem_range.mpr (h.live d hd).1
  have hlen := (h.nodup.subperm hsubset).length_le
  rw [List.length_range] at hlen
  exact hlen.trans (h.arena.watermark_le.trans h.capacity.le)

/-- A slot that is about to be handed out holds no undrained call. -/
theorem DeferInv.not_mem_undrained {w : Worker} {done : List ℕ} (h : DeferInv w done)
    (halloc : w.deferredArena.alloc = some (d, arena)) : d ∉ w.undrained :=
  fun hd => (Arena.live_alloc h.arena halloc).1 (h.live d hd)

theorem Worker.pointing_congr (w w' : Worker) (hundrained : w'.undrained = w.undrained)
    (hdeferreds : ∀ d ∈ w.undrained, (w'.deferreds d).conn = (w.deferreds d).conn) (c : ℕ) :
    w'.pointing c = w.pointing c := by
  rw [Worker.pointing, Worker.pointing, hundrained]
  refine List.countP_congr fun d hd => ?_
  rw [hdeferreds d hd]

theorem Arena.capacity_alloc {a a' : Arena} {s : ℕ} (h : a.alloc = some (s, a')) :
    a'.capacity = a.capacity := by
  rcases Arena.alloc_eq_some h with ⟨rest, -, rfl⟩ | ⟨-, -, -, rfl⟩ <;> rfl

/-- A slot of the deferred arena that is given back at once. -/
theorem DeferInv.churn {w : Worker} {done : List ℕ} (h : DeferInv w done) (call : Deferred)
    (halloc : w.deferredArena.alloc = some (d, arena)) :
    DeferInv (deferredFree (w.takeDeferred d arena call) d) done := by
  obtain ⟨-, hlive⟩ := Arena.live_alloc h.arena halloc
  have hne : ∀ t ∈ w.undrained, t ≠ d := by
    rintro t ht rfl
    exact h.not_mem_undrained halloc ht
  have hsame : ∀ t ∈ w.undrained,
      (Function.update w.deferreds d call) t = w.deferreds t :=
    fun t ht => Function.update_of_ne (hne t ht) _ _
  refine ⟨?_, ?_, h.nodup, ?_, h.done_nodup, ?_, ?_, ?_, ?_⟩
  · exact (h.arena.alloc halloc).free ((hlive d).mpr (.inl rfl))
  · exact (Arena.capacity_alloc halloc).trans h.capacity
  · intro t ht
    exact (Arena.live_free _ _ _).mpr ⟨(hlive t).mpr (.inr (h.live t ht)), hne t ht⟩
  · intro t
    rw [show (deferredFree (w.takeDeferred d arena call) d).completed = w.completed from rfl,
      h.mem_done t]
    refine and_congr_right fun ht => ?_
    change _ ↔ (Function.update w.deferreds d call t).completed = true
    rw [hsame t ht]
  · intro t ht
    change w.connectionArena.Live (Function.update w.deferreds d call t).conn
    rw [hsame t ht]
    exact h.conn_live t ht
  · intro t ht
    change (w.conns (Function.update w.deferreds d call t).conn).inst =
      (Function.update w.deferreds d call t).request.inst
    rw [hsame t ht]
    exact h.inst_eq t ht
  · intro c
    have hpointing : (deferredFree (w.takeDeferred d arena call) d).pointing c = w.pointing c :=
      Worker.pointing_congr w (deferredFree (w.takeDeferred d arena call) d) rfl
        (fun t ht => congrArg Deferred.conn (hsame t ht)) c
    exact (h.pending c).trans hpointing.symm

/-- A slot of the call arena is handed out. -/
theorem CallInv.take {w : Worker} (h : CallInv w) {k : ℕ} (call : Call)
    (halloc : w.callArena.alloc = some (k, arena)) :
    CallInv (w.takeCall k arena call) ∧ arena.Live k ∧ k ∉ w.ready := by
  obtain ⟨hnot, hlive⟩ := Arena.live_alloc h.arena halloc
  have hready : k ∉ w.ready := fun hk => hnot (h.live k hk)
  refine ⟨⟨h.arena.alloc halloc, h.nodup, ?_, ?_⟩, (hlive k).mpr (.inl rfl), hready⟩
  · exact fun t ht => (hlive t).mpr (.inr (h.live t ht))
  · intro t ht
    have hne : t ≠ k := fun htk => hready (htk ▸ ht)
    simp only [Worker.takeCall, Function.update_of_ne hne]
    exact h.call t ht

/-- A slot of the call arena is given back. -/
theorem CallInv.free {w : Worker} (h : CallInv w) {k : ℕ} (hlive : w.callArena.Live k)
    (hready : k ∉ w.ready) : CallInv (callFree w k) := by
  have hne : ∀ t ∈ w.ready, t ≠ k := fun t ht htk => hready (htk ▸ ht)
  refine ⟨h.arena.free hlive, h.nodup, ?_, ?_⟩
  · exact fun t ht => (Arena.live_free _ _ _).mpr ⟨h.live t ht, hne t ht⟩
  · intro t ht
    simp only [callFree, Function.update_of_ne (hne t ht)]
    exact h.call t ht

theorem Inv.takeCall (h : Inv m) {k : ℕ} (call : Call)
    (halloc : m.worker.callArena.alloc = some (k, arena)) :
    Inv { m with worker := m.worker.takeCall k arena call } :=
  ⟨h.conn.congr (fun _ => .refl _) rfl rfl rfl rfl, h.write.congr (fun _ => rfl) rfl rfl,
    h.defer.congr (fun _ => .refl _) rfl rfl rfl rfl rfl, (h.call.take call halloc).1, h.fds⟩

theorem Inv.callFree (h : Inv m) {k : ℕ} (hlive : m.worker.callArena.Live k)
    (hready : k ∉ m.worker.ready) : Inv { m with worker := callFree m.worker k } :=
  ⟨h.conn.congr (fun _ => .refl _) rfl rfl rfl rfl, h.write.congr (fun _ => rfl) rfl rfl,
    h.defer.congr (fun _ => .refl _) rfl rfl rfl rfl rfl, h.call.free hlive hready, h.fds⟩

theorem Inv.churn (h : Inv m) {w' : Worker} (hchurn : Churn m.worker w') :
    Inv { m with worker := w' } := by
  cases hchurn with
  | none => exact h
  | deferred call halloc =>
    exact ⟨h.conn.congr (fun _ => .refl _) rfl rfl rfl rfl, h.write.congr (fun _ => rfl) rfl rfl,
      h.defer.churn call halloc, h.call.congr le_rfl rfl rfl rfl, h.fds⟩
  | call call halloc =>
    obtain ⟨-, hlive, hready⟩ := h.call.take call halloc
    exact (h.takeCall call halloc).callFree hlive hready

/-- The count of a connection changes and nothing else of it. -/
theorem Worker.setPending_fields (w : Worker) (c : ℕ) (n : UInt32) (c' : ℕ) :
    ((w.setConn c { w.conns c with pendingDeferred := n }).conns c').fd = (w.conns c').fd ∧
    ((w.setConn c { w.conns c with pendingDeferred := n }).conns c').detached =
      (w.conns c').detached ∧
    ((w.setConn c { w.conns c with pendingDeferred := n }).conns c').inst = (w.conns c').inst ∧
    ((w.setConn c { w.conns c with pendingDeferred := n }).conns c').writeQueued =
      (w.conns c').writeQueued ∧
    ((w.setConn c { w.conns c with pendingDeferred := n }).conns c').pendingDeferred =
      if c' = c then n else (w.conns c').pendingDeferred := by
  by_cases hc : c' = c
  · subst hc
    rw [conns_setConn_self]
    simp
  · rw [conns_setConn_of_ne _ _ _ hc]
    simp [hc]

/-- **A deferred call is issued** on a connection of the list. -/
theorem Inv.issue (h : Inv m) (hc : c ∈ m.worker.connections)
    (halloc : m.worker.deferredArena.alloc = some (d, arena)) {call : Deferred}
    (hconn : call.conn = c) (hinst : call.request.inst = (m.worker.conns c).inst)
    (hopen : call.completed = false) :
    Inv { m with worker := issueDeferred (m.worker.takeDeferred d arena call) c d } := by
  obtain ⟨w, writes, done, fds⟩ := m
  simp only at h hc halloc hinst ⊢
  obtain ⟨hnot, hlive⟩ := Arena.live_alloc h.defer.arena halloc
  have hfields := Worker.setPending_fields w c ((w.conns c).pendingDeferred + 1)
  have hattached := (h.conn.mem_connections c).mp hc
  have hnew := h.defer.not_mem_undrained halloc
  have hne : ∀ t ∈ w.undrained, t ≠ d := by
    rintro t ht rfl
    exact hnew ht
  have hself : Function.update w.deferreds d call d = call := Function.update_self _ _ _
  have hsame : ∀ t ∈ w.undrained, Function.update w.deferreds d call t = w.deferreds t :=
    fun t ht => Function.update_of_ne (hne t ht) _ _
  have hundrained (t : ℕ) : t ∈ w.undrained ++ [d] ↔ t ∈ w.undrained ∨ t = d := by simp
  refine ⟨?_, ?_, ⟨?_, ?_, ?_, ?_, ?_, ?_, ?_, ?_, ?_⟩, h.call.congr le_rfl rfl rfl rfl, h.fds⟩
  · refine h.conn.recount (fun c' => (hfields c').1) (fun c' => (hfields c').2.1)
      (fun c' => (hfields c').2.2.1) rfl rfl rfl rfl ?_
    intro c' hloose hc' hdetached
    have hcc : c' ≠ c := by
      rintro rfl
      exact absurd (hdetached.symm.trans hattached.2) (by decide)
    refine ne_of_eq_of_ne ((hfields c').2.2.2.2.trans (if_neg hcc)) ?_
    exact h.conn.lingering c' hloose hc' hdetached
  · exact h.write.congr (fun c' => (hfields c').2.2.2.1) rfl rfl
  · exact h.defer.arena.alloc halloc
  · exact (Arena.capacity_alloc halloc).trans h.defer.capacity
  · refine List.nodup_append.mpr ⟨h.defer.nodup, List.nodup_singleton d, ?_⟩
    intro t ht t' ht'
    rw [List.mem_singleton.mp ht']
    exact hne t ht
  · intro t ht
    rcases (hundrained t).mp ht with ht | rfl
    · exact (hlive t).mpr (.inr (h.defer.live t ht))
    · exact (hlive t).mpr (.inl rfl)
  · exact h.defer.done_nodup
  · intro t
    change t ∈ w.completed ++ done ↔
      t ∈ w.undrained ++ [d] ∧ (Function.update w.deferreds d call t).completed = true
    rw [h.defer.mem_done t, hundrained]
    constructor
    · rintro ⟨ht, hcompleted⟩
      exact ⟨.inl ht, by rwa [hsame t ht]⟩
    · rintro ⟨ht | rfl, hcompleted⟩
      · exact ⟨ht, by rwa [hsame t ht] at hcompleted⟩
      · rw [hself, hopen] at hcompleted
        cases hcompleted
  · intro t ht
    change w.connectionArena.Live (Function.update w.deferreds d call t).conn
    rcases (hundrained t).mp ht with ht | rfl
    · rw [hsame t ht]
      exact h.defer.conn_live t ht
    · rw [hself, hconn]
      exact hattached.1
  · intro t ht
    refine ((hfields _).2.2.1).trans ?_
    change (w.conns (Function.update w.deferreds d call t).conn).inst =
      (Function.update w.deferreds d call t).request.inst
    rcases (hundrained t).mp ht with ht | rfl
    · rw [hsame t ht]
      exact h.defer.inst_eq t ht
    · rw [hself, hconn, hinst]
  · intro c'
    refine (congrArg UInt32.toNat (hfields c').2.2.2.2).trans ?_
    change _ = (w.undrained ++ [d]).countP fun t =>
      (Function.update w.deferreds d call t).conn == c'
    have hold : (w.undrained.countP fun t => (Function.update w.deferreds d call t).conn == c') =
        w.pointing c' := List.countP_congr fun t ht => by rw [hsame t ht]
    have hbound : w.undrained.length ≤ 262144 := h.defer.length_le
    have hcount : w.pointing c' ≤ w.undrained.length := List.countP_le_length
    have hpending : (w.conns c').pendingDeferred.toNat = w.pointing c' := h.defer.pending c'
    rw [List.countP_append, hold, List.countP_singleton, hself, hconn]
    split_ifs with hcc hcc' hcc'
    · subst hcc
      rw [UInt32.toNat_add, hpending]
      simp only [UInt32.reduceToNat]
      omega
    · simp [hcc] at hcc'
    · simp at hcc'
      exact absurd hcc'.symm hcc
    · exact hpending

/-- An entry of the record that gives no slot back. -/
theorem Inv.logEntry (h : Inv m) {entry : Entry} (hentry : freedOf [entry] = []) :
    Inv { m with worker := m.worker.logEntry entry } :=
  h.same ⟨fun _ => .refl _, fun _ => rfl, rfl, rfl, rfl, rfl, rfl, rfl, rfl, rfl, rfl, rfl, rfl, rfl,
    by simp [Worker.logEntry, hentry]⟩

/-- **A deferred call is completed**: it waits to be drained from its first completion on. -/
theorem Inv.complete (h : Inv m) (hd : d ∈ m.worker.undrained) (completion : Completion) :
    Inv { m with worker := complete m.worker d completion } := by
  obtain ⟨entry, hentry⟩ :
    ∃ entry, entry = Entry.completion (m.worker.deferreds d).request completion.isOk := ⟨_, rfl⟩
  have hlog : Inv { m with worker := m.worker.logEntry entry } := h.logEntry (hentry ▸ rfl)
  cases hdone : (m.worker.deferreds d).completed with
  | true =>
    rw [complete_of_completed hdone, ← hentry]
    exact hlog
  | false =>
    obtain ⟨response, result, error, -, heq⟩ := complete_of_open hdone completion
    rw [heq, ← hentry]
    obtain ⟨w, writes, done, fds⟩ := m
    simp only at hd hdone hlog ⊢
    obtain ⟨call, hcall⟩ : ∃ call, { w.deferreds d with
      completed := true, response := response, result := result, error := error } = call := ⟨_, rfl⟩
    have hcompleted : call.completed = true := by rw [← hcall]
    have hconn : call.conn = (w.deferreds d).conn := by rw [← hcall]
    have hrequest : call.request = (w.deferreds d).request := by rw [← hcall]
    rw [hcall]
    have happly (t : ℕ) : Function.update w.deferreds d call t =
        if t = d then call else w.deferreds t := Function.update_apply _ _ _ _
    have hconns (t : ℕ) : (Function.update w.deferreds d call t).conn = (w.deferreds t).conn := by
      rw [happly]
      split_ifs with ht
      · rw [hconn, ht]
      · rfl
    have hnew : d ∉ w.completed ++ done := by
      rw [h.defer.mem_done d]
      rintro ⟨-, htrue⟩
      exact absurd (hdone.symm.trans htrue) (by decide)
    have hdefer := hlog.defer
    refine ⟨hlog.conn.congr (fun _ => .refl _) rfl rfl rfl rfl,
      hlog.write.congr (fun _ => rfl) rfl rfl, ⟨hdefer.arena, hdefer.capacity, hdefer.nodup,
      hdefer.live, ?_, ?_, ?_, ?_, ?_⟩, hlog.call.congr le_rfl rfl rfl rfl, hlog.fds⟩
    · refine (List.Perm.nodup_iff ?_).mpr (List.nodup_cons.mpr ⟨hnew, hdefer.done_nodup⟩)
      change (w.completed ++ [d] ++ done).Perm (d :: (w.completed ++ done))
      rw [List.append_assoc]
      exact List.perm_middle
    · intro t
      change t ∈ w.completed ++ [d] ++ done ↔
        t ∈ w.undrained ∧ (Function.update w.deferreds d call t).completed = true
      have hmem : t ∈ w.completed ++ [d] ++ done ↔ t = d ∨ t ∈ w.completed ++ done := by
        simp only [List.mem_append, List.mem_singleton]
        tauto
      rw [hmem, h.defer.mem_done t, happly]
      split_ifs with ht
      · subst ht
        simp [hcompleted, hd]
      · simp [ht]
    · intro t ht
      change w.connectionArena.Live (Function.update w.deferreds d call t).conn
      rw [hconns]
      exact hdefer.conn_live t ht
    · intro t ht
      change (w.conns (Function.update w.deferreds d call t).conn).inst =
        (Function.update w.deferreds d call t).request.inst
      rw [hconns, happly]
      split_ifs with htd
      · subst htd
        rw [hrequest]
        exact hdefer.inst_eq t ht
      · exact hdefer.inst_eq t ht
    · intro c'
      refine (hdefer.pending c').trans ?_
      change w.pointing c' = w.undrained.countP fun t =>
        (Function.update w.deferreds d call t).conn == c'
      exact List.countP_congr fun t _ => by rw [hconns]

/-- The completions a handler makes before it returns. -/
theorem Inv.runDeferred (h : Inv m) (hd : d ∈ m.worker.undrained) (outcome : DeferredOutcome) :
    Inv { m with worker := runDeferred m.worker d outcome } := by
  have hrun := runDeferred_rule
    (P := fun w => Inv { m with worker := w } ∧ w.undrained = m.worker.undrained) (d := d) ?_
    ⟨h, rfl⟩ outcome
  · exact hrun.1
  · rintro w completion ⟨hw, hundrained⟩
    refine ⟨hw.complete (hundrained ▸ hd) completion, ?_⟩
    obtain ⟨deferreds, completed, log, heq⟩ := complete_eq w d completion
    rw [heq]
    exact hundrained

end Deferred

/-! ## Handling a packet -/

section Handling

variable {cfg : ServerConfig} {m : Mid} {c : ℕ}

/-- Queueing a packet leaves the scheduler alone. -/
theorem Queues.scheduler {w : Worker} {request : Request} {op : Op} {procId callId : UInt64}
    {data : List UInt8} {result : Rc × Worker}
    (h : Queues cfg w c request op procId callId data result) :
    result.2.callArena = w.callArena ∧ result.2.ready = w.ready ∧ result.2.calls = w.calls := by
  obtain ⟨conns, writes, entries, failed, -, heq⟩ := h.eq
  rw [heq]
  exact ⟨rfl, rfl, rfl⟩

/-- A call is submitted for a connection on the list. -/
theorem Inv.submit (h : Inv m) {k : ℕ} {arena : Arena} {call call' : Call}
    (halloc : m.worker.callArena.alloc = some (k, arena))
    (hconn : call'.conn < m.worker.connectionArena.watermark) :
    Inv { m with worker := (m.worker.takeCall k arena call).startCall k call' } := by
  obtain ⟨-, hlive, hready⟩ := h.call.take call halloc
  obtain ⟨-, hlive'⟩ := Arena.live_alloc h.call.arena halloc
  refine ⟨h.conn.congr (fun _ => .refl _) rfl rfl rfl rfl, h.write.congr (fun _ => rfl) rfl rfl,
    h.defer.congr (fun _ => .refl _) rfl rfl rfl rfl rfl, ⟨h.call.arena.alloc halloc, ?_, ?_, ?_⟩,
    h.fds⟩
  · refine List.nodup_append.mpr ⟨h.call.nodup, List.nodup_singleton k, ?_⟩
    rintro t ht t' ht' rfl
    exact hready (List.mem_singleton.mp ht' ▸ ht)
  · intro t ht
    rcases List.mem_append.mp ht with ht | ht
    · exact (hlive' t).mpr (.inr (h.call.live t ht))
    · exact List.mem_singleton.mp ht ▸ hlive
  · intro t ht
    simp only [Worker.startCall, Worker.takeCall, Function.update_idem]
    rcases List.mem_append.mp ht with ht | ht
    · have hne : t ≠ k := fun htk => hready (htk ▸ ht)
      rw [Function.update_of_ne hne]
      exact h.call.call t ht
    · obtain rfl := List.mem_singleton.mp ht
      exact ⟨call', Function.update_self _ _ _, hconn⟩

/-- **Handling a packet** of a connection on the list. -/
theorem Inv.handle {env : Env} {header : Header} {payload : List UInt8} {rc : Rc} {w' : Worker}
    (h : Inv m) (hc : c ∈ m.worker.connections)
    (hhandles : Handles cfg env m.worker c header payload (rc, w')) :
    Inv { m with worker := w' } := by
  have hdispatching : Inv { m with worker := m.worker.dispatching c header payload } :=
    h.same (Worker.same_dispatching _ _ _ _)
  generalize hresult : (rc, w') = result at hhandles
  cases hhandles with
  | replied hchurn hreply hqueues =>
    subst hresult
    exact (hdispatching.churn hchurn).queues (hchurn.connections ▸ hc) hqueues
  | @notStarted k arena call op procId callId data result halloc hreply hqueues =>
    cases hresult
    obtain ⟨-, hlive, hready⟩ := hdispatching.call.take call halloc
    obtain ⟨harena, hlist, -⟩ := hqueues.scheduler
    have hqueued := (hdispatching.takeCall call halloc).queues hc hqueues
    exact hqueued.callFree (harena ▸ hlive) (hlist ▸ hready)
  | disconnected hop =>
    cases hresult
    exact hdispatching.same (Worker.same_setConn ⟨rfl, rfl, rfl, rfl⟩ rfl)
  | issued outcome hop halloc hsucceeds =>
    cases hresult
    refine (hdispatching.issue hc halloc rfl rfl rfl).runDeferred ?_ outcome
    exact List.mem_append_right _ (List.mem_singleton_self _)
  | submitted call args hop hasync halloc hconn hrequest =>
    cases hresult
    refine hdispatching.submit halloc ?_
    exact hconn ▸ ((h.conn.mem_connections c).mp hc).1.1

end Handling

end Wirecall

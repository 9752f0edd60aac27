import Wirecall.Server.Slots

/-!
# The life of a connection

A connection is added, detached, and given back once no deferred call points to it; a slot can be
given back by an event, by the flush of queued output, by a drained call and by a registration
that fails. Each of these preserves the invariant of the slots.

## Main results

* `Inv.destroy`, `Inv.add`, `Inv.drainOne`, `Inv.flushWrite`, `Inv.resume`: the actions of the loop
* `inv_loopRule`: every action of the loop preserves the invariant, as long as connection events
  are for connections on the list
-/

namespace Wirecall

/-! ## The end of a connection -/

section Destroy

variable {cfg : ServerConfig} {w : Worker} {writes done : List ℕ} {c : ℕ}

/-- The slot that is loose may stay if a call points to it. -/
theorem ConnInv.tighten (h : ConnInv w (some c))
    (hc : (w.conns c).detached = true → (w.conns c).pendingDeferred ≠ 0) : ConnInv w none := by
  refine h.recount (fun _ => rfl) (fun _ => rfl) (fun _ => rfl) rfl rfl rfl rfl ?_
  intro c' _ hlive hdetached
  by_cases hcc : c = c'
  · exact hcc ▸ hc (hcc ▸ hdetached)
  · exact h.lingering c' (by simpa using hcc) hlive hdetached

/-- A slot that is given back keeps all but the word the arena writes into it. -/
theorem freeConnection_conns (cfg : ServerConfig) (w : Worker) (c c' : ℕ) :
    ∃ fd, (freeConnection cfg w c).conns c' = { w.conns c' with fd := fd } ∧
      (c' ≠ c → fd = (w.conns c').fd) := by
  by_cases hc : c' = c
  · subst hc
    exact ⟨_, Worker.conns_setConn_self _ _ _, fun h => absurd rfl h⟩
  · exact ⟨_, Worker.conns_setConn_of_ne _ _ _ hc, fun _ => rfl⟩

theorem freeConnection_fields (cfg : ServerConfig) (w : Worker) (c c' : ℕ) :
    ((freeConnection cfg w c).conns c').detached = (w.conns c').detached ∧
    ((freeConnection cfg w c).conns c').inst = (w.conns c').inst ∧
    ((freeConnection cfg w c).conns c').pendingDeferred = (w.conns c').pendingDeferred ∧
    ((freeConnection cfg w c).conns c').writeQueued = (w.conns c').writeQueued := by
  obtain ⟨fd, h, -⟩ := freeConnection_conns cfg w c c'
  rw [h]
  exact ⟨rfl, rfl, rfl, rfl⟩

/-- **A loose slot is given back**, once no call points to it. -/
theorem ConnInv.freeConnection (h : ConnInv w (some c)) (hlive : w.connectionArena.Live c)
    (hdetached : (w.conns c).detached = true) (hpointing : w.pointing c = 0) :
    ConnInv (freeConnection cfg w c) none := by
  have hfields := freeConnection_fields cfg w c
  have harena (c' : ℕ) : (Wirecall.freeConnection cfg w c).connectionArena.Live c' ↔
      w.connectionArena.Live c' ∧ c' ≠ c := Arena.live_free _ _ _
  have hfreed : freedOf (Wirecall.freeConnection cfg w c).log =
      freedOf w.log ++ [⟨c, (w.conns c).inst, true, 0⟩] := by
    refine (freedOf_append _ _).trans ?_
    rw [hdetached, hpointing]
    rfl
  have hmem (f : Freed) (hf : f ∈ freedOf (Wirecall.freeConnection cfg w c).log) :
      f ∈ freedOf w.log ∨ f = ⟨c, (w.conns c).inst, true, 0⟩ := by
    simpa [hfreed] using hf
  refine ⟨h.arena.free hlive, ?_, h.nodup, ?_, ?_, ?_, ?_, ?_, ?_, ?_, ?_, ?_⟩
  · intro c'
    rw [harena, (hfields c').1]
    refine (h.mem_connections c').trans ⟨?_, fun ⟨⟨hc', _⟩, hdet⟩ => ⟨hc', hdet⟩⟩
    rintro ⟨hc', hdet⟩
    refine ⟨⟨hc', ?_⟩, hdet⟩
    rintro rfl
    exact absurd (hdetached.symm.trans hdet) (by decide)
  · intro c' hc'
    have hcc : c' ≠ c := by
      rintro rfl
      exact absurd (hdetached.symm.trans ((h.mem_connections c').mp hc').2) (by decide)
    obtain ⟨fd, hconn, hfd⟩ := freeConnection_conns cfg w c c'
    rw [hconn, hfd hcc]
    exact h.fd_nonneg c' hc'
  · intro c' hc'
    rw [(hfields c').2.1]
    exact h.inst_lt c' ((harena c').mp hc').1
  · intro c₁ c₂ h₁ h₂
    rw [(hfields c₁).2.1, (hfields c₂).2.1]
    exact h.inst_inj c₁ c₂ ((harena c₁).mp h₁).1 ((harena c₂).mp h₂).1
  · intro c' hc'
    rw [(hfields c').1]
    rcases List.mem_cons.mp hc' with rfl | hc'
    · exact hdetached
    · exact h.gone c' hc'
  · intro c' _ hc'
    rw [(hfields c').1, (hfields c').2.2.1]
    obtain ⟨hc', hcc⟩ := (harena c').mp hc'
    exact h.lingering c' (fun heq => hcc (Option.some.inj heq).symm) hc'
  · intro f hf
    rcases hmem f hf with hf | rfl
    · exact h.freed_ok f hf
    · exact ⟨rfl, rfl⟩
  · intro f hf
    rcases hmem f hf with hf | rfl
    · exact h.freed_lt f hf
    · exact h.inst_lt c hlive
  · intro f hf c' hc'
    rw [(hfields c').2.1]
    obtain ⟨hc', hcc⟩ := (harena c').mp hc'
    rcases hmem f hf with hf | rfl
    · exact h.freed_gone f hf c' hc'
    · exact fun heq => hcc (h.inst_inj c' c hc' hlive heq)
  · rw [hfreed, List.map_append]
    refine List.nodup_append.mpr ⟨h.freed_nodup, List.nodup_singleton _, ?_⟩
    intro i hi i' hi'
    obtain ⟨f, hf, rfl⟩ := List.mem_map.mp hi
    rw [List.mem_singleton.mp hi']
    exact (h.freed_gone f hf c hlive).symm

/-- The undrained calls stay where they are when a slot without any is given back. -/
theorem DeferInv.freeConnection (h : DeferInv w done) (hpointing : w.pointing c = 0) :
    DeferInv (freeConnection cfg w c) done := by
  have hfields := freeConnection_fields cfg w c
  have hne : ∀ d ∈ w.undrained, (w.deferreds d).conn ≠ c := by
    intro d hd hdc
    have := List.countP_eq_zero.mp hpointing d hd
    simp [hdc] at this
  refine ⟨h.arena, h.capacity, h.nodup, h.live, h.done_nodup, h.mem_done, ?_, ?_, ?_⟩
  · exact fun d hd => (Arena.live_free _ _ _).mpr ⟨h.conn_live d hd, hne d hd⟩
  · intro d hd
    exact (hfields _).2.1.trans (h.inst_eq d hd)
  · intro c'
    exact (congrArg UInt32.toNat (hfields c').2.2.1).trans (h.pending c')

/-- A loose slot is given back or stays, whichever it should. -/
theorem Inv.release {fds : List Int} (hconn : ConnInv w (some c)) (hwrite : WriteInv w writes)
    (hdefer : DeferInv w done) (hcall : CallInv w) (hfds : ∀ fd ∈ w.pendingFds ++ fds, 0 ≤ fd)
    (hlive : w.connectionArena.Live c) (hdetached : (w.conns c).detached = true) :
    Inv ⟨if (w.conns c).pendingDeferred ≠ 0 then w else freeConnection cfg w c,
      writes, done, fds⟩ := by
  split_ifs with hpending
  · exact ⟨hconn.tighten fun _ => hpending, hwrite, hdefer, hcall, hfds⟩
  · have hpointing : w.pointing c = 0 := by
      rw [← hdefer.pending c, not_not.mp hpending]
      rfl
    exact ⟨hconn.freeConnection hlive hdetached hpointing,
      hwrite.congr (fun c' => (freeConnection_fields cfg w c c').2.2.2) rfl rfl,
      hdefer.freeConnection hpointing, hcall.congr le_rfl rfl rfl rfl, hfds⟩

theorem detachConnection_self (w : Worker) (c : ℕ) :
    (detachConnection w c).conns c =
      { w.conns c with
        fd := -1
        readBuf := []
        readCap := 0
        writeBuf := []
        writeCap := 0
        writeOff := 0
        writeQueued := false
        detached := true } := Worker.conns_setConn_self _ _ _

theorem detachConnection_of_ne (w : Worker) {c c' : ℕ} (h : c' ≠ c) :
    (detachConnection w c).conns c' = w.conns c' := Worker.conns_setConn_of_ne _ _ _ h

/-- Detaching keeps the count and the number of every connection. -/
theorem detachConnection_fields (w : Worker) (c c' : ℕ) :
    ((detachConnection w c).conns c').inst = (w.conns c').inst ∧
    ((detachConnection w c).conns c').pendingDeferred = (w.conns c').pendingDeferred := by
  by_cases hc : c' = c
  · subst hc
    rw [detachConnection_self]
    exact ⟨rfl, rfl⟩
  · rw [detachConnection_of_ne w hc]
    exact ⟨rfl, rfl⟩

/-- **A connection is detached**: until it is given back its slot is loose. -/
theorem ConnInv.detach (h : ConnInv w none) (hc : c ∈ w.connections) :
    ConnInv (detachConnection w c) (some c) := by
  have hfields := detachConnection_fields w c
  have hself : ((detachConnection w c).conns c).detached = true := by rw [detachConnection_self]
  refine ⟨h.arena, ?_, h.nodup.erase c, ?_, ?_, ?_, ?_, ?_, h.freed_ok, h.freed_lt, ?_, h.freed_nodup⟩
  · intro c'
    change c' ∈ w.connections.erase c ↔ w.connectionArena.Live c' ∧ _
    rw [h.nodup.mem_erase_iff, h.mem_connections c']
    by_cases hcc : c' = c
    · subst hcc
      simp [hself]
    · simp [hcc, detachConnection_of_ne w hcc]
  · intro c' hc'
    obtain ⟨hcc, hc'⟩ := h.nodup.mem_erase_iff.mp hc'
    rw [detachConnection_of_ne w hcc]
    exact h.fd_nonneg c' hc'
  · exact fun c' hc' => (hfields c').1 ▸ h.inst_lt c' hc'
  · intro c₁ c₂ h₁ h₂
    rw [(hfields c₁).1, (hfields c₂).1]
    exact h.inst_inj c₁ c₂ h₁ h₂
  · intro c' hc'
    by_cases hcc : c' = c
    · rw [hcc, hself]
    · rw [detachConnection_of_ne w hcc]
      exact h.gone c' hc'
  · intro c' hloose hlive
    have hcc : c' ≠ c := fun hcc => hloose (hcc ▸ rfl)
    rw [detachConnection_of_ne w hcc]
    exact h.lingering c' (Option.some_ne_none c').symm hlive
  · intro f hf c' hc'
    rw [(hfields c').1]
    exact h.freed_gone f hf c' hc'

/-- A connection that is detached leaves the list of pending writes. -/
theorem WriteInv.detach (h : WriteInv w writes) (hnodup : w.connections.Nodup)
    (hwrites : c ∉ writes) : WriteInv (detachConnection w c) writes := by
  have hpending : (detachConnection w c).pendingWrites = w.pendingWrites.erase c := by
    change (if (w.conns c).writeQueued = true then _ else _) = _
    split_ifs with hqueued
    · rfl
    · refine (List.erase_of_not_mem fun hc => hqueued ?_).symm
      exact (h.mem_iff c).mp (List.mem_append_left _ hc)
  have herase : (w.pendingWrites ++ writes).erase c = w.pendingWrites.erase c ++ writes := by
    by_cases hc : c ∈ w.pendingWrites
    · exact List.erase_append_left _ hc
    · rw [List.erase_append_right _ hc, List.erase_of_not_mem hwrites, List.erase_of_not_mem hc]
  have hmem (c' : ℕ) : c' ∈ w.pendingWrites.erase c ++ writes ↔
      ((detachConnection w c).conns c').writeQueued = true := by
    rw [← herase, h.nodup.mem_erase_iff, h.mem_iff c']
    by_cases hcc : c' = c
    · subst hcc
      rw [detachConnection_self]
      simp
    · rw [detachConnection_of_ne w hcc]
      simp [hcc]
  refine ⟨?_, ?_, ?_⟩
  · rw [hpending, ← herase]
    exact h.nodup.erase c
  · intro c'
    rw [hpending]
    exact hmem c'
  · intro c' hc'
    have hcc : c' ≠ c := by
      rintro rfl
      rw [detachConnection_self] at hc'
      cases hc'
    rw [detachConnection_of_ne w hcc] at hc'
    exact (hnodup.mem_erase_iff).mpr ⟨hcc, h.attached c' hc'⟩

theorem connectionDestroy_of_attached (h : (w.conns c).detached = false) :
    connectionDestroy cfg w c =
      if ((detachConnection w c).conns c).pendingDeferred ≠ 0 then detachConnection w c
      else freeConnection cfg (detachConnection w c) c := by
  have hattached : ¬ (w.conns c).detached = true := by simp [h]
  simp only [connectionDestroy, if_neg hattached]

/-- The entries of an action that dispatches, answers and completes nothing: at most a slot is
given back. -/
inductive OnlyFrees : List Entry → Prop
  | nothing : OnlyFrees []
  | freed (slot inst : ℕ) (detached : Bool) (pointing : ℕ) :
      OnlyFrees [.freed slot inst detached pointing]

/-- The end of a connection concerns connections and their lists, and nothing else. -/
theorem connectionDestroy_eq (cfg : ServerConfig) (w : Worker) (c : ℕ) :
    ∃ conns arena connections writes entries, OnlyFrees entries ∧
      connectionDestroy cfg w c = { w with
        conns := conns, connectionArena := arena, connections := connections,
        pendingWrites := writes, log := w.log ++ entries } := by
  have hdetach : ∃ conns connections writes,
      (if (w.conns c).detached = true then w else detachConnection w c) = { w with
        conns := conns, connections := connections, pendingWrites := writes } := by
    split_ifs
    · exact ⟨_, _, _, rfl⟩
    · exact ⟨_, _, _, rfl⟩
  obtain ⟨conns, connections, writes, heq⟩ := hdetach
  unfold connectionDestroy
  rw [heq]
  simp only
  split_ifs
  · refine ⟨conns, w.connectionArena, connections, writes, [], .nothing, ?_⟩
    rw [List.append_nil]
  · exact ⟨_, _, connections, writes, _, .freed _ _ _ _, rfl⟩

/-- **A connection on the list is destroyed.** -/
theorem Inv.destroy {m : Mid} (h : Inv m) (hc : c ∈ m.worker.connections) (hwrites : c ∉ m.writes) :
    Inv { m with worker := connectionDestroy cfg m.worker c } := by
  obtain ⟨hlive, hattached⟩ := (h.conn.mem_connections c).mp hc
  have hfields := detachConnection_fields m.worker c
  have hdefer : DeferInv (detachConnection m.worker c) m.done :=
    ⟨h.defer.arena, h.defer.capacity, h.defer.nodup, h.defer.live, h.defer.done_nodup,
      h.defer.mem_done, h.defer.conn_live, fun d hd => (hfields _).1.trans (h.defer.inst_eq d hd),
      fun c' => (congrArg UInt32.toNat (hfields c').2).trans (h.defer.pending c')⟩
  have hself : ((detachConnection m.worker c).conns c).detached = true := by
    rw [detachConnection_self]
  rw [connectionDestroy_of_attached hattached]
  exact Inv.release (h.conn.detach hc) (h.write.detach h.conn.nodup hwrites) hdefer
    (h.call.congr le_rfl rfl rfl rfl) h.fds hlive hself

end Destroy

/-! ## New connections -/

section Add

variable {cfg : ServerConfig} {env : ℕ → Env} {w : Worker} {fds : List Int} {fd : Int} {c : ℕ}
  {arena : Arena}

/-- The worker with a new connection on its list, before the backend is told. -/
def Worker.added (w : Worker) (c : ℕ) (arena : Arena) (fd : Int) : Worker :=
  { w.setConn c { Conn.zero with fd := fd, inst := w.nextInst } with
    connectionArena := arena
    connections := c :: w.connections
    nextInst := w.nextInst + 1
    tick := w.tick + 1 }

theorem workerAddConnection_eq (halloc : w.connectionArena.alloc = some (c, arena)) :
    workerAddConnection cfg env w fd =
      if (env w.tick).register then
        (w.added c arena fd).setConn c
          { (w.added c arena fd).conns c with interests := ⟨true, false⟩ }
      else connectionDestroy cfg (w.added c arena fd) c := by
  simp only [workerAddConnection, halloc]
  rfl

theorem Worker.added_self (w : Worker) (c : ℕ) (arena : Arena) (fd : Int) :
    (w.added c arena fd).conns c = { Conn.zero with fd := fd, inst := w.nextInst } :=
  conns_setConn_self _ _ _

theorem Worker.added_of_ne (w : Worker) {c c' : ℕ} (arena : Arena) (fd : Int) (h : c' ≠ c) :
    (w.added c arena fd).conns c' = w.conns c' := conns_setConn_of_ne _ _ _ h

/-- A connection that the backend refuses has no calls, so its slot is given back at once. -/
theorem connectionDestroy_added (cfg : ServerConfig) (w : Worker) (c : ℕ) (arena : Arena)
    (fd : Int) : connectionDestroy cfg (w.added c arena fd) c =
      freeConnection cfg (detachConnection (w.added c arena fd) c) c := by
  have hattached : ((w.added c arena fd).conns c).detached = false := by
    rw [Worker.added_self]
    rfl
  have hpending : ((detachConnection (w.added c arena fd) c).conns c).pendingDeferred = 0 := by
    rw [detachConnection_self, Worker.added_self]
    rfl
  rw [connectionDestroy_of_attached hattached, if_neg (not_not.mpr hpending)]

/-- **A new connection** takes a slot that nothing points to. -/
theorem Inv.added (h : Inv ⟨w, [], [], fd :: fds⟩)
    (halloc : w.connectionArena.alloc = some (c, arena)) :
    Inv ⟨w.added c arena fd, [], [], fds⟩ := by
  obtain ⟨hconn, hwrite, hdefer, hcall, hfds⟩ := h
  simp only at hconn hwrite hdefer hcall hfds
  obtain ⟨hdead, hlive⟩ := Arena.live_alloc hconn.arena halloc
  have hself := w.added_self c arena fd
  have hother {c' : ℕ} (hc' : c' ≠ c) := w.added_of_ne arena fd hc'
  have hne {c' : ℕ} (hc' : w.connectionArena.Live c') : c' ≠ c := fun hcc => hdead (hcc ▸ hc')
  have hnew : c ∉ w.connections := fun hc => hdead ((hconn.mem_connections c).mp hc).1
  have hqueued : (w.conns c).writeQueued = false := by
    by_contra htrue
    exact hnew (hwrite.attached c (by simpa using htrue))
  have hpointing : w.pointing c = 0 := by
    refine List.countP_eq_zero.mpr fun d hd => ?_
    simpa using hne (hdefer.conn_live d hd)
  have hfree : ∀ c' ∈ arena.freeList, c' ≠ c ∧ c' ∈ w.connectionArena.freeList := by
    rcases Arena.alloc_eq_some halloc with ⟨rest, hlist, rfl⟩ | ⟨hlist, -, -, rfl⟩
    · intro c' hc'
      refine ⟨?_, by rw [hlist]; exact List.mem_cons_of_mem _ hc'⟩
      rintro rfl
      have hnodup := hlist ▸ hconn.arena.nodup
      exact (List.nodup_cons.mp hnodup).1 hc'
    · intro c' hc'
      simp [hlist] at hc'
  refine ⟨⟨hconn.arena.alloc halloc, ?_, List.nodup_cons.mpr ⟨hnew, hconn.nodup⟩, ?_, ?_, ?_, ?_, ?_,
    hconn.freed_ok, fun f hf => Nat.lt_succ_of_lt (hconn.freed_lt f hf), ?_, hconn.freed_nodup⟩,
    ⟨hwrite.nodup, ?_, ?_⟩, ⟨hdefer.arena, hdefer.capacity, hdefer.nodup, hdefer.live,
      hdefer.done_nodup, hdefer.mem_done, ?_, ?_, ?_⟩, ?_, ?_⟩
  · intro c'
    change c' ∈ c :: w.connections ↔ arena.Live c' ∧ _
    rw [List.mem_cons, hlive]
    by_cases hcc : c' = c
    · subst hcc
      simp [hself, Conn.zero]
    · simp only [hcc, false_or]
      rw [hother hcc]
      exact hconn.mem_connections c'
  · intro c' hc'
    rcases List.mem_cons.mp hc' with rfl | hc'
    · rw [hself]
      exact hfds fd (by simp)
    · rw [hother (fun hcc => hnew (hcc ▸ hc'))]
      exact hconn.fd_nonneg c' hc'
  · intro c' hc'
    rcases (hlive c').mp hc' with rfl | hc'
    · rw [hself]
      exact Nat.lt_succ_self _
    · rw [hother (hne hc')]
      exact Nat.lt_succ_of_lt (hconn.inst_lt c' hc')
  · intro c₁ c₂ h₁ h₂
    rcases (hlive c₁).mp h₁ with rfl | hold₁ <;> rcases (hlive c₂).mp h₂ with rfl | hold₂
    · exact fun _ => rfl
    · rw [hself, hother (hne hold₂)]
      exact fun heq => absurd heq.symm (hconn.inst_lt c₂ hold₂).ne
    · rw [hself, hother (hne hold₁)]
      exact fun heq => absurd heq (hconn.inst_lt c₁ hold₁).ne
    · rw [hother (hne hold₁), hother (hne hold₂)]
      exact hconn.inst_inj c₁ c₂ hold₁ hold₂
  · intro c' hc'
    obtain ⟨hcc, hc'⟩ := hfree c' hc'
    rw [hother hcc]
    exact hconn.gone c' hc'
  · intro c' hloose hc'
    rcases (hlive c').mp hc' with rfl | hc'
    · rw [hself]
      exact fun h => by cases h
    · rw [hother (hne hc')]
      exact hconn.lingering c' hloose hc'
  · intro f hf c' hc'
    rcases (hlive c').mp hc' with rfl | hc'
    · rw [hself]
      exact (hconn.freed_lt f hf).ne'
    · rw [hother (hne hc')]
      exact hconn.freed_gone f hf c' hc'
  · intro c'
    refine (hwrite.mem_iff c').trans ?_
    by_cases hcc : c' = c
    · rw [hcc, hself, hqueued]
      rfl
    · rw [hother hcc]
  · intro c' hc'
    by_cases hcc : c' = c
    · exact hcc ▸ List.mem_cons_self
    · rw [hother hcc] at hc'
      exact List.mem_cons_of_mem _ (hwrite.attached c' hc')
  · exact fun d hd => (hlive _).mpr (.inr (hdefer.conn_live d hd))
  · intro d hd
    change ((w.added c arena fd).conns (w.deferreds d).conn).inst = _
    rw [hother (hne (hdefer.conn_live d hd))]
    exact hdefer.inst_eq d hd
  · intro c'
    change _ = w.pointing c'
    by_cases hcc : c' = c
    · rw [hcc, hself, hpointing]
      rfl
    · rw [hother hcc]
      exact hdefer.pending c'
  · refine hcall.congr ?_ rfl rfl rfl
    rcases Arena.alloc_eq_some halloc with ⟨rest, -, rfl⟩ | ⟨-, -, -, rfl⟩
    · exact le_rfl
    · exact Nat.le_succ _
  · intro fd' hfd'
    refine hfds fd' ?_
    rcases List.mem_append.mp hfd' with h | h
    · exact List.mem_append_left _ h
    · exact List.mem_append_right _ (List.mem_cons_of_mem _ h)

/-- **An accepted socket is added**, or destroyed at once if the backend does not take it. -/
theorem Inv.add (h : Inv ⟨w, [], [], fd :: fds⟩) :
    Inv ⟨workerAddConnection cfg env w fd, [], [], fds⟩ := by
  cases halloc : w.connectionArena.alloc with
  | none =>
    rw [workerAddConnection, halloc]
    refine ⟨h.conn, h.write, h.defer, h.call, fun fd' hfd' => h.fds fd' ?_⟩
    rcases List.mem_append.mp hfd' with hfd' | hfd'
    · exact List.mem_append_left _ hfd'
    · exact List.mem_append_right _ (List.mem_cons_of_mem _ hfd')
  | some slot =>
    obtain ⟨c, arena⟩ := slot
    have hadded := h.added halloc
    rw [workerAddConnection_eq halloc]
    split_ifs
    · exact hadded.same (Worker.same_setConn ⟨rfl, rfl, rfl, rfl⟩ rfl)
    · exact hadded.destroy List.mem_cons_self List.not_mem_nil

end Add

/-! ## Draining completed calls -/

section Drain

variable {cfg : ServerConfig} {env : ℕ → Env} {m : Mid} {w : Worker} {done : List ℕ} {c d : ℕ}

/-- A slot that takes output and was handed out is on the list of connections. -/
theorem ConnInv.mem_of_open (h : ConnInv w none) (hopen : (w.conns c).Open)
    (hc : c < w.connectionArena.watermark) : c ∈ w.connections := by
  refine (h.mem_connections c).mpr ⟨⟨hc, fun hfree => ?_⟩, hopen.1⟩
  exact absurd (hopen.1.symm.trans (h.gone c hfree)) (by decide)

/-- An attempt to queue a packet on a slot that was handed out. -/
theorem Inv.attempts {request : Request} {op : Op} {procId callId : UInt64} {w' : Worker}
    (h : Inv m) (hc : c < m.worker.connectionArena.watermark)
    (hattempts : Attempts cfg m.worker c request op procId callId w') :
    Inv { m with worker := w' } := by
  cases hattempts with
  | queues hopen hqueues => exact h.queues (h.conn.mem_of_open hopen hc) hqueues
  | refused => exact h
  | failed => exact h.same (Worker.same_failQueue _)

/-- What the reply to a deferred call comes to. -/
theorem replyDeferred_attempts (cfg : ServerConfig) (mem : Mem) (w : Worker) (d : ℕ) :
    ∃ op, Attempts cfg w (w.deferreds d).conn (w.deferreds d).request op (w.deferreds d).procId
      (w.deferreds d).callId (replyDeferred cfg mem w d) := by
  unfold replyDeferred
  simp only
  split
  · split
    · exact ⟨.response, queuePacket_attempts _ _ _ _ _ _ _ _ _⟩
    · exact ⟨.error, queueStringError_attempts _ _ _ _ _ _ _ _⟩
  · exact ⟨.error, .refused⟩

/-- Queueing a packet leaves the deferred calls alone. -/
theorem Attempts.deferred {request : Request} {op : Op} {procId callId : UInt64} {w' : Worker}
    (h : Attempts cfg w c request op procId callId w') :
    w'.deferreds = w.deferreds ∧ w'.undrained = w.undrained ∧ w'.completed = w.completed ∧
      w'.deferredArena = w.deferredArena ∧ w'.connectionArena = w.connectionArena := by
  obtain ⟨conns, writes, entries, failed, -, rfl⟩ := h.eq
  exact ⟨rfl, rfl, rfl, rfl, rfl⟩

/-- **A drained call is settled**: its connection no longer counts it. -/
theorem DeferInv.settle (h : DeferInv w (d :: done)) : DeferInv (settleDeferred w d) done := by
  have hd : d ∈ w.undrained :=
    ((h.mem_done d).mp (List.mem_append_right _ List.mem_cons_self)).1
  have hnodup : d ∉ w.completed ++ done ∧ (w.completed ++ done).Nodup :=
    List.nodup_cons.mp (List.nodup_middle.mp h.done_nodup)
  have hmem (t : ℕ) : t ∈ w.undrained.erase d ↔ t ≠ d ∧ t ∈ w.undrained := h.nodup.mem_erase_iff
  obtain ⟨n, hn⟩ : ∃ n, (if (w.conns (w.deferreds d).conn).pendingDeferred > 0 then
    (w.conns (w.deferreds d).conn).pendingDeferred - 1 else 0) = n := ⟨_, rfl⟩
  have hfields := Worker.setPending_fields w (w.deferreds d).conn n
  have hcount (c : ℕ) : w.pointing c =
      (w.undrained.erase d).countP (fun t => (w.deferreds t).conn == c) +
        if (w.deferreds d).conn = c then 1 else 0 := by
    rw [Worker.pointing, (List.perm_cons_erase hd).countP_eq, List.countP_cons]
    simp
  unfold settleDeferred
  simp only [hn]
  refine ⟨h.arena.free (h.live d hd), h.capacity, h.nodup.erase d, ?_, hnodup.2, ?_, ?_, ?_, ?_⟩
  · intro t ht
    obtain ⟨hne, ht⟩ := (hmem t).mp ht
    exact (Arena.live_free _ _ _).mpr ⟨h.live t ht, hne⟩
  · intro t
    change t ∈ w.completed ++ done ↔ t ∈ w.undrained.erase d ∧ (w.deferreds t).completed = true
    rw [hmem, and_assoc, ← h.mem_done t]
    refine ⟨fun ht => ⟨fun htd => hnodup.1 (htd ▸ ht), ?_⟩, ?_⟩
    · rcases List.mem_append.mp ht with ht | ht
      · exact List.mem_append_left _ ht
      · exact List.mem_append_right _ (List.mem_cons_of_mem _ ht)
    · rintro ⟨hne, ht⟩
      rcases List.mem_append.mp ht with ht | ht
      · exact List.mem_append_left _ ht
      · exact List.mem_append_right _ ((List.mem_cons.mp ht).resolve_left hne)
  · exact fun t ht => h.conn_live t ((hmem t).mp ht).2
  · intro t ht
    exact (hfields _).2.2.1.trans (h.inst_eq t ((hmem t).mp ht).2)
  · intro c
    refine (congrArg UInt32.toNat (hfields c).2.2.2.2).trans ?_
    change _ = (w.undrained.erase d).countP fun t => (w.deferreds t).conn == c
    have hpending := (h.pending c).trans (hcount c)
    by_cases hc : c = (w.deferreds d).conn
    · -- the count of this connection is positive, so one is taken off it
      subst hc
      rw [if_pos rfl] at hpending ⊢
      have hpos : (0 : UInt32) < (w.conns (w.deferreds d).conn).pendingDeferred := by
        rw [UInt32.lt_iff_toNat_lt]
        simp only [UInt32.reduceToNat]
        omega
      have hle : (1 : UInt32) ≤ (w.conns (w.deferreds d).conn).pendingDeferred := by
        rw [UInt32.le_iff_toNat_le]
        simp only [UInt32.reduceToNat]
        omega
      rw [← hn, if_pos hpos, UInt32.toNat_sub_of_le _ _ hle]
      simp only [UInt32.reduceToNat]
      omega
    · rw [if_neg hc]
      rw [if_neg (Ne.symm hc)] at hpending
      exact hpending

/-- Settling a call changes the count of its connection and nothing else of any connection. -/
theorem settleDeferred_conns (w : Worker) (d c : ℕ) :
    ∃ n, (settleDeferred w d).conns c = { w.conns c with pendingDeferred := n } ∧
      (c ≠ (w.deferreds d).conn → n = (w.conns c).pendingDeferred) := by
  by_cases hc : c = (w.deferreds d).conn
  · subst hc
    exact ⟨_, Worker.conns_setConn_self _ _ _, fun h => absurd rfl h⟩
  · exact ⟨_, Worker.conns_setConn_of_ne _ _ _ hc, fun _ => rfl⟩

/-- The slot of a connection whose call is settled is loose. -/
theorem ConnInv.settle (h : ConnInv w none) :
    ConnInv (settleDeferred w d) (some (w.deferreds d).conn) := by
  have hconns (c : ℕ) := settleDeferred_conns w d c
  refine h.recount ?_ ?_ ?_ rfl rfl rfl rfl ?_
  · intro c
    obtain ⟨n, hn, -⟩ := hconns c
    rw [hn]
  · intro c
    obtain ⟨n, hn, -⟩ := hconns c
    rw [hn]
  · intro c
    obtain ⟨n, hn, -⟩ := hconns c
    rw [hn]
  · intro c hloose hlive hdetached
    obtain ⟨n, hn, hother⟩ := hconns c
    rw [hn, hother fun hc => hloose (hc ▸ rfl)]
    exact h.lingering c (Option.some_ne_none c).symm hlive hdetached

/-- A call that is drained, in the order of the source: the reply, the count, the slot. -/
theorem drainOne_eq (cfg : ServerConfig) (env : ℕ → Env) (w : Worker) (d : ℕ) :
    ∃ w₁ w₂, replyDeferred cfg (env w.tick).mem w d = w₁ ∧
      { settleDeferred w₁ d with tick := (settleDeferred w₁ d).tick + 1 } = w₂ ∧
      drainOne cfg env w d =
        if (w₂.conns (w.deferreds d).conn).detached ∧
          (w₂.conns (w.deferreds d).conn).pendingDeferred = 0 then
          connectionDestroy cfg w₂ (w.deferreds d).conn
        else w₂ := ⟨_, _, rfl, rfl, rfl⟩

/-- **A completed call is drained**: it is answered unless its connection is gone, and a slot that
waited for it is given back. -/
theorem Inv.drainOne (h : Inv ⟨w, [], d :: done, []⟩) :
    Inv ⟨drainOne cfg env w d, [], done, []⟩ := by
  have hd : d ∈ w.undrained :=
    ((h.defer.mem_done d).mp (List.mem_append_right _ List.mem_cons_self)).1
  obtain ⟨w₁, w₂, hw₁, hw₂, heq⟩ := drainOne_eq cfg env w d
  obtain ⟨op, hattempts⟩ := replyDeferred_attempts cfg (env w.tick).mem w d
  have hlt := (h.defer.conn_live d hd).1
  rw [hw₁] at hattempts
  obtain ⟨hdeferreds, hundrained, -, -, -⟩ := hattempts.deferred
  have hreplied : Inv ⟨w₁, [], d :: done, []⟩ := h.attempts hlt hattempts
  have hc : (w₁.deferreds d).conn = (w.deferreds d).conn := by rw [hdeferreds]
  have hlive := hreplied.defer.conn_live d (hundrained ▸ hd)
  rw [heq, ← hc]
  have hconn : ConnInv w₂ (some (w₁.deferreds d).conn) :=
    hw₂ ▸ hreplied.conn.settle.congr (fun _ => .refl _) rfl rfl rfl rfl
  have hwrite : WriteInv w₂ [] := by
    refine hw₂ ▸ hreplied.write.congr (fun c => ?_) rfl rfl
    obtain ⟨n, hn, -⟩ := settleDeferred_conns w₁ d c
    exact (congrArg Conn.writeQueued hn).trans rfl
  have hdefer : DeferInv w₂ done :=
    hw₂ ▸ hreplied.defer.settle.congr (fun _ => .refl _) rfl rfl rfl rfl rfl
  have hcall : CallInv w₂ := hw₂ ▸ hreplied.call.congr le_rfl rfl rfl rfl
  have hfds : ∀ fd ∈ w₂.pendingFds ++ [], 0 ≤ fd := hw₂ ▸ hreplied.fds
  have hlive₂ : w₂.connectionArena.Live (w₁.deferreds d).conn := hw₂ ▸ hlive
  by_cases hgone : (w₂.conns (w₁.deferreds d).conn).detached = true ∧
      (w₂.conns (w₁.deferreds d).conn).pendingDeferred = 0
  · rw [if_pos hgone]
    simp only [connectionDestroy, if_pos hgone.1]
    exact Inv.release hconn hwrite hdefer hcall hfds hlive₂ hgone.1
  · rw [if_neg hgone]
    exact ⟨hconn.tighten fun hdetached hzero => hgone ⟨hdetached, hzero⟩, hwrite, hdefer, hcall, hfds⟩

end Drain

/-! ## Writing and the scheduler -/

section Flush

variable {cfg : ServerConfig} {env : ℕ → Env} {w w' : Worker} {writes : List ℕ} {c : ℕ}

/-- The first half of a turn of the flush takes the connection off what is left to flush. -/
theorem Inv.flushWrite (script : List SendResult) (h : Inv ⟨w, c :: writes, [], []⟩) :
    Inv ⟨flushWrite env script w c, writes, [], []⟩ := by
  have hkept : (w.conns c).Kept { w.conns c with writeQueued := false } := ⟨rfl, rfl, rfl, rfl⟩
  have hnodup : c ∉ w.pendingWrites ++ writes ∧ (w.pendingWrites ++ writes).Nodup :=
    List.nodup_cons.mp (List.nodup_middle.mp h.write.nodup)
  have hmem (c' : ℕ) : c' ∈ w.pendingWrites ++ c :: writes ↔
      c' = c ∨ c' ∈ w.pendingWrites ++ writes := by
    rw [List.perm_middle.mem_iff, List.mem_cons]
  have hunqueued : Inv ⟨w.setConn c { w.conns c with writeQueued := false }, writes, [], []⟩ := by
    refine ⟨h.conn.congr (Worker.kept_setConn hkept) rfl rfl rfl rfl, ⟨hnodup.2, ?_, ?_⟩,
      h.defer.congr (Worker.kept_setConn hkept) rfl rfl rfl rfl rfl, h.call.congr le_rfl rfl rfl rfl,
      h.fds⟩
    · intro c'
      change c' ∈ w.pendingWrites ++ writes ↔ _
      by_cases hc : c' = c
      · rw [hc, Worker.conns_setConn_self]
        simpa using hnodup.1
      · rw [Worker.conns_setConn_of_ne _ _ _ hc]
        refine Iff.trans ?_ (h.write.mem_iff c')
        rw [hmem]
        simp [hc]
    · intro c' hc'
      by_cases hc : c' = c
      · rw [hc, Worker.conns_setConn_self] at hc'
        cases hc'
      · rw [Worker.conns_setConn_of_ne _ _ _ hc] at hc'
        exact h.write.attached c' hc'
  refine flushWrite_rule (P := fun w => Inv ⟨w, writes, [], []⟩) hunqueued ?_
  exact fun w' hw' _ => hw'.same (Worker.same_connectionWrite env w' c script)

/-- What the reply of the scheduler comes to. -/
theorem onCallDone_attempts (cfg : ServerConfig) (mem : Mem) (w : Worker) (call : Call)
    (callEnd : CallEnd) :
    ∃ op, Attempts cfg w call.conn call.request op call.ctx.procId call.ctx.callId
      (onCallDone cfg mem w call callEnd) := by
  cases callEnd with
  | response data => exact ⟨.response, queuePacket_attempts _ _ _ _ _ _ _ _ _⟩
  | failed error => exact ⟨.error, queueStringError_attempts _ _ _ _ _ _ _ _⟩

/-- Queueing a packet leaves the scheduler alone. -/
theorem Attempts.scheduler {request : Request} {op : Op} {procId callId : UInt64}
    (h : Attempts cfg w c request op procId callId w') :
    w'.callArena = w.callArena ∧ w'.ready = w.ready ∧ w'.calls = w.calls := by
  obtain ⟨conns, writes, entries, failed, -, rfl⟩ := h.eq
  exact ⟨rfl, rfl, rfl⟩

/-- One turn of the scheduler: the call that yields goes to the end of the queue, and the one that
ends is answered and its slot given back. -/
theorem resumeCall_eq_some {resume : Resume} (h : resumeCall cfg env w resume = some w') :
    ∃ k rest call, w.ready = k :: rest ∧ w.calls k = some call ∧
      (resume.callEnd = none ∧ w' = { w with ready := rest ++ [k], tick := w.tick + 1 } ∨
        ∃ callEnd, resume.callEnd = some callEnd ∧
          w' = callFree (onCallDone cfg (env w.tick).mem { w with ready := rest, tick := w.tick + 1 }
            call callEnd) k) := by
  unfold resumeCall at h
  split at h
  · cases h
  · rename_i k rest hready
    split at h
    · cases h
    · rename_i call hcall
      refine ⟨k, rest, call, hready, hcall, ?_⟩
      simp only at h
      split at h
      · rename_i hend
        exact .inl ⟨hend, (Option.some.inj h).symm⟩
      · rename_i callEnd hend
        exact .inr ⟨callEnd, hend, (Option.some.inj h).symm⟩

/-- One turn of the scheduler, whatever the call ends with. -/
theorem resumeCall_cases {resume : Resume} (h : resumeCall cfg env w resume = some w') :
    ∃ k rest call, w.ready = k :: rest ∧ w.calls k = some call ∧
      (w' = { w with ready := rest ++ [k], tick := w.tick + 1 } ∨
        ∃ op w₁, Attempts cfg { w with ready := rest, tick := w.tick + 1 } call.conn call.request op
          call.ctx.procId call.ctx.callId w₁ ∧ w' = callFree w₁ k) := by
  obtain ⟨k, rest, call, hready, hcall, ⟨-, heq⟩ | ⟨callEnd, -, heq⟩⟩ := resumeCall_eq_some h
  · exact ⟨k, rest, call, hready, hcall, .inl heq⟩
  · obtain ⟨op, hattempts⟩ := onCallDone_attempts cfg (env w.tick).mem
      { w with ready := rest, tick := w.tick + 1 } call callEnd
    exact ⟨k, rest, call, hready, hcall, .inr ⟨op, _, hattempts, heq⟩⟩

/-- **A ready call is resumed.** -/
theorem Inv.resume {resume : Resume} (h : Inv w.mid) (hresume : resumeCall cfg env w resume = some w') :
    Inv w'.mid := by
  obtain ⟨k, rest, call, hready, hcall, hend⟩ := resumeCall_cases hresume
  have hk : k ∈ w.ready := by rw [hready]; exact List.mem_cons_self
  have hrest : ∀ t ∈ rest, t ∈ w.ready := fun t ht => by
    rw [hready]
    exact List.mem_cons_of_mem _ ht
  have hnodup : k ∉ rest ∧ rest.Nodup := List.nodup_cons.mp (hready ▸ h.call.nodup)
  have hconn : call.conn < w.connectionArena.watermark := by
    obtain ⟨call', hcall', hlt⟩ := h.call.call k hk
    obtain rfl := Option.some.inj (hcall.symm.trans hcall')
    exact hlt
  -- whatever is left of the queue, its calls are among those that were ready
  have hqueue (ready : List ℕ) (hready' : ready.Nodup) (hsub : ∀ t ∈ ready, t ∈ w.ready) :
      Inv (Worker.mid { w with ready := ready, tick := w.tick + 1 }) :=
    ⟨h.conn.congr (fun _ => .refl _) rfl rfl rfl rfl, h.write.congr (fun _ => rfl) rfl rfl,
      h.defer.congr (fun _ => .refl _) rfl rfl rfl rfl rfl,
      ⟨h.call.arena, hready', fun t ht => h.call.live t (hsub t ht),
        fun t ht => h.call.call t (hsub t ht)⟩, h.fds⟩
  rcases hend with rfl | ⟨op, w₁, hattempts, rfl⟩
  · refine hqueue _ ?_ ?_
    · refine List.nodup_append.mpr ⟨hnodup.2, List.nodup_singleton k, ?_⟩
      rintro t ht t' ht' rfl
      exact hnodup.1 (List.mem_singleton.mp ht' ▸ ht)
    · intro t ht
      rcases List.mem_append.mp ht with ht | ht
      · exact hrest t ht
      · exact List.mem_singleton.mp ht ▸ hk
  · have hreplied : Inv w₁.mid := (hqueue rest hnodup.2 hrest).attempts hconn hattempts
    obtain ⟨harena, hlist, -⟩ := hattempts.scheduler
    have hlive : w₁.callArena.Live k := harena ▸ h.call.live k hk
    have hnot : k ∉ w₁.ready := hlist ▸ hnodup.1
    exact hreplied.callFree hlive hnot

end Flush

/-! ## The loop -/

/-- A new worker has nothing to keep track of. -/
theorem inv_workerInit : Inv workerInit.mid where
  conn :=
    { arena := Arena.wellFormed_init _
      mem_connections := fun c => by
        simp [workerInit, Worker.mid, Arena.not_live_init]
      nodup := List.nodup_nil
      fd_nonneg := by simp [workerInit, Worker.mid]
      inst_lt := fun c hc => absurd hc (Arena.not_live_init _ _)
      inst_inj := fun c _ hc => absurd hc (Arena.not_live_init _ _)
      gone := by simp [workerInit, Worker.mid, Arena.init]
      lingering := fun c _ hc => absurd hc (Arena.not_live_init _ _)
      freed_ok := by simp [workerInit, Worker.mid, freedOf]
      freed_lt := by simp [workerInit, Worker.mid, freedOf]
      freed_gone := by simp [workerInit, Worker.mid, freedOf]
      freed_nodup := List.nodup_nil }
  write := ⟨List.nodup_nil, by simp [workerInit, Worker.mid, Conn.zero],
    by simp [workerInit, Worker.mid, Conn.zero]⟩
  defer :=
    { arena := Arena.wellFormed_init _
      capacity := rfl
      nodup := List.nodup_nil
      live := by simp [workerInit, Worker.mid]
      done_nodup := List.nodup_nil
      mem_done := by simp [workerInit, Worker.mid]
      conn_live := by simp [workerInit, Worker.mid]
      inst_eq := by simp [workerInit, Worker.mid]
      pending := fun _ => rfl }
  call := ⟨Arena.wellFormed_init _, List.nodup_nil, by simp [workerInit, Worker.mid],
    by simp [workerInit, Worker.mid]⟩
  fds := by simp [workerInit, Worker.mid]

/-- **Every action of the loop preserves the invariant.** -/
theorem inv_loopRule (cfg : ServerConfig) (env : ℕ → Env) (T : ℕ → Prop) (K : Worker → Prop) :
    LoopRule cfg env T (fun _ => True) K Inv where
  isOpen := fun h hc => h.isOpen hc
  touch := fun _ _ _ _ _ _ h _ _ => h.same (Worker.same_touchRead _ _ _ _ _ _ _ _)
  handle := fun h _ hc _ hhandles => h.handle hc hhandles
  write := fun script h _ _ => h.same (Worker.same_connectionWrite env _ _ script)
  close := fun h _ hc hwrites _ _ _ => h.destroy hc hwrites
  takeFds := fun {w} h _ =>
    ⟨h.conn.congr (fun _ => .refl _) rfl rfl rfl rfl, h.write.congr (fun _ => rfl) rfl rfl,
      h.defer.congr (fun _ => .refl _) rfl rfl rfl rfl rfl, h.call.congr le_rfl rfl rfl rfl,
      fun fd hfd => h.fds fd (List.mem_append_left _ hfd)⟩
  add := fun h => h.add
  takeDone := fun {w} h =>
    ⟨h.conn.congr (fun _ => .refl _) rfl rfl rfl rfl, h.write.congr (fun _ => rfl) rfl rfl,
      { arena := h.defer.arena
        capacity := h.defer.capacity
        nodup := h.defer.nodup
        live := h.defer.live
        done_nodup := List.append_nil w.completed ▸ h.defer.done_nodup
        mem_done := fun d => List.append_nil w.completed ▸ h.defer.mem_done d
        conn_live := h.defer.conn_live
        inst_eq := h.defer.inst_eq
        pending := h.defer.pending },
      h.call.congr le_rfl rfl rfl rfl, h.fds⟩
  drain := fun h => h.drainOne
  accept := fun {w} fds h =>
    ⟨h.conn.congr (fun _ => .refl _) rfl rfl rfl rfl, h.write.congr (fun _ => rfl) rfl rfl,
      h.defer.congr (fun _ => .refl _) rfl rfl rfl rfl rfl, h.call.congr le_rfl rfl rfl rfl, by
      intro fd hfd
      simp only [Worker.mid, List.append_nil, List.mem_append, List.mem_map] at hfd
      rcases hfd with hfd | ⟨n, -, rfl⟩
      · exact h.fds fd (List.mem_append_left _ hfd)
      · exact Int.natCast_nonneg n⟩
  closes := fun _ => trivial
  complete := fun completion h hd => h.complete hd completion
  resume := fun h hresume => h.resume hresume
  takeWrites := fun {w} h =>
    ⟨h.conn.congr (fun _ => .refl _) rfl rfl rfl rfl,
      { nodup := List.append_nil w.pendingWrites ▸ h.write.nodup
        mem_iff := fun c => List.append_nil w.pendingWrites ▸ h.write.mem_iff c
        attached := h.write.attached },
      h.defer.congr (fun _ => .refl _) rfl rfl rfl rfl rfl, h.call.congr le_rfl rfl rfl rfl, h.fds⟩
  queued := fun {w c writes} h => by
    have hnodup : (w.pendingWrites ++ c :: writes).Nodup := h.write.nodup
    have hc : c ∈ w.pendingWrites ++ c :: writes := List.mem_append_right _ List.mem_cons_self
    refine ⟨h.write.attached c ((h.write.mem_iff c).mp hc), fun hcw => ?_⟩
    exact (List.nodup_cons.mp (List.nodup_middle.mp hnodup)).1 (List.mem_append_right _ hcw)
  flush := fun script h => h.flushWrite script

end Wirecall

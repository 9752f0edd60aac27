import Wirecall.Server.Ledger

/-!
# Output that waits

Output is queued while packets are handled, when a call returns and when a deferred call is
drained; it is flushed once in an iteration, and what the socket does not accept then is left to
the backend, which reports the socket when it is writable. Output that is neither queued to be
flushed nor registered with the backend would wait forever.

## Main definitions

* `Conn.Tended`, `Tended`: unsent output is queued to be flushed or registered
* `Conn.Tends`, `Worker.Tends`: what most actions do to a connection

## Main results

* `tended_loopRule`: every action of the loop keeps the output tended
* `no_stalled_output`: **between two iterations WRITE interest is registered exactly for the
  connections with unsent output**, if no output buffer failed to grow
-/

namespace Wirecall

/-- Unsent output is queued to be flushed or registered, unless the connection is to be closed. -/
def Conn.Tended (conn : Conn) : Prop :=
  conn.closing = false → conn.Unsent → conn.interests.write = true ∨ conn.writeQueued = true

/-- What most actions do to a connection: output that is added is queued. -/
structure Conn.Tends (conn conn' : Conn) : Prop where
  closing : conn'.closing = false → conn.closing = false
  unsent : conn'.Unsent → conn.Unsent ∨ conn'.writeQueued = true
  interests : conn'.interests = conn.interests
  queued : conn.writeQueued = true → conn'.writeQueued = true

/-- No connection is added, and those that stay are tended, unless a buffer could not grow. -/
def Worker.Tends (w w' : Worker) : Prop :=
  w'.queueFailed = false → w.queueFailed = false ∧
    ∀ c ∈ w'.connections, c ∈ w.connections ∧ (w.conns c).Tends (w'.conns c)

/-- The output of every connection is tended, unless a buffer could not grow. -/
def Tended (w : Worker) : Prop := w.queueFailed = false → ∀ c ∈ w.connections, (w.conns c).Tended

section Tends

variable {cfg : ServerConfig} {env : ℕ → Env} {w w' w'' : Worker} {c d : ℕ} {conn conn' : Conn}

theorem Conn.Tends.refl (conn : Conn) : conn.Tends conn := ⟨id, .inl, rfl, id⟩

theorem Conn.Tends.trans {conn'' : Conn} (h : conn.Tends conn') (h' : conn'.Tends conn'') :
    conn.Tends conn'' := by
  refine ⟨fun hc => h.closing (h'.closing hc), ?_, h'.interests.trans h.interests,
    fun hq => h'.queued (h.queued hq)⟩
  intro hunsent
  rcases h'.unsent hunsent with hunsent | hqueued
  · exact (h.unsent hunsent).imp_right h'.queued
  · exact .inr hqueued

theorem Conn.Tended.tends (h : conn.Tended) (htends : conn.Tends conn') : conn'.Tended := by
  intro hclosing hunsent
  rcases htends.unsent hunsent with hunsent | hqueued
  · rw [htends.interests]
    exact (h (htends.closing hclosing) hunsent).imp_right htends.queued
  · exact .inr hqueued

theorem Tended.tends (h : Tended w) (htends : w.Tends w') : Tended w' := by
  intro hok c hc
  obtain ⟨hok', hconns⟩ := htends hok
  obtain ⟨hc', hconn⟩ := hconns c hc
  exact (h hok' c hc').tends hconn

theorem Worker.Tends.of_conns (hlist : w'.connections = w.connections)
    (hfailed : w'.queueFailed = w.queueFailed) (hconns : ∀ c, (w.conns c).Tends (w'.conns c)) :
    w.Tends w' :=
  fun hok => ⟨hfailed.symm.trans hok, fun c hc => ⟨hlist ▸ hc, hconns c⟩⟩

theorem Worker.Tends.trans (h : w.Tends w') (h' : w'.Tends w'') : w.Tends w'' := by
  intro hok
  obtain ⟨hok', hconns'⟩ := h' hok
  obtain ⟨hok'', hconns⟩ := h hok'
  refine ⟨hok'', fun c hc => ?_⟩
  obtain ⟨hc', htends'⟩ := hconns' c hc
  obtain ⟨hc'', htends⟩ := hconns c hc'
  exact ⟨hc'', htends.trans htends'⟩

theorem Worker.tends_setConn (h : (w.conns c).Tends conn) (c' : ℕ) :
    (w.conns c').Tends ((w.setConn c conn).conns c') := by
  by_cases hc : c' = c
  · subst hc
    rwa [conns_setConn_self]
  · rw [conns_setConn_of_ne _ _ _ hc]
    exact .refl _

/-! ## What the actions do to the output -/

/-- A packet that is queued puts its connection on the list; one that is not shows that memory was
short. -/
theorem Queues.tends {request : Request} {op : Op} {procId callId : UInt64} {data : List UInt8}
    {result : Rc × Worker} (h : Queues cfg w c request op procId callId data result) :
    w.Tends result.2 := by
  cases h with
  | failed bytes cap => exact fun hok => by cases hok
  | queued hfront =>
    rw [Worker.queued_eq]
    exact .of_conns rfl rfl (Worker.tends_setConn ⟨id, fun _ => .inr rfl, rfl, fun _ => rfl⟩)

theorem Attempts.tends {request : Request} {op : Op} {procId callId : UInt64}
    (h : Attempts cfg w c request op procId callId w') : w.Tends w' := by
  cases h with
  | queues hopen hqueues => exact hqueues.tends
  | refused => exact .of_conns rfl rfl fun _ => .refl _
  | failed => exact fun hok => by cases hok

theorem Handles.tends {e : Env} {header : Header} {payload : List UInt8} {rc : Rc}
    (h : Handles cfg e w c header payload (rc, w')) : w.Tends w' := by
  generalize hresult : (rc, w') = result at h
  cases h with
  | @replied w₁ _ _ _ _ _ hchurn hreply hqueues =>
    subst hresult
    have hchurned : w.Tends w₁ := by
      refine .of_conns hchurn.connections hchurn.queueFailed fun c => ?_
      rw [hchurn.conns]
      exact .refl _
    exact hchurned.trans hqueues.tends
  | notStarted halloc hreply hqueues =>
    cases hresult
    exact hqueues.tends
  | disconnected hop =>
    cases hresult
    exact .of_conns rfl rfl (Worker.tends_setConn ⟨(fun h => by cases h), .inl, rfl, id⟩)
  | issued outcome hop halloc hsucceeds =>
    cases hresult
    obtain ⟨hconns, -, -, hfailed⟩ := runDeferred_frame (issueDeferred
      ((w.dispatching c header payload).takeDeferred _ _ (newDeferred c (w.request c) header)) c _)
      _ outcome 0
    refine .of_conns (runDeferred_connections _ _ outcome) hfailed ?_
    rw [hconns]
    exact Worker.tends_setConn ⟨id, .inl, rfl, id⟩
  | submitted call args hop hasync halloc hconn hrequest =>
    cases hresult
    exact .of_conns rfl rfl fun _ => .refl _

theorem complete_tends (w : Worker) (d : ℕ) (completion : Completion) :
    w.Tends (complete w d completion) := by
  obtain ⟨deferreds, completed, log, heq⟩ := complete_eq w d completion
  rw [heq]
  exact .of_conns rfl rfl fun _ => .refl _

theorem resumeCall_tends {resume : Resume} (h : resumeCall cfg env w resume = some w') :
    w.Tends w' := by
  obtain ⟨k, rest, call, -, -, rfl | ⟨op, w₁, hattempts, rfl⟩⟩ := resumeCall_cases h
  · exact .of_conns rfl rfl fun _ => .refl _
  · exact hattempts.tends

/-- The end of a connection leaves the others alone. -/
theorem connectionDestroy_tends (cfg : ServerConfig) (hnodup : w.connections.Nodup)
    (hattached : (w.conns c).detached = false) : w.Tends (connectionDestroy cfg w c) := by
  obtain ⟨-, -, -, -, -, -, -, hfailed, -⟩ := connectionDestroy_frame cfg w c
  refine fun hok => ⟨hfailed.symm.trans hok, fun c' hc' => ?_⟩
  rw [connectionDestroy_connections cfg hattached] at hc'
  obtain ⟨hne, hmem⟩ := hnodup.mem_erase_iff.mp hc'
  refine ⟨hmem, ?_⟩
  rw [connectionDestroy_of_ne cfg w hne]
  exact .refl _

theorem drainOne_tends (cfg : ServerConfig) (env : ℕ → Env) (w : Worker) (d : ℕ) :
    w.Tends (drainOne cfg env w d) := by
  obtain ⟨w₁, w₂, hw₁, hw₂, heq⟩ := drainOne_eq cfg env w d
  obtain ⟨op, hattempts⟩ := replyDeferred_attempts cfg (env w.tick).mem w d
  rw [hw₁] at hattempts
  have hsettle : w₁.Tends w₂ := by
    rw [← hw₂]
    refine .of_conns rfl rfl fun c => ?_
    obtain ⟨n, hn, -⟩ := settleDeferred_conns w₁ d c
    exact hn ▸ ⟨id, .inl, rfl, id⟩
  rw [heq]
  split_ifs with hgone
  · refine hattempts.tends.trans (hsettle.trans ?_)
    -- the slot that is given back was detached before
    simp only [connectionDestroy, if_pos hgone.1]
    rw [if_neg (by rw [hgone.2]; exact fun h => h rfl)]
    refine .of_conns rfl rfl fun c => ?_
    obtain ⟨fd, hconn, -⟩ := freeConnection_conns cfg w₂ (w.deferreds d).conn c
    rw [hconn]
    exact ⟨id, .inl, rfl, id⟩
  · exact hattempts.tends.trans hsettle

/-- A new connection has no output. -/
theorem Tended.add {fd : Int} {fds : List Int} (hinv : Inv ⟨w, [], [], fd :: fds⟩) (h : Tended w) :
    Tended (workerAddConnection cfg env w fd) := by
  cases halloc : w.connectionArena.alloc with
  | none =>
    rw [workerAddConnection, halloc]
    exact h
  | some slot =>
    obtain ⟨c, arena⟩ := slot
    have hdead := (Arena.live_alloc hinv.conn.arena halloc).1
    have hne : ∀ c' ∈ w.connections, c' ≠ c := by
      rintro c' hc' rfl
      exact hdead ((hinv.conn.mem_connections c').mp hc').1
    rw [workerAddConnection_eq halloc]
    split_ifs
    · intro hok c' hc'
      rcases List.mem_cons.mp hc' with rfl | hc'
      · rw [Worker.conns_setConn_self, Worker.added_self]
        exact fun _ hunsent => absurd hunsent (Nat.lt_irrefl 0)
      · rw [Worker.conns_setConn_of_ne _ _ _ (hne c' hc'), Worker.added_of_ne _ _ _ (hne c' hc')]
        exact h hok c' hc'
    · -- the backend refused it, and it is taken off the list again
      intro hok c' hc'
      obtain ⟨-, -, -, -, -, -, -, hfailed, -⟩ := connectionDestroy_frame cfg (w.added c arena fd) c
      have hattached : ((w.added c arena fd).conns c).detached = false := by
        rw [Worker.added_self]
        rfl
      rw [connectionDestroy_connections cfg hattached] at hc'
      have hmem : c' ∈ w.connections := by
        have : (w.added c arena fd).connections.erase c = w.connections := List.erase_cons_head _ _
        exact this ▸ hc'
      rw [connectionDestroy_of_ne cfg _ (hne c' hmem), Worker.added_of_ne _ _ _ (hne c' hmem)]
      exact h (hfailed.symm.trans hok) c' hmem

/-- **A write registers what it could not send**, unless the socket failed. -/
theorem sendLoop_registers {script : List SendResult} :
    ∀ conn : Conn, (sendLoop true script conn).closing = false →
      (sendLoop true script conn).Unsent → (sendLoop true script conn).interests.write = true := by
  have hblocked (conn : Conn) :
      (setInterests true conn ⟨true, true⟩).interests.write = true := by
    unfold setInterests
    split_ifs with hsame htrue
    · rw [hsame]
    · rfl
    · exact absurd rfl htrue
  have hdrained (conn : Conn) : ¬ (setInterests true { conn with writeBuf := [], writeOff := 0 }
      ⟨true, false⟩).Unsent := by
    unfold setInterests
    split_ifs <;> exact Nat.lt_irrefl 0
  induction script with
  | nil =>
    intro conn
    rw [sendLoop]
    split_ifs with hunsent
    · exact fun _ _ => hblocked _
    · exact fun _ h => absurd h (hdrained conn)
  | cons r script ih =>
    intro conn
    rw [sendLoop]
    split_ifs with hunsent
    · cases r with
      | sent n =>
        cases n with
        | zero => exact fun h => by cases h
        | succ n => exact ih _
      | interrupted => exact ih _
      | wouldBlock => exact fun _ _ => hblocked _
      | error => exact fun h => by cases h
    · exact fun _ h => absurd h (hdrained conn)

/-- A write leaves its connection tended, and the others alone. -/
theorem Tended.write (hmodify : (env w.tick).modify = true) (c : ℕ) (script : List SendResult)
    (h : w.queueFailed = false → ∀ c' ∈ w.connections, c' ≠ c → (w.conns c').Tended) :
    Tended (connectionWrite env w c script) := by
  intro hok c' hc'
  by_cases hcc : c' = c
  · subst hcc
    have hself : (connectionWrite env w c' script).conns c' =
        sendLoop (env w.tick).modify script (w.conns c') := Worker.conns_setConn_self _ _ _
    rw [hself, hmodify]
    exact fun hclosing hunsent => .inl (sendLoop_registers _ hclosing hunsent)
  · have hother : (connectionWrite env w c script).conns c' = w.conns c' :=
      Worker.conns_setConn_of_ne _ _ _ hcc
    rw [hother]
    exact h hok c' hc' hcc

/-- A turn of the flush: a connection that is taken off the list is written. -/
theorem Tended.flush (hmodify : ∀ t, (env t).modify = true) (h : Tended w) (c : ℕ)
    (script : List SendResult) : Tended (flushWrite env script w c) := by
  have hothers (c' : ℕ) (hcc : c' ≠ c) :
      (w.setConn c { w.conns c with writeQueued := false }).conns c' = w.conns c' :=
    Worker.conns_setConn_of_ne _ _ _ hcc
  unfold flushWrite
  simp only
  split_ifs with hunsent
  · refine Tended.write (hmodify _) c script fun hok c' hc' hcc => ?_
    rw [hothers c' hcc]
    exact h hok c' hc'
  · intro hok c' hc'
    by_cases hcc : c' = c
    · subst hcc
      exact fun _ h => absurd h hunsent
    · rw [hothers c' hcc]
      exact h hok c' hc'

/-- **Every action of the loop keeps the output tended**, as long as the backend takes the changes
of interests. -/
theorem tended_loopRule (cfg : ServerConfig) (hmodify : ∀ t, (env t).modify = true) (T : ℕ → Prop)
    (K : Worker → Prop) :
    LoopRule cfg env T (fun _ => True) K fun m => Inv m ∧ Tended m.worker := by
  have hinv := inv_loopRule cfg env T K
  exact
    { isOpen := fun h hc => hinv.isOpen h.1 hc
      touch := fun readBuf readCap received closing ticks failed h hT hc =>
        ⟨hinv.touch _ _ _ _ _ _ h.1 hT hc, h.2.tends (.of_conns rfl rfl (Worker.tends_setConn
          ⟨fun hclosing => (Bool.or_eq_false_iff.mp hclosing).1, .inl, rfl, id⟩))⟩
      handle := fun h hT hc hvalid hhandles =>
        ⟨hinv.handle h.1 hT hc hvalid hhandles, h.2.tends hhandles.tends⟩
      write := fun {m c} script h hT hc =>
        ⟨hinv.write script h.1 hT hc,
          Tended.write (hmodify _) c script fun hok c' hc' _ => h.2 hok c' hc'⟩
      close := fun h hU hc hwrites hclosing hsent hfds =>
        ⟨hinv.close h.1 hU hc hwrites hclosing hsent hfds,
          h.2.tends (connectionDestroy_tends cfg h.1.conn.nodup (h.1.isOpen hc).1)⟩
      takeFds := fun h hK => ⟨hinv.takeFds h.1 hK, h.2⟩
      add := fun h => ⟨hinv.add h.1, h.2.add h.1⟩
      takeDone := fun h => ⟨hinv.takeDone h.1, h.2⟩
      drain := fun h => ⟨hinv.drain h.1, h.2.tends (drainOne_tends cfg env _ _)⟩
      accept := fun fds h => ⟨hinv.accept fds h.1, h.2⟩
      closes := fun _ => trivial
      complete := fun completion h hd =>
        ⟨hinv.complete completion h.1 hd, h.2.tends (complete_tends _ _ completion)⟩
      resume := fun h hresume => ⟨hinv.resume h.1 hresume, h.2.tends (resumeCall_tends hresume)⟩
      takeWrites := fun h => ⟨hinv.takeWrites h.1, h.2⟩
      queued := fun h => hinv.queued h.1
      flush := fun {w c writes} script h => ⟨hinv.flush script h.1, h.2.flush hmodify c script⟩ }

end Tends

/-! ## Between two iterations -/

/-- **No output stalls.** In every run in which the backend takes the changes of interests, events
are for allocated slots and no output buffer failed to grow: whenever an iteration has ended, a
connection that is not to be closed has unsent output exactly when WRITE interest is registered
for it, and it is not on the list of pending writes. -/
theorem no_stalled_output (cfg : ServerConfig) {env : ℕ → Env} {labels : List Label} {s : Loop}
    (hmodify : ∀ t, (env t).modify = true)
    (hevents : Machine.Meets (Loop.step cfg env) Allocated Loop.init labels)
    (hrun : Machine.exec (Loop.step cfg env) Loop.init labels = some s)
    (hmemory : s.worker.queueFailed = false) (hphase : s.phase = .poll) :
    ∀ c ∈ s.worker.connections, (s.worker.conns c).closing = false →
      ((s.worker.conns c).writeOff < (s.worker.conns c).writeBuf.length ↔
        (s.worker.conns c).interests.write = true) ∧ c ∉ s.worker.pendingWrites := by
  have hevents' : Machine.Meets (Loop.step cfg env)
      (fun s l => Allocated s l ∧ WakesIn (fun _ => True) s l) Loop.init labels :=
    hevents.mono fun s l h => ⟨h, .of_forall (fun _ => trivial) s l⟩
  obtain ⟨⟨-, hinterested⟩, -⟩ :=
    (interested_loopRule cfg hmodify (fun _ => True) (fun _ => True)).exec
      ⟨inv_workerInit, fun c hc => by cases hc⟩ hevents' hrun
  obtain ⟨⟨hinv, htended⟩, -⟩ :=
    (tended_loopRule cfg hmodify (fun _ => True) (fun _ => True)).exec
      ⟨inv_workerInit, fun _ c hc => by cases hc⟩ hevents' hrun
  obtain ⟨-, hwrites⟩ := Loop.settled_exec hrun hphase
  intro c hc hclosing
  refine ⟨⟨fun hunsent => ?_, hinterested c hc⟩, by rw [hwrites]; exact List.not_mem_nil⟩
  -- nothing is queued any more, so the output is registered
  refine (htended hmemory c hc hclosing hunsent).resolve_right fun hqueued => ?_
  have hmem := (hinv.write.mem_iff c).mpr hqueued
  change c ∈ s.worker.pendingWrites ++ [] at hmem
  rw [hwrites] at hmem
  cases hmem

/-- A PING is answered, and the socket accepts ten bytes of the answer. -/
theorem no_stalled_output_ping :
    let labels := connecting 3 ++
      [.poll [.conn 0 ⟨true, false⟩], .event [.data (pingThenDisconnect.take 34)] [], .schedule,
        .finish fun _ => [.sent 10, .wouldBlock]]
    ∃ s, Machine.exec (Loop.step .plain fun _ => .quiet) Loop.init labels = some s ∧
      (s.worker.conns 0).writeOff < (s.worker.conns 0).writeBuf.length ∧
      (s.worker.conns 0).interests.write = true := by
  intro labels
  have hrun : (Machine.exec (Loop.step .plain fun _ => .quiet) Loop.init labels).any
      (fun s => decide (s.worker.queueFailed = false ∧ s.phase = .poll ∧
        0 ∈ s.worker.connections ∧ (s.worker.conns 0).closing = false ∧
        (s.worker.conns 0).writeOff < (s.worker.conns 0).writeBuf.length)) = true := by
    decide +kernel
  obtain ⟨s, hs, hfacts⟩ := Machine.exists_of_any hrun
  obtain ⟨hmemory, hphase, hc, hclosing, hunsent⟩ := of_decide_eq_true hfacts
  have hiff := (no_stalled_output .plain (fun _ => rfl) (by decide +kernel) hs hmemory hphase 0 hc
    hclosing).1
  exact ⟨s, hs, hunsent, hiff.mp hunsent⟩

/-- A server like `deferringEnv`, with buffers that do not grow beyond 4096 bytes. -/
def tightEnv : Env := { deferringEnv with mem := fun n => n ≤ 4096 }

/-- **Output that stalls**: a deferred call is completed with 5000 bytes. Its answer does not fit,
but the header of the answer stays in the buffer. The iteration ends with unsent output on a
connection that is not to be closed, without WRITE interest. -/
theorem header_stalls :
    let labels := connecting 3 ++
      [.poll [.conn 0 ⟨true, false⟩], .event [.data (callBytes 7)] [], .schedule,
        .complete 0 (.complete ⟨List.replicate 5000 1, List.length_replicate.le.trans (by decide)⟩),
        .finish fun _ => [.sent 100]]
    ∃ s, Machine.exec (Loop.step .plain fun _ => tightEnv) Loop.init labels = some s ∧
      s.phase = .poll ∧ 0 ∈ s.worker.connections ∧ (s.worker.conns 0).closing = false ∧
      (s.worker.conns 0).writeBuf.length = 34 ∧ (s.worker.conns 0).writeOff = 0 ∧
      (s.worker.conns 0).interests.write = false := by
  intro labels
  have hrun : (Machine.exec (Loop.step .plain fun _ => tightEnv) Loop.init labels).any
      (fun s => decide (s.phase = .poll ∧ 0 ∈ s.worker.connections ∧
        (s.worker.conns 0).closing = false ∧ (s.worker.conns 0).writeBuf.length = 34 ∧
        (s.worker.conns 0).writeOff = 0 ∧ (s.worker.conns 0).interests.write = false)) = true := by
    decide +kernel
  obtain ⟨s, hs, hfacts⟩ := Machine.exists_of_any hrun
  exact ⟨s, hs, of_decide_eq_true hfacts⟩

end Wirecall

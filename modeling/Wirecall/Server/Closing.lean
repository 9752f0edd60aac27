import Wirecall.Server.Isolation

/-!
# Connections that are to be closed

A connection that is marked for closing is destroyed once its output is sent. The loop hands a
WRITE event to `connection_write` only if the connection is not marked, so output that is left
unsent at the end of an iteration is never offered to the socket again: no packet of the connection
is handled any more, its deferred calls are drained without a reply, and of its scheduler calls
none is left. Nothing of the connection changes but the count of its deferred calls.

## Main definitions

* `Worker.Leaves`: what an action leaves of a connection
* `Parked`: a connection is as it was, and no call is queued for it

## Main results

* `stuck_loopRule`: every action of the loop leaves it so
* `closing_output_stuck`: so does every run
* `closing_output_not_offered`: a run in which a WRITE event does nothing
-/

namespace Wirecall

/-- What an action leaves of the connection `c`: it stays on the list, only the count of its
deferred calls may change, and no call is queued for it. -/
structure Worker.Leaves (c : ℕ) (w w' : Worker) : Prop where
  listed : c ∈ w.connections → c ∈ w'.connections
  same : ∃ n, w'.conns c = { w.conns c with pendingDeferred := n }
  calls : ∀ k ∈ w'.ready, ∀ call, w'.calls k = some call →
    (k ∈ w.ready ∧ w.calls k = some call) ∨ call.conn ≠ c

section Leaves

variable {cfg : ServerConfig} {env : ℕ → Env} {w w' w'' : Worker} {c c' d : ℕ}

/-- An action that queues no call. -/
theorem Worker.Leaves.of_holds (hholds : w.Holds w')
    (hlisted : c ∈ w.connections → c ∈ w'.connections) (hsame : w'.conns c = w.conns c) :
    w.Leaves c w' :=
  ⟨hlisted, ⟨(w.conns c).pendingDeferred, hsame⟩,
    fun k hk call hcall => .inl (hholds.calls k hk call hcall)⟩

theorem Worker.Leaves.refl (w : Worker) (c : ℕ) : w.Leaves c w := .of_holds (.refl w) id rfl

theorem Worker.Leaves.trans (h : w.Leaves c w') (h' : w'.Leaves c w'') : w.Leaves c w'' := by
  obtain ⟨n, hn⟩ := h.same
  obtain ⟨n', hn'⟩ := h'.same
  refine ⟨fun hc => h'.listed (h.listed hc), ⟨n', by rw [hn', hn]⟩, ?_⟩
  intro k hk call hcall
  rcases h'.calls k hk call hcall with ⟨hk', hcall'⟩ | hne
  · exact h.calls k hk' call hcall'
  · exact .inr hne

/-- Whatever is stored into another slot. -/
theorem Worker.Leaves.setConn (hne : c ≠ c') {conn : Conn}
    (hinst : conn.inst = (w.conns c').inst) : w.Leaves c (w.setConn c' conn) :=
  .of_holds (.setConn hinst) id (conns_setConn_of_ne _ _ _ hne)

theorem Queues.conns_of_ne {request : Request} {op : Op} {procId callId : UInt64}
    {data : List UInt8} {result : Rc × Worker}
    (h : Queues cfg w c' request op procId callId data result) (hne : c ≠ c') :
    result.2.conns c = w.conns c := by
  cases h with
  | failed bytes cap => exact Worker.conns_setConn_of_ne _ _ _ hne
  | queued hfront =>
    rw [Worker.queued_eq]
    exact Worker.conns_setConn_of_ne _ _ _ hne

theorem Attempts.conns_of_ne {request : Request} {op : Op} {procId callId : UInt64}
    (h : Attempts cfg w c' request op procId callId w') (hne : c ≠ c') : w'.conns c = w.conns c := by
  cases h with
  | queues hopen hqueues => exact hqueues.conns_of_ne hne
  | refused => rfl
  | failed => rfl

theorem Attempts.connections {request : Request} {op : Op} {procId callId : UInt64}
    (h : Attempts cfg w c' request op procId callId w') : w'.connections = w.connections := by
  obtain ⟨conns, writes, entries, failed, -, rfl⟩ := h.eq
  rfl

/-- Handling a packet leaves the other connections alone. -/
theorem Handles.conns_of_ne {e : Env} {header : Header} {payload : List UInt8} {rc : Rc}
    (h : Handles cfg e w c' header payload (rc, w')) (hne : c ≠ c') : w'.conns c = w.conns c := by
  generalize hresult : (rc, w') = result at h
  cases h with
  | replied hchurn hreply hqueues =>
    subst hresult
    rw [hqueues.conns_of_ne hne, hchurn.conns]
    rfl
  | notStarted halloc hreply hqueues =>
    cases hresult
    exact hqueues.conns_of_ne hne
  | disconnected hop =>
    cases hresult
    exact Worker.conns_setConn_of_ne _ _ _ hne
  | issued outcome hop halloc hsucceeds =>
    cases hresult
    rw [(runDeferred_frame _ _ outcome 0).1]
    exact Worker.conns_setConn_of_ne _ _ _ hne
  | submitted call args hop hasync halloc hconn hrequest =>
    cases hresult
    rfl

/-- A call that is submitted while a packet of another connection is handled is for that one. -/
theorem Handles.leaves {e : Env} {header : Header} {payload : List UInt8} {rc : Rc}
    (h : Handles cfg e w c' header payload (rc, w')) (hne : c ≠ c') : w.Leaves c w' := by
  have hlisted : c ∈ w.connections → c ∈ w'.connections := fun hc => h.connections ▸ hc
  rcases h.holds_or_submitted with hholds | ⟨k, arena, call, call', -, hconn, -, rfl⟩
  · exact .of_holds hholds hlisted (h.conns_of_ne hne)
  · refine ⟨hlisted, ⟨_, h.conns_of_ne hne⟩, fun t ht called hcalled => ?_⟩
    simp only [Worker.startCall, Worker.takeCall, Function.update_idem] at hcalled
    by_cases htk : t = k
    · rw [htk, Function.update_self] at hcalled
      obtain rfl := Option.some.inj hcalled
      exact .inr (hconn ▸ Ne.symm hne)
    · rw [Function.update_of_ne htk] at hcalled
      refine .inl ⟨(List.mem_append.mp ht).resolve_right fun hself => ?_, hcalled⟩
      exact htk (List.mem_singleton.mp hself)

theorem connectionDestroy_leaves (cfg : ServerConfig) (hne : c ≠ c') :
    w.Leaves c (connectionDestroy cfg w c') := by
  refine .of_holds (connectionDestroy_holds cfg w c') (fun hc => ?_)
    (connectionDestroy_of_ne cfg w hne)
  unfold connectionDestroy
  simp only
  split_ifs
  all_goals first | exact hc | exact (List.mem_erase_of_ne hne).mpr hc

/-- **A completed call is drained**: one of the connection itself is not answered, since the
connection is to be closed, and is no longer counted. -/
theorem drainOne_leaves (cfg : ServerConfig) (env : ℕ → Env) {done : List ℕ}
    (hinv : Inv ⟨w, [], d :: done, []⟩) (hclosing : (w.conns c).closing = true)
    (hattached : (w.conns c).detached = false) : w.Leaves c (drainOne cfg env w d) := by
  have hholds := drainOne_holds cfg env hinv
  obtain ⟨w₁, w₂, hw₁, hw₂, heq⟩ := drainOne_eq cfg env w d
  obtain ⟨op, hattempts⟩ := replyDeferred_attempts cfg (env w.tick).mem w d
  rw [hw₁] at hattempts
  -- the reply leaves the connection alone
  have hreplied : w₁.conns c = w.conns c := by
    by_cases hc : c = (w.deferreds d).conn
    · have hnot : ¬ ((w.conns (w.deferreds d).conn).detached = false ∧
          (w.conns (w.deferreds d).conn).closing = false) := by
        rintro ⟨-, hopen⟩
        rw [← hc, hclosing] at hopen
        cases hopen
      rw [← hw₁, replyDeferred, if_neg hnot]
    · exact hattempts.conns_of_ne hc
  have hsettled : w.Leaves c w₂ := by
    obtain ⟨n, hn, -⟩ := settleDeferred_conns w₁ d c
    refine ⟨fun hc => ?_, ⟨n, ?_⟩, fun k hk call hcall => ?_⟩
    · rw [← hw₂]
      exact hattempts.connections ▸ hc
    · rw [← hw₂, ← hreplied]
      exact hn
    · rw [← hw₂] at hk hcall
      obtain ⟨-, hready, hcalls⟩ := hattempts.scheduler
      exact .inl ⟨hready ▸ hk, hcalls ▸ hcall⟩
  rw [heq]
  split_ifs with hgone
  · refine hsettled.trans (connectionDestroy_leaves cfg ?_)
    rintro rfl
    obtain ⟨n, hn⟩ := hsettled.same
    rw [hn] at hgone
    exact absurd (hattached.symm.trans hgone.1) (by decide)
  · exact hsettled

theorem workerAddConnection_leaves {fd : Int} {fds : List Int}
    (hinv : Inv ⟨w, [], [], fd :: fds⟩) (hc : c ∈ w.connections) :
    w.Leaves c (workerAddConnection cfg env w fd) := by
  cases halloc : w.connectionArena.alloc with
  | none =>
    rw [workerAddConnection, halloc]
    exact .refl w c
  | some slot =>
    obtain ⟨c', arena⟩ := slot
    have hne : c ≠ c' := by
      rintro rfl
      exact (Arena.live_alloc hinv.conn.arena halloc).1 ((hinv.conn.mem_connections c).mp hc).1
    have hadded : w.Leaves c (w.added c' arena fd) :=
      ⟨fun hc => List.mem_cons_of_mem _ hc, ⟨_, Worker.added_of_ne w arena fd hne⟩,
        fun k hk call hcall => .inl ⟨hk, hcall⟩⟩
    rw [workerAddConnection_eq halloc]
    split_ifs
    · exact hadded.trans (.setConn hne rfl)
    · exact hadded.trans (connectionDestroy_leaves cfg hne)

end Leaves

/-- The connection `c` is as `conn` was, apart from the count of its deferred calls, and no call is
queued for it. -/
structure Parked (conn : Conn) (c : ℕ) (m : Mid) : Prop where
  inv : Inv m
  listed : c ∈ m.worker.connections
  same : ∃ n, m.worker.conns c = { conn with pendingDeferred := n }
  calls : ∀ k ∈ m.worker.ready, ∀ call, m.worker.calls k = some call → call.conn ≠ c

section Parked

variable {cfg : ServerConfig} {env : ℕ → Env} {conn : Conn} {m m' : Mid} {w w' : Worker}
  {c c' d : ℕ}

theorem Parked.next (h : Parked conn c m) (hinv : Inv m') (hleaves : m.worker.Leaves c m'.worker) :
    Parked conn c m' := by
  obtain ⟨n, hn⟩ := h.same
  obtain ⟨n', hn'⟩ := hleaves.same
  refine ⟨hinv, hleaves.listed h.listed, ⟨n', by rw [hn', hn]⟩, fun k hk call hcall => ?_⟩
  rcases hleaves.calls k hk call hcall with ⟨hk', hcall'⟩ | hne
  · exact h.calls k hk' call hcall'
  · exact hne

theorem Parked.closing (h : Parked conn c m) (hclosing : conn.closing = true) :
    (m.worker.conns c).closing = true := by
  obtain ⟨n, hn⟩ := h.same
  rw [hn]
  exact hclosing

/-- A call that is resumed is for another connection. -/
theorem Parked.resume {resume : Resume} (h : Parked conn c w.mid)
    (hresume : resumeCall cfg env w resume = some w') : Parked conn c w'.mid := by
  refine h.next (h.inv.resume hresume) ?_
  obtain ⟨k, rest, call, hready, hcall, hend⟩ := resumeCall_cases hresume
  have hk : k ∈ w.ready := by
    rw [hready]
    exact List.mem_cons_self
  have hne : c ≠ call.conn := (h.calls k hk call hcall).symm
  have hqueue (ready : List ℕ) (hsub : ∀ t ∈ ready, t ∈ w.ready) :
      w.Leaves c { w with ready := ready, tick := w.tick + 1 } :=
    ⟨id, ⟨_, rfl⟩, fun t ht called hcalled => .inl ⟨hsub t ht, hcalled⟩⟩
  rcases hend with rfl | ⟨op, w₁, hattempts, rfl⟩
  · refine hqueue _ fun t ht => ?_
    rcases List.mem_append.mp ht with hrest | hself
    · rw [hready]
      exact List.mem_cons_of_mem _ hrest
    · rwa [List.mem_singleton.mp hself]
  · have hrest := hqueue rest fun t ht => by
      rw [hready]
      exact List.mem_cons_of_mem _ ht
    obtain ⟨-, hready₁, hcalls₁⟩ := hattempts.scheduler
    refine hrest.trans ⟨fun hc => hattempts.connections ▸ hc, ⟨_, hattempts.conns_of_ne hne⟩, ?_⟩
    intro t ht called hcalled
    exact .inl ⟨hready₁ ▸ ht, hcalls₁ ▸ (callFree_calls hcalled).2⟩

/-- **Every action of the loop leaves the connection stuck**, if it is to be closed, has unsent
output and is not on the list of pending writes. Its events are not asked for: they read and write
only connections that are not to be closed. -/
theorem stuck_loopRule (cfg : ServerConfig) (env : ℕ → Env) (hclosing : conn.closing = true)
    (hunsent : conn.Unsent) (hqueued : conn.writeQueued = false) (K : Worker → Prop) :
    LoopRule cfg env (· ≠ c) (fun _ => True) K (Parked conn c) := by
  have hinv := inv_loopRule cfg env (· ≠ c) K
  exact
    { isOpen := fun h hc => hinv.isOpen h.inv hc
      touch := fun {m c'} readBuf readCap received closing ticks failed h hT hc => by
        refine h.next (hinv.touch _ _ _ _ _ _ h.inv hT hc) ?_
        exact ⟨id, ⟨_, Worker.conns_setConn_of_ne _ _ _ (Ne.symm hT)⟩,
          fun k hk call hcall => .inl ⟨hk, hcall⟩⟩
      handle := fun h hT hc hvalid hhandles =>
        h.next (hinv.handle h.inv hT hc hvalid hhandles) (hhandles.leaves (Ne.symm hT))
      write := fun script h hT hc => by
        refine h.next (hinv.write script h.inv hT hc) ?_
        exact ⟨id, ⟨_, Worker.conns_setConn_of_ne _ _ _ (Ne.symm hT)⟩,
          fun k hk call hcall => .inl ⟨hk, hcall⟩⟩
      close := fun {m c'} h hU hc hwrites hclose hsent hfds => by
        refine h.next (hinv.close h.inv hU hc hwrites hclose hsent hfds)
          (connectionDestroy_leaves cfg ?_)
        -- a connection that is closed has nothing left to send
        rintro rfl
        obtain ⟨n, hn⟩ := h.same
        rw [hn] at hsent
        exact hsent hunsent
      takeFds := fun h hK => h.next (hinv.takeFds h.inv hK) ⟨id, ⟨_, rfl⟩, fun k hk call hcall =>
        .inl ⟨hk, hcall⟩⟩
      add := fun h => h.next (hinv.add h.inv) (workerAddConnection_leaves h.inv h.listed)
      takeDone := fun h => h.next (hinv.takeDone h.inv) ⟨id, ⟨_, rfl⟩, fun k hk call hcall =>
        .inl ⟨hk, hcall⟩⟩
      drain := fun h => h.next (hinv.drain h.inv) (drainOne_leaves cfg env h.inv (h.closing hclosing)
        (h.inv.isOpen h.listed).1)
      accept := fun fds h => h.next (hinv.accept fds h.inv) ⟨id, ⟨_, rfl⟩, fun k hk call hcall =>
        .inl ⟨hk, hcall⟩⟩
      closes := fun _ => trivial
      complete := fun {w d} completion h hd => by
        refine h.next (hinv.complete completion h.inv hd) ?_
        obtain ⟨deferreds, completed, log, heq⟩ := complete_eq w d completion
        rw [heq]
        exact ⟨id, ⟨_, rfl⟩, fun k hk call hcall => .inl ⟨hk, hcall⟩⟩
      resume := fun h hresume => h.resume hresume
      takeWrites := fun h => h.next (hinv.takeWrites h.inv) ⟨id, ⟨_, rfl⟩, fun k hk call hcall =>
        .inl ⟨hk, hcall⟩⟩
      queued := fun h => hinv.queued h.inv
      flush := fun {w c' writes} script h => by
        refine h.next (hinv.flush script h.inv) ?_
        -- a connection that is flushed was on the list of pending writes
        have hne : c ≠ c' := by
          rintro rfl
          obtain ⟨n, hn⟩ := h.same
          have hmem : c ∈ w.pendingWrites ++ c :: writes :=
            List.mem_append_right _ List.mem_cons_self
          have htrue := (h.inv.write.mem_iff c).mp hmem
          rw [hn] at htrue
          exact absurd (hqueued.symm.trans htrue) (by decide)
        refine flushWrite_rule (P := fun w' => w.Leaves c w') (.setConn hne rfl) fun w' hw' _ => ?_
        exact hw'.trans ⟨id, ⟨_, Worker.conns_setConn_of_ne _ _ _ hne⟩,
          fun k hk call hcall => .inl ⟨hk, hcall⟩⟩ }

end Parked

/-! ## Runs -/

/-- **Output that is left on a connection that is to be closed is never offered again**: whatever
events follow, WRITE events for it among them, the connection stays as it is at the end of the
iteration, apart from the count of its deferred calls. -/
theorem closing_output_stuck (cfg : ServerConfig) {env : ℕ → Env} {labels labels' : List Label}
    {s s' : Loop} (hevents : Machine.Meets (Loop.step cfg env) Allocated Loop.init labels)
    (hrun : Machine.exec (Loop.step cfg env) Loop.init labels = some s) (hpoll : s.phase = .poll)
    {c : ℕ} (hc : c ∈ s.worker.connections) (hclosing : (s.worker.conns c).closing = true)
    (hunsent : (s.worker.conns c).Unsent)
    (hevents' : Machine.Meets (Loop.step cfg env) Allocated s labels')
    (hrun' : Machine.exec (Loop.step cfg env) s labels' = some s') :
    c ∈ s'.worker.connections ∧
      ∃ n, s'.worker.conns c = { s.worker.conns c with pendingDeferred := n } := by
  have hany (s : Loop) (l : Label) (h : Allocated s l) :
      Allocated s l ∧ WakesIn (fun _ => True) s l := ⟨h, .of_forall (fun _ => trivial) s l⟩
  obtain ⟨-, hinv, hmark⟩ := (inv_loopRule cfg env (fun _ => True) fun _ => True).exec
    inv_workerInit (hevents.mono hany) hrun
  obtain ⟨hready, hwrites⟩ := Loop.settled_exec hrun hpoll
  have hqueued : (s.worker.conns c).writeQueued = false := by
    have hiff := (hinv.write.mem_iff c).not
    have hnot : c ∉ s.worker.pendingWrites ++ [] := by
      rw [hwrites]
      exact List.not_mem_nil
    exact Bool.eq_false_iff.mpr (hiff.mp hnot)
  have hparked : Parked (s.worker.conns c) c s.worker.mid := by
    refine ⟨hinv, hc, ⟨_, rfl⟩, fun k hk => ?_⟩
    have hk' : k ∈ s.worker.ready := hk
    rw [hready] at hk'
    cases hk'
  -- the connection itself is marked, so it is none of those that are read and written
  have hother {w : Worker} {c' : ℕ} (h : Parked (s.worker.conns c) c w.mid)
      (_ : c' ∈ w.connections) (hopen : (w.conns c').closing = false) : c' ≠ c := by
    rintro rfl
    exact absurd (hopen.symm.trans (h.closing hclosing)) (by decide)
  obtain ⟨hend, -⟩ := (stuck_loopRule cfg env hclosing hunsent hqueued fun _ => True).execFrom
    hother hparked hinv hmark (hevents'.mono hany) hrun'
  exact ⟨hend.listed, hend.same⟩

/-- A PING and a DISCONNECT arrive together, and the socket takes 10 bytes of the answer. -/
def partlyAnswered : List Label := connecting 3 ++
  [.poll [.conn 0 ⟨true, false⟩], .event [.data pingThenDisconnect] [], .schedule,
    .finish fun _ => [.sent 10, .wouldBlock]]

/-- An iteration in which the socket could take the rest. -/
def writable : List Label :=
  [.poll [.conn 0 ⟨false, true⟩], .event [] [.sent 24], .schedule, .finish fun _ => [.sent 24]]

theorem closing_output_stuck_ping :
    ∃ s s', Machine.exec (Loop.step .plain fun _ => .quiet) Loop.init partlyAnswered = some s ∧
      Machine.exec (Loop.step .plain fun _ => .quiet) s writable = some s' ∧
      0 ∈ s'.worker.connections ∧
      ∃ n, s'.worker.conns 0 = { s.worker.conns 0 with pendingDeferred := n } := by
  have hrun : (Machine.exec (Loop.step .plain fun _ => .quiet) Loop.init partlyAnswered).any
      (fun s => decide (s.phase = .poll ∧ 0 ∈ s.worker.connections ∧
        (s.worker.conns 0).closing = true ∧ (s.worker.conns 0).Unsent ∧
        Machine.Meets (Loop.step .plain fun _ => .quiet) Allocated s writable ∧
        (Machine.exec (Loop.step .plain fun _ => .quiet) s writable).isSome)) = true := by
    decide +kernel
  obtain ⟨s, hs, hfacts⟩ := Machine.exists_of_any hrun
  obtain ⟨hpoll, hc, hclosing, hunsent, hevents, hsome⟩ := of_decide_eq_true hfacts
  obtain ⟨s', hs'⟩ := Option.isSome_iff_exists.mp hsome
  exact ⟨s, s', hs, hs', closing_output_stuck .plain (by decide +kernel) hs hpoll hc hclosing
    hunsent hevents hs'⟩

/-- **A WRITE event that does nothing**: 24 bytes of the answer are unsent and WRITE interest is
registered for them. The socket would take them all, but they are not offered to it, and the
connection stays. -/
theorem closing_output_not_offered :
    ∃ s s', Machine.exec (Loop.step .plain fun _ => .quiet) Loop.init partlyAnswered = some s ∧
      s.phase = .poll ∧ (s.worker.conns 0).closing = true ∧
      (s.worker.conns 0).writeBuf.length = (s.worker.conns 0).writeOff + 24 ∧
      (s.worker.conns 0).interests.write = true ∧
      Machine.exec (Loop.step .plain fun _ => .quiet) s writable = some s' ∧
      (s'.worker.conns 0).offers = (s.worker.conns 0).offers ∧
      (s'.worker.conns 0).writeBuf.length = (s'.worker.conns 0).writeOff + 24 ∧
      0 ∈ s'.worker.connections := by
  have hrun : (Machine.exec (Loop.step .plain fun _ => .quiet) Loop.init partlyAnswered).any
      (fun s => decide (s.phase = .poll ∧ (s.worker.conns 0).closing = true ∧
        (s.worker.conns 0).writeBuf.length = (s.worker.conns 0).writeOff + 24 ∧
        (s.worker.conns 0).interests.write = true) &&
        (Machine.exec (Loop.step .plain fun _ => .quiet) s writable).any fun s' =>
          decide ((s'.worker.conns 0).offers = (s.worker.conns 0).offers ∧
            (s'.worker.conns 0).writeBuf.length = (s'.worker.conns 0).writeOff + 24 ∧
            0 ∈ s'.worker.connections)) = true := by
    decide +kernel
  obtain ⟨s, hs, hfacts⟩ := Machine.exists_of_any hrun
  obtain ⟨hbefore, hafter⟩ := Bool.and_eq_true_iff.mp hfacts
  obtain ⟨hpoll, hclosing, hlen, hwrite⟩ := of_decide_eq_true hbefore
  obtain ⟨s', hs', hfacts'⟩ := Machine.exists_of_any hafter
  obtain ⟨hoffers, hlen', hc⟩ := of_decide_eq_true hfacts'
  exact ⟨s, s', hs, hpoll, hclosing, hlen, hwrite, hs', hoffers, hlen', hc⟩

end Wirecall

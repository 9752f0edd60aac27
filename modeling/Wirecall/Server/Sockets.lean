import Wirecall.Server.Actions

/-!
# The sockets of a worker

A socket that was accepted for a worker waits on its list of descriptors, is taken off it by
`worker_drain_pending`, and becomes the descriptor of a connection. It is closed in one of three
places: by `worker_add_connection` if there is no slot, by `connection_destroy` if the connection is
still attached, and by `worker_destroy` if it still waits.

That each socket is closed, and closed once, is a fact about all of them together. A connection
that is detached keeps its slot until its deferred calls are drained, and `connection_destroy` is
then called for it a second time.

## Main definitions

* `Mid.sockets`: the sockets that a worker holds
* `Mid.closes`: the sockets that an action closes
* `workerDestroy`: the end of a worker, with what it closes

## Main results

* `Mid.Acts.sockets`: **an action closes what it gives up**, and nothing else
* `workerDestroy_closes`: the end of a worker closes all that it holds, each socket once
-/

namespace Wirecall

/-! ## Held and closed -/

/-- The sockets of the connections on the list. -/
def Worker.attached (w : Worker) : Multiset Int :=
  (w.connections : Multiset ℕ).map fun c => (w.conns c).fd

/-- The sockets that a worker holds: those of its connections, those that are about to be added and
those that wait. -/
def Mid.sockets (m : Mid) : Multiset Int := m.worker.attached + m.fds + m.worker.pendingFds

/-- What `connection_destroy` closes. A connection that is detached has no socket any more. -/
def destroyCloses (w : Worker) (c : ℕ) : List Int :=
  if (w.conns c).detached then [] else [(w.conns c).fd]

/-- What `worker_add_connection` closes: the socket that it has no slot for, or that the backend
does not take. -/
def addCloses (env : ℕ → Env) (w : Worker) (fd : Int) : List Int :=
  match w.connectionArena.alloc with
  | none => [fd]
  | some (c, arena) =>
    if (env w.tick).register then [] else destroyCloses (w.added c arena fd) c

/-- What a turn of `worker_drain_completed` closes. -/
def drainCloses (cfg : ServerConfig) (env : ℕ → Env) (w : Worker) (d : ℕ) : List Int :=
  let c := (w.deferreds d).conn
  let w := settleDeferred (replyDeferred cfg (env w.tick).mem w d) d
  if (w.conns c).detached ∧ (w.conns c).pendingDeferred = 0 then destroyCloses w c else []

/-- The sockets that an action closes. -/
def Mid.closes (cfg : ServerConfig) (env : ℕ → Env) (m : Mid) : Action → List Int
  | .close c => destroyCloses m.worker c
  | .add => m.fds.head?.elim [] (addCloses env m.worker)
  | .drain => m.done.head?.elim [] (drainCloses cfg env m.worker)
  | _ => []

/-- The sockets that an action hands to the worker. -/
def Action.opens : Action → List Int
  | .accept fds => fds.map Int.ofNat
  | _ => []

/-! ## What leaves the sockets alone -/

/-- The same connections have the same sockets, and the same sockets wait. -/
structure Worker.KeepsSockets (w w' : Worker) : Prop where
  connections : w'.connections = w.connections
  fd : ∀ c ∈ w.connections, (w'.conns c).fd = (w.conns c).fd
  pendingFds : w'.pendingFds = w.pendingFds

/-- They have the same interests, too. -/
structure Worker.KeepsWatches (w w' : Worker) : Prop extends w.KeepsSockets w' where
  interests : ∀ c ∈ w.connections, (w'.conns c).interests = (w.conns c).interests

section Keeps

variable {cfg : ServerConfig} {env : ℕ → Env} {w w' w'' : Worker} {c d : ℕ}

theorem Worker.KeepsSockets.trans (h : w.KeepsSockets w') (h' : w'.KeepsSockets w'') :
    w.KeepsSockets w'' := by
  refine ⟨h'.connections.trans h.connections, fun c hc => ?_, h'.pendingFds.trans h.pendingFds⟩
  rw [h'.fd c (h.connections ▸ hc), h.fd c hc]

theorem Worker.KeepsSockets.attached (h : w.KeepsSockets w') : w'.attached = w.attached := by
  rw [Worker.attached, Worker.attached, h.connections]
  exact Multiset.map_congr rfl h.fd

theorem Worker.KeepsSockets.sockets {writes writes' done done' : List ℕ} {fds : List Int}
    (h : w.KeepsSockets w') :
    (⟨w', writes', done', fds⟩ : Mid).sockets = (⟨w, writes, done, fds⟩ : Mid).sockets := by
  simp only [Mid.sockets, h.attached, h.pendingFds]

theorem Worker.Same.keepsSockets (h : w.Same w') : w.KeepsSockets w' :=
  ⟨h.connections, fun c _ => (h.conns c).fd, h.pendingFds⟩

/-- A connection is stored that has the socket it had. -/
theorem Worker.keepsSockets_setConn {conn : Conn} (hfd : conn.fd = (w.conns c).fd) :
    w.KeepsSockets (w.setConn c conn) := by
  refine ⟨rfl, fun c' _ => ?_, rfl⟩
  by_cases hc : c' = c
  · subst hc
    rw [conns_setConn_self]
    exact hfd
  · rw [conns_setConn_of_ne _ _ _ hc]

theorem flushWrite_keepsSockets (env : ℕ → Env) (script : List SendResult) (w : Worker) (c : ℕ) :
    w.KeepsSockets (flushWrite env script w c) := by
  refine flushWrite_rule (P := fun w' => w.KeepsSockets w') (Worker.keepsSockets_setConn rfl) ?_
  exact fun w' h _ => h.trans (Worker.same_connectionWrite env w' c script).keepsSockets

/-- Something else of the worker changes. -/
theorem Worker.KeepsWatches.of_conns (hconns : w'.conns = w.conns)
    (hlist : w'.connections = w.connections) (hpending : w'.pendingFds = w.pendingFds) :
    w.KeepsWatches w' :=
  ⟨⟨hlist, fun c _ => congrArg Conn.fd (congrFun hconns c), hpending⟩,
    fun c _ => congrArg Conn.interests (congrFun hconns c)⟩

theorem Worker.KeepsWatches.refl (w : Worker) : w.KeepsWatches w := .of_conns rfl rfl rfl

theorem Worker.KeepsWatches.trans (h : w.KeepsWatches w') (h' : w'.KeepsWatches w'') :
    w.KeepsWatches w'' := by
  refine ⟨h.toKeepsSockets.trans h'.toKeepsSockets, fun c hc => ?_⟩
  rw [h'.interests c (h.connections ▸ hc), h.interests c hc]

/-- A connection is stored that has the socket and the interests it had. -/
theorem Worker.keepsWatches_setConn {conn : Conn} (hfd : conn.fd = (w.conns c).fd)
    (hinterests : conn.interests = (w.conns c).interests) : w.KeepsWatches (w.setConn c conn) := by
  refine ⟨Worker.keepsSockets_setConn hfd, fun c' _ => ?_⟩
  by_cases hc : c' = c
  · subst hc
    rw [conns_setConn_self]
    exact hinterests
  · rw [conns_setConn_of_ne _ _ _ hc]

/-- The parts of the worker that are looked at here may be named one by one. -/
theorem Worker.KeepsWatches.congr (h : w.KeepsWatches w') (hconns : w''.conns = w'.conns)
    (hlist : w''.connections = w'.connections) (hpending : w''.pendingFds = w'.pendingFds) :
    w.KeepsWatches w'' := h.trans (.of_conns hconns hlist hpending)

theorem touchRead_keepsWatches (w : Worker) (c : ℕ) (readBuf : List UInt8) (readCap : ℕ)
    (received : List UInt8) (closing : Bool) (ticks : ℕ) (failed : Bool) :
    w.KeepsWatches (w.touchRead c readBuf readCap received closing ticks failed) := by
  have hstored : w.KeepsWatches (w.setConn c { w.conns c with
      readBuf := readBuf
      readCap := readCap
      received := received
      closing := (w.conns c).closing || closing }) := Worker.keepsWatches_setConn rfl rfl
  exact hstored.congr rfl rfl rfl

theorem Queues.keepsWatches {request : Request} {op : Op} {procId callId : UInt64}
    {data : List UInt8} {result : Rc × Worker}
    (h : Queues cfg w c request op procId callId data result) : w.KeepsWatches result.2 := by
  cases h with
  | @queued front cap hfront =>
    rw [Worker.queued_eq]
    have hstored : w.KeepsWatches (w.setConn c
        { (w.conns c).appendOut (front ++ data) cap with writeQueued := true }) :=
      Worker.keepsWatches_setConn rfl rfl
    exact hstored.congr rfl rfl rfl
  | failed bytes cap =>
    have hstored : w.KeepsWatches (w.setConn c ((w.conns c).appendOut bytes cap)) :=
      Worker.keepsWatches_setConn rfl rfl
    exact hstored.congr rfl rfl rfl

theorem Attempts.keepsWatches {request : Request} {op : Op} {procId callId : UInt64}
    (h : Attempts cfg w c request op procId callId w') : w.KeepsWatches w' := by
  cases h with
  | queues hopen hqueues => exact hqueues.keepsWatches
  | refused => exact .refl w
  | failed => exact .of_conns rfl rfl rfl

theorem complete_keepsWatches (w : Worker) (d : ℕ) (completion : Completion) :
    w.KeepsWatches (complete w d completion) := by
  obtain ⟨deferreds, completed, log, heq⟩ := complete_eq w d completion
  rw [heq]
  exact .of_conns rfl rfl rfl

theorem runDeferred_keepsWatches (w : Worker) (d : ℕ) (outcome : DeferredOutcome) :
    w.KeepsWatches (runDeferred w d outcome) :=
  runDeferred_rule (P := fun w' => w.KeepsWatches w')
    (fun _ completion h => h.trans (complete_keepsWatches _ d completion)) (.refl w) outcome

theorem Churn.keepsWatches (h : Churn w w') : w.KeepsWatches w' := by
  cases h with
  | none => exact .refl w
  | deferred call halloc htick => exact .of_conns rfl rfl rfl
  | call call halloc => exact .of_conns rfl rfl rfl

/-- **Handling a packet** opens and closes no socket, and changes no interests. -/
theorem Handles.keepsWatches {e : Env} {header : Header} {payload : List UInt8} {rc : Rc}
    (h : Handles cfg e w c header payload (rc, w')) : w.KeepsWatches w' := by
  generalize hresult : (rc, w') = result at h
  have hdispatch : w.KeepsWatches (w.dispatching c header payload) := .of_conns rfl rfl rfl
  cases h with
  | replied hchurn hreply hqueues =>
    subst hresult
    exact hdispatch.trans (hchurn.keepsWatches.trans hqueues.keepsWatches)
  | notStarted halloc hreply hqueues =>
    cases hresult
    have hqueued := hqueues.keepsWatches
    exact ⟨⟨hqueued.connections, hqueued.fd, hqueued.pendingFds⟩, hqueued.interests⟩
  | disconnected hop =>
    cases hresult
    exact hdispatch.trans (Worker.keepsWatches_setConn rfl rfl)
  | @issued d arena outcome hop halloc hsucceeds =>
    cases hresult
    have hissued : w.KeepsWatches (issueDeferred ((w.dispatching c header payload).takeDeferred d
        arena (newDeferred c (w.request c) header)) c d) := by
      -- the count of the connection goes up
      have hcounted : (w.dispatching c header payload).KeepsWatches
          ((w.dispatching c header payload).setConn c { (w.dispatching c header payload).conns c with
            pendingDeferred := ((w.dispatching c header payload).conns c).pendingDeferred + 1 }) :=
        Worker.keepsWatches_setConn rfl rfl
      exact (hdispatch.trans hcounted).congr rfl rfl rfl
    exact hissued.trans (runDeferred_keepsWatches _ d outcome)
  | submitted call args hop hasync halloc hconn hrequest =>
    cases hresult
    exact hdispatch.congr rfl rfl rfl

theorem resumeCall_keepsWatches {resume : Resume} (h : resumeCall cfg env w resume = some w') :
    w.KeepsWatches w' := by
  obtain ⟨k, rest, call, -, -, rfl | ⟨op, w₁, hattempts, rfl⟩⟩ := resumeCall_cases h
  · exact .of_conns rfl rfl rfl
  · have hqueued := hattempts.keepsWatches
    exact ⟨⟨hqueued.connections, hqueued.fd, hqueued.pendingFds⟩, hqueued.interests⟩

end Keeps

/-! ## Connections come and go -/

section Connections

variable {cfg : ServerConfig} {env : ℕ → Env} {w : Worker} {m : Mid} {c d : ℕ} {fd : Int}
  {fds : List Int} {done : List ℕ}

theorem connectionDestroy_pendingFds (cfg : ServerConfig) (w : Worker) (c : ℕ) :
    (connectionDestroy cfg w c).pendingFds = w.pendingFds := by
  obtain ⟨conns, arena, connections, writes, entries, -, heq⟩ := connectionDestroy_eq cfg w c
  rw [heq]

/-- **A connection that is destroyed** gives up its socket. -/
theorem connectionDestroy_attached (hnodup : w.connections.Nodup) (hc : c ∈ w.connections)
    (hattached : (w.conns c).detached = false) :
    (connectionDestroy cfg w c).attached + destroyCloses w c = w.attached := by
  have hcloses : destroyCloses w c = [(w.conns c).fd] :=
    if_neg (by rw [hattached]; exact Bool.false_ne_true)
  -- what is left on the list is not the connection itself
  have hrest : (connectionDestroy cfg w c).attached =
      ((w.connections.erase c : List ℕ) : Multiset ℕ).map fun c => (w.conns c).fd := by
    rw [Worker.attached, connectionDestroy_connections cfg hattached]
    refine Multiset.map_congr rfl fun c' hc' => ?_
    have hne : c' ≠ c := ((hnodup.mem_erase_iff).mp hc').1
    rw [connectionDestroy_of_ne cfg w hne]
  rw [hcloses, hrest, ← Multiset.coe_erase, Multiset.map_erase_of_mem _ _ hc]
  rw [Multiset.coe_singleton, add_comm, Multiset.singleton_add]
  exact Multiset.cons_erase (Multiset.mem_map_of_mem (fun c => (w.conns c).fd) hc)

/-- **A socket is added**: it is that of a new connection, or it is closed. -/
theorem workerAddConnection_attached (h : Inv ⟨w, [], [], fd :: fds⟩) :
    (workerAddConnection cfg env w fd).attached + addCloses env w fd = w.attached + {fd} ∧
      (workerAddConnection cfg env w fd).pendingFds = w.pendingFds := by
  cases halloc : w.connectionArena.alloc with
  | none =>
    rw [workerAddConnection, addCloses, halloc]
    exact ⟨rfl, rfl⟩
  | some slot =>
    obtain ⟨c, arena⟩ := slot
    have hadded := h.added halloc
    have hself := Worker.added_self w c arena fd
    have hlist : (w.added c arena fd).connections = c :: w.connections := rfl
    -- the new slot is on the list with the socket, and the other connections are as they were
    have hattached : (w.added c arena fd).attached = w.attached + {fd} := by
      have hnot : c ∉ w.connections := (List.nodup_cons.mp (hlist ▸ hadded.conn.nodup)).1
      rw [Worker.attached, hlist, ← Multiset.cons_coe, Multiset.map_cons, hself, add_comm,
        Multiset.singleton_add]
      congr 1
      refine Multiset.map_congr rfl fun c' hc' => ?_
      have hne : c' ≠ c := by
        rintro rfl
        exact hnot hc'
      rw [Worker.added_of_ne w arena fd hne]
    have hcloses : addCloses env w fd =
        if (env w.tick).register then [] else destroyCloses (w.added c arena fd) c := by
      rw [addCloses, halloc]
    rw [workerAddConnection_eq halloc, hcloses]
    split_ifs with hregister
    · have hkeeps : (w.added c arena fd).KeepsSockets ((w.added c arena fd).setConn c
          { (w.added c arena fd).conns c with interests := ⟨true, false⟩ }) :=
        Worker.keepsSockets_setConn rfl
      rw [hkeeps.attached, hattached]
      exact ⟨add_zero _, hkeeps.pendingFds⟩
    · rw [connectionDestroy_attached hadded.conn.nodup List.mem_cons_self (by rw [hself]; rfl),
        connectionDestroy_pendingFds]
      exact ⟨hattached, rfl⟩

/-- **A call is drained**: a slot that is given back was detached, so nothing is closed for the
second time. -/
theorem drainOne_sockets (h : Inv ⟨w, [], d :: done, []⟩) :
    w.KeepsWatches (drainOne cfg env w d) ∧ drainCloses cfg env w d = [] := by
  have hdrained : ConnInv (drainOne cfg env w d) none := h.drainOne.conn
  obtain ⟨w₁, w₂, hw₁, hw₂, heq⟩ := drainOne_eq cfg env w d
  obtain ⟨op, hattempts⟩ := replyDeferred_attempts cfg (env w.tick).mem w d
  rw [hw₁] at hattempts
  have hsame : w₂.conns = (settleDeferred w₁ d).conns := by rw [← hw₂]
  have hsettle : w₁.KeepsWatches w₂ := by
    refine ⟨⟨by rw [← hw₂]; rfl, fun c _ => ?_, by rw [← hw₂]; rfl⟩, fun c _ => ?_⟩
    all_goals
      obtain ⟨n, hn, -⟩ := settleDeferred_conns w₁ d c
      rw [hsame, hn]
  have hkeeps := hattempts.keepsWatches.trans hsettle
  constructor
  · rw [heq] at hdrained ⊢
    split_ifs at hdrained ⊢ with hgone
    · refine hkeeps.trans ?_
      simp only [connectionDestroy, if_pos hgone.1] at hdrained ⊢
      split_ifs at hdrained ⊢ with hpending
      · exact .refl w₂
      · refine ⟨⟨rfl, fun c hc => ?_, rfl⟩, fun c _ => ?_⟩
        all_goals
          obtain ⟨fd, hconn, hfd⟩ := freeConnection_conns cfg w₂ (w.deferreds d).conn c
          rw [hconn]
        refine hfd ?_
        rintro rfl
        -- a slot on the list is attached, and the one that is given back is not
        have hattached := ((hdrained.mem_connections _).mp hc).2
        rw [hconn] at hattached
        exact Bool.noConfusion (hattached.symm.trans hgone.1)
    · exact hkeeps
  · rw [drainCloses, hw₁]
    simp only [← hsame]
    split_ifs with hgone
    · rw [destroyCloses, ← hsame]
      exact if_pos hgone.1
    · rfl

end Connections

/-! ## Actions -/

section Actions

variable {cfg : ServerConfig} {env : ℕ → Env} {m m' : Mid} {action : Action}

/-- **An action closes the sockets that it gives up**, and no others. -/
theorem Mid.Acts.sockets (hacts : Mid.Acts cfg env m action m') (h : Inv m) :
    m'.sockets + m.closes cfg env action = m.sockets + action.opens := by
  have hkept (hcloses : m.closes cfg env action = []) (hopens : action.opens = [])
      (hsockets : m'.sockets = m.sockets) :
      m'.sockets + m.closes cfg env action = m.sockets + action.opens := by
    rw [hcloses, hopens, hsockets]
  cases hacts with
  | @input m c readBuf readCap received closing ticks failed hc =>
    have hkeeps := touchRead_keepsWatches m.worker c readBuf readCap received closing ticks failed
    exact hkept rfl rfl hkeeps.sockets
  | @packet m c header payload hc hvalid =>
    have hhandles := handlePacket_handles cfg env (h.isOpen hc) header payload
    exact hkept rfl rfl (Handles.keepsWatches hhandles).sockets
  | @write m c script hc =>
    exact hkept rfl rfl (Worker.same_connectionWrite env m.worker c script).keepsSockets.sockets
  | @close m c hc hwrites hclosing hsent hfds =>
    have hattached := ((h.conn.mem_connections c).mp hc).2
    have hgives : (connectionDestroy cfg m.worker c).attached + destroyCloses m.worker c =
        m.worker.attached := connectionDestroy_attached h.conn.nodup hc hattached
    have hcloses : m.closes cfg env (.close c) = destroyCloses m.worker c := rfl
    rw [hcloses]
    simp only [Mid.sockets, connectionDestroy_pendingFds, Action.opens, Multiset.coe_nil, add_zero,
      ← hgives]
    abel
  | takeFds w =>
    refine hkept rfl rfl ?_
    simp only [Mid.sockets, Worker.mid, Worker.attached, Multiset.coe_nil, add_zero]
  | add w fd fds =>
    obtain ⟨hattached, hpending⟩ :
        (workerAddConnection cfg env w fd).attached + addCloses env w fd = w.attached + {fd} ∧
          (workerAddConnection cfg env w fd).pendingFds = w.pendingFds :=
      workerAddConnection_attached h
    have hcloses : (⟨w, [], [], fd :: fds⟩ : Mid).closes cfg env .add = addCloses env w fd := rfl
    rw [hcloses]
    simp only [Mid.sockets, hpending, Action.opens, Multiset.coe_nil, add_zero]
    rw [← Multiset.cons_coe, ← Multiset.singleton_add, ← add_assoc, ← hattached]
    abel
  | takeDone w => exact hkept rfl rfl rfl
  | drain w d done =>
    obtain ⟨hkeeps, hcloses⟩ :
        w.KeepsWatches (drainOne cfg env w d) ∧ drainCloses cfg env w d = [] := drainOne_sockets h
    exact hkept hcloses rfl hkeeps.sockets
  | accept w fds =>
    have hcloses : w.mid.closes cfg env (.accept fds) = [] := rfl
    have hopens : (Action.accept fds).opens = fds.map Int.ofNat := rfl
    rw [hcloses, hopens]
    simp only [Mid.sockets, Worker.mid, Worker.attached, Multiset.coe_nil, add_zero,
      ← Multiset.coe_add, add_assoc]
  | @complete w d completion hd => exact hkept rfl rfl (complete_keepsWatches w d completion).sockets
  | resume hresume => exact hkept rfl rfl (resumeCall_keepsWatches hresume).sockets
  | takeWrites w => exact hkept rfl rfl rfl
  | flush w c writes script => exact hkept rfl rfl (flushWrite_keepsSockets env script w c).sockets

end Actions

/-! ## The end of a worker -/

/-- The loop of `worker_destroy` over the connections, with what it closes. -/
def destroyConnections (cfg : ServerConfig) : List ℕ → Worker → List Int × Worker
  | [], w => ([], w)
  | c :: rest, w =>
    let r := destroyConnections cfg rest (connectionDestroy cfg w c)
    (destroyCloses w c ++ r.1, r.2)

/-- `wirecall_scheduler_destroy`. -/
def schedulerDestroy (w : Worker) : Worker := w.ready.foldl callFree { w with ready := [] }

/-- `worker_destroy`, before the arenas are given back, with what it closes. The connections go
first, then the listeners, the sockets that wait, the completed calls and the scheduler. -/
def workerDestroy (cfg : ServerConfig) (listeners : List Int) (w : Worker) : List Int × Worker :=
  let r := destroyConnections cfg w.connections w
  let w := { r.2 with pendingFds := [], completed := [] }
  (r.1 ++ listeners ++ r.2.pendingFds, schedulerDestroy (r.2.completed.foldl settleDeferred w))

section Destroy

variable {cfg : ServerConfig} {w : Worker}

/-- **Every connection on the list is destroyed**: the loop reads the next one before it destroys
one, so it meets each of them. -/
theorem destroyConnections_spec (h : Inv w.mid) :
    Inv (destroyConnections cfg w.connections w).2.mid ∧
      (destroyConnections cfg w.connections w).2.connections = [] ∧
      (destroyConnections cfg w.connections w).2.pendingFds = w.pendingFds ∧
      ((destroyConnections cfg w.connections w).1 : Multiset Int) = w.attached := by
  generalize hlist : w.connections = list
  induction list generalizing w with
  | nil =>
    refine ⟨h, hlist, rfl, ?_⟩
    rw [Worker.attached, hlist]
    rfl
  | cons c rest ih =>
    have hc : c ∈ w.connections := by
      rw [hlist]
      exact List.mem_cons_self
    have hattached : (w.conns c).detached = false := ((h.conn.mem_connections c).mp hc).2
    have hrest : (connectionDestroy cfg w c).connections = rest := by
      rw [connectionDestroy_connections cfg hattached, hlist, List.erase_cons_head]
    have hdestroy : Inv (connectionDestroy cfg w c).mid := h.destroy hc List.not_mem_nil
    obtain ⟨hinv, hempty, hpending, hcloses⟩ := ih hdestroy hrest
    refine ⟨hinv, hempty, hpending.trans (connectionDestroy_pendingFds cfg w c), ?_⟩
    have hnodup : w.connections.Nodup := h.conn.nodup
    rw [← connectionDestroy_attached hnodup hc hattached, ← hcloses, add_comm]
    exact (Multiset.coe_add _ _).symm

/-- **The end of a worker** closes the sockets that it holds and its listeners. -/
theorem workerDestroy_closes (h : Inv w.mid) (listeners : List Int) :
    ((workerDestroy cfg listeners w).1 : Multiset Int) = w.mid.sockets + listeners := by
  obtain ⟨-, -, hpending, hcloses⟩ := @destroyConnections_spec cfg w h
  have hsplit : ((workerDestroy cfg listeners w).1 : Multiset Int) =
      ((destroyConnections cfg w.connections w).1 : Multiset Int) + (listeners : Multiset Int) +
        ((destroyConnections cfg w.connections w).2.pendingFds : Multiset Int) := by
    rw [Multiset.coe_add, Multiset.coe_add]
    rfl
  rw [hsplit, hcloses, hpending]
  simp only [Mid.sockets, Worker.mid, Multiset.coe_nil, add_zero]
  abel

end Destroy

end Wirecall

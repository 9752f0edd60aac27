import Wirecall.Backend.IoUring
import Wirecall.Server.Batches
import Wirecall.Server.Sockets

/-!
# A worker and the table of its backend

A backend keeps a table: which descriptors are watched, for whom and for what. The worker changes the
table with its calls, and a poll reports on what is in it. That an event of a batch finds its
connection is a fact about both: the table must be about the connections that the worker has.

The table is an abstract backend. A backend of the source is a `Watcher` if its state stands for a
table and its calls and polls are those of the table.

## Main definitions

* `Table`, `WatchCall`, `Table.Reports`: the table, the calls, and what a poll may report
* `Watcher`: a backend whose state stands for a table
* `Mid.calls`: the calls of the backend that an action makes
* `Watching`, `WatchingStep`: a worker in its loop with its backend

## Main results

* `Watched.acts`: **every action keeps the table about the connections**
* `Watched.promised`: what a poll reports is what the worker relies on
* `Watching.inStep_of_run`: so a worker with such a backend is in order in every run
-/

namespace Wirecall

/-! ## The table -/

/-- What a pointer that is given to a backend points to; the lowest bit tells them apart. -/
inductive Pointee where
  | conn (c : ℕ)
  | listener
  deriving DecidableEq, Repr

/-- **What a backend is for**: which descriptors are watched, for whom and for what. -/
abbrev Table : Type := ℕ → Option (Pointee × Interest)

/-- A call of the worker at its backend. -/
inductive WatchCall where
  /-- `wirecall_backend_register` or `wirecall_backend_modify`, and whether it succeeds. -/
  | set (ok : Bool) (fd : Int) (interests : Interest) (owner : Pointee)
  /-- `wirecall_backend_register` for READ fails, and `connection_destroy` calls
  `wirecall_backend_remove`. -/
  | refuse (fd : Int) (owner : Pointee)
  /-- `wirecall_backend_remove`. -/
  | remove (fd : Int)
  deriving DecidableEq, Repr

def Table.call (t : Table) : WatchCall → Table
  | .set ok fd interests owner =>
    if ok = true ∧ 0 ≤ fd then Function.update t fd.toNat (some (owner, interests)) else t
  | .refuse _ _ => t
  | .remove fd => if 0 ≤ fd then Function.update t fd.toNat none else t

/-- No change of interests fails, and what is refused was not watched. -/
def Table.Allows (t : Table) : WatchCall → Prop
  | .set ok _ _ _ => ok = true
  | .refuse fd _ => 0 ≤ fd ∧ t fd.toNat = none
  | .remove _ => True

/-- An event of a descriptor, as a poll reports it. -/
structure Report where
  fd : ℕ
  owner : Pointee
  ready : Interest
  deriving DecidableEq, Repr

/-- The readiness that a poll reports for a descriptor, event by event. A wake-up is `none`. -/
def readyOf (fd : ℕ) (notes : List (Option Report)) : List Interest :=
  notes.filterMap fun note => note.bind fun r => if r.fd = fd then some r.ready else none

/-- What a poll may report: for each descriptor one event, or a pair while WRITE is watched for. -/
def Table.Reports (t : Table) (notes : List (Option Report)) : Prop :=
  ∀ r, some r ∈ notes → ∃ interests, t r.fd = some (r.owner, interests) ∧
    ((readyOf r.fd notes).length = 1 ∨ interests.write = true ∧ IsPair (readyOf r.fd notes))

/-- **A backend whose state stands for a table.** -/
structure Watcher (β : Type) where
  call : β → WatchCall → β → Prop
  poll : β → List (Option Report) → β → Prop
  /-- `wirecall_backend_wake`, and what the kernel does. -/
  move : β → β → Prop
  Holds : β → Table → Prop
  holds_call : ∀ {b b' t k}, Holds b t → t.Allows k → call b k b' → Holds b' (t.call k)
  holds_poll : ∀ {b b' t notes}, Holds b t → poll b notes b' → Holds b' t ∧ t.Reports notes
  holds_move : ∀ {b b' t}, Holds b t → move b b' → Holds b' t

/-- The table after `wirecall_server_listen`. -/
def Table.listening (listeners : List ℕ) : Table :=
  fun fd => if fd ∈ listeners then some (.listener, ⟨true, false⟩) else none

/-! ## The calls of a worker -/

/-- `connection_set_interests`. -/
def setInterestsCalls (modify : Bool) (c : ℕ) (conn : Conn) (interests : Interest) :
    List WatchCall :=
  if conn.interests = interests then [] else [.set modify conn.fd interests (.conn c)]

/-- The calls of `connection_write`, along its loop. -/
def sendCalls (modify : Bool) (c : ℕ) : List SendResult → Conn → List WatchCall
  | [], conn =>
    if conn.writeOff < conn.writeBuf.length then setInterestsCalls modify c conn ⟨true, true⟩
    else setInterestsCalls modify c conn ⟨true, false⟩
  | result :: rest, conn =>
    if conn.writeOff < conn.writeBuf.length then
      let unsent := conn.writeBuf.drop conn.writeOff
      let conn := { conn with offers := conn.offers + 1 }
      match result with
      -- the connection is closed without a call
      | .sent 0 => []
      | .sent n =>
        let taken := unsent.take n
        sendCalls modify c rest
          { conn with writeOff := conn.writeOff + taken.length, sent := conn.sent ++ taken }
      | .interrupted => sendCalls modify c rest conn
      | .wouldBlock => setInterestsCalls modify c conn ⟨true, true⟩
      | .error => []
    else setInterestsCalls modify c conn ⟨true, false⟩

/-- The calls of `connection_destroy`. -/
def destroyCalls (w : Worker) (c : ℕ) : List WatchCall :=
  if (w.conns c).detached then [] else [.remove (w.conns c).fd]

/-- The calls of `worker_add_connection`. -/
def addCalls (env : ℕ → Env) (w : Worker) (fd : Int) : List WatchCall :=
  match w.connectionArena.alloc with
  | none => []
  | some (c, _) =>
    if (env w.tick).register then [.set true fd ⟨true, false⟩ (.conn c)]
    else [.refuse fd (.conn c)]

/-- The calls of `connection_write`. -/
def writeCalls (env : ℕ → Env) (w : Worker) (c : ℕ) (script : List SendResult) : List WatchCall :=
  sendCalls (env w.tick).modify c script (w.conns c)

/-- The calls of a turn of `worker_flush_writes` before `maybe_close`. -/
def flushCalls (env : ℕ → Env) (w : Worker) (script : List SendResult) (c : ℕ) : List WatchCall :=
  let w := w.setConn c { w.conns c with writeQueued := false }
  if (w.conns c).writeOff < (w.conns c).writeBuf.length then writeCalls env w c script else []

/-- The calls of a turn of `worker_drain_completed`. -/
def drainCalls (cfg : ServerConfig) (env : ℕ → Env) (w : Worker) (d : ℕ) : List WatchCall :=
  let c := (w.deferreds d).conn
  let w := settleDeferred (replyDeferred cfg (env w.tick).mem w d) d
  if (w.conns c).detached ∧ (w.conns c).pendingDeferred = 0 then destroyCalls w c else []

/-- **The calls of the backend that an action makes.** The other actions make none. -/
def Mid.calls (cfg : ServerConfig) (env : ℕ → Env) (m : Mid) : Action → List WatchCall
  | .write c script => writeCalls env m.worker c script
  | .flush script => m.writes.head?.elim [] (flushCalls env m.worker script)
  | .close c => destroyCalls m.worker c
  | .add => m.fds.head?.elim [] (addCalls env m.worker)
  | .drain => m.done.head?.elim [] (drainCalls cfg env m.worker)
  | _ => []

/-! ## The table is about the connections -/

/-- **The table is about the connections that the worker has**, and about the listeners. -/
structure Watched (listeners : List ℕ) (t : Table) (w : Worker) : Prop where
  nonneg : ∀ c ∈ w.connections, 0 ≤ (w.conns c).fd
  conn : ∀ c ∈ w.connections, t (w.conns c).fd.toNat = some (.conn c, (w.conns c).interests)
  listener : ∀ fd ∈ listeners, t fd = some (.listener, ⟨true, false⟩)
  only : ∀ fd owner interests, t fd = some (owner, interests) →
    (fd ∈ listeners ∧ owner = .listener) ∨ ∃ c ∈ w.connections, owner = .conn c ∧ (w.conns c).fd = fd

section Watched

variable {cfg : ServerConfig} {env : ℕ → Env} {w w' : Worker} {m m' : Mid} {c : ℕ} {t : Table}
  {listeners : List ℕ} {action : Action}

theorem watched_init (listeners : List ℕ) :
    Watched listeners (.listening listeners) workerInit := by
  refine ⟨fun c hc => ?_, fun c hc => ?_, fun fd hfd => if_pos hfd,
    fun fd owner interests h => .inl ?_⟩
  · cases hc
  · cases hc
  · unfold Table.listening at h
    split_ifs at h with hfd
    cases h
    exact ⟨hfd, rfl⟩

theorem Watched.keeps (h : Watched listeners t w) (hkeeps : w.KeepsWatches w') :
    Watched listeners t w' := by
  refine ⟨fun c hc => ?_, fun c hc => ?_, h.listener, fun fd owner interests hfd => ?_⟩
  · rw [hkeeps.connections] at hc
    rw [hkeeps.fd c hc]
    exact h.nonneg c hc
  · rw [hkeeps.connections] at hc
    rw [hkeeps.fd c hc, hkeeps.interests c hc]
    exact h.conn c hc
  · refine (h.only fd owner interests hfd).imp_right ?_
    rintro ⟨c, hc, howner, heq⟩
    exact ⟨c, hkeeps.connections.symm ▸ hc, howner, (hkeeps.fd c hc).trans heq⟩

/-- No two connections have one descriptor. -/
theorem eq_of_fd_eq (hnodup : w.attached.Nodup) {c' : ℕ} (hc : c ∈ w.connections)
    (hc' : c' ∈ w.connections) (hfd : (w.conns c).fd = (w.conns c').fd) : c = c' :=
  Multiset.inj_on_of_nodup_map hnodup c hc c' hc' hfd

/-- A listener and a connection have two descriptors, as the table says who owns one. -/
theorem Watched.ne_listener (h : Watched listeners t w) (hc : c ∈ w.connections) {fd : ℕ}
    (hfd : fd ∈ listeners) : fd ≠ (w.conns c).fd.toNat := by
  rintro rfl
  have howner := (h.listener _ hfd).symm.trans (h.conn c hc)
  cases howner

/-- An entry that points to a connection is the one of this connection. -/
theorem Watched.conn_of_entry (h : Watched listeners t w) {fd : ℕ} {interests : Interest}
    (hentry : t fd = some (.conn c, interests)) :
    c ∈ w.connections ∧ (w.conns c).fd = fd ∧ interests = (w.conns c).interests := by
  rcases h.only _ _ _ hentry with ⟨-, hlistener⟩ | ⟨c', hc, howner, hfd⟩
  · cases hlistener
  · cases howner
    refine ⟨hc, hfd, ?_⟩
    have hown := h.conn c hc
    rw [hfd, Int.toNat_natCast, hentry] at hown
    cases hown
    rfl

theorem Watched.entry_of_conn (h : Watched listeners t w) {fd : ℕ} (hc : c ∈ w.connections)
    (hfd : (w.conns c).fd = fd) : t fd = some (.conn c, (w.conns c).interests) := by
  have hown := h.conn c hc
  rwa [hfd, Int.toNat_natCast] at hown

/-- An entry that points to a listener is that of a listener, for READ. -/
theorem Watched.listener_of_entry (h : Watched listeners t w) {fd : ℕ} {interests : Interest}
    (hentry : t fd = some (.listener, interests)) :
    fd ∈ listeners ∧ interests = ⟨true, false⟩ := by
  rcases h.only _ _ _ hentry with ⟨hfd, -⟩ | ⟨c, -, howner, -⟩
  · have hown := h.listener fd hfd
    rw [hentry] at hown
    cases hown
    exact ⟨hfd, rfl⟩
  · cases howner

/-- The interests of one connection change, in the table and in its slot. -/
theorem Watched.setInterests (h : Watched listeners t w) (hnodup : w.attached.Nodup)
    (hc : c ∈ w.connections) {conn : Conn} (hfd : conn.fd = (w.conns c).fd) :
    Watched listeners
      (Function.update t (w.conns c).fd.toNat (some (.conn c, conn.interests)))
      (w.setConn c conn) := by
  have hkeeps : w.KeepsSockets (w.setConn c conn) := Worker.keepsSockets_setConn hfd
  have hnat {c' : ℕ} (hc' : c' ∈ w.connections) (hne : c' ≠ c) :
      (w.conns c').fd.toNat ≠ (w.conns c).fd.toNat := by
    intro heq
    refine hne (eq_of_fd_eq hnodup hc' hc ?_)
    rw [← Int.toNat_of_nonneg (h.nonneg c' hc'), heq, Int.toNat_of_nonneg (h.nonneg c hc)]
  refine ⟨fun c' hc' => ?_, fun c' hc' => ?_, fun fd hmem => ?_,
    fun fd owner interests hentry => ?_⟩
  · rw [hkeeps.fd c' hc']
    exact h.nonneg c' hc'
  · rw [hkeeps.fd c' hc']
    by_cases hne : c' = c
    · subst hne
      rw [Function.update_self, Worker.conns_setConn_self]
    · rw [Function.update_of_ne (hnat hc' hne), Worker.conns_setConn_of_ne _ _ _ hne]
      exact h.conn c' hc'
  · rw [Function.update_of_ne (h.ne_listener hc hmem)]
    exact h.listener fd hmem
  · by_cases hsame : fd = (w.conns c).fd.toNat
    · subst hsame
      rw [Function.update_self] at hentry
      cases hentry
      refine .inr ⟨c, hc, rfl, ?_⟩
      rw [Worker.conns_setConn_self, hfd, Int.toNat_of_nonneg (h.nonneg c hc)]
    · rw [Function.update_of_ne hsame] at hentry
      refine (h.only fd owner interests hentry).imp_right ?_
      rintro ⟨c', hc', howner, heq⟩
      exact ⟨c', hc', howner, (hkeeps.fd c' hc').trans heq⟩

/-- A connection is taken off the list, and its descriptor out of the table. -/
theorem Watched.remove (h : Watched listeners t w) (hnodup : w.attached.Nodup)
    (hc : c ∈ w.connections) (hfresh : ∀ c' ∈ w'.connections, c' ∈ w.connections ∧ c' ≠ c)
    (hrest : ∀ c' ∈ w.connections, c' ≠ c → c' ∈ w'.connections)
    (hconns : ∀ c', c' ≠ c → w'.conns c' = w.conns c') :
    Watched listeners (t.call (.remove (w.conns c).fd)) w' := by
  have hcall : t.call (.remove (w.conns c).fd) =
      Function.update t (w.conns c).fd.toNat none := if_pos (h.nonneg c hc)
  rw [hcall]
  refine ⟨fun c' hc' => ?_, fun c' hc' => ?_, fun fd hmem => ?_,
    fun fd owner interests hentry => ?_⟩
  · obtain ⟨hold, hne⟩ := hfresh c' hc'
    rw [hconns c' hne]
    exact h.nonneg c' hold
  · obtain ⟨hold, hne⟩ := hfresh c' hc'
    rw [hconns c' hne, Function.update_of_ne]
    · exact h.conn c' hold
    · intro heq
      refine hne (eq_of_fd_eq hnodup hold hc ?_)
      rw [← Int.toNat_of_nonneg (h.nonneg c' hold), heq, Int.toNat_of_nonneg (h.nonneg c hc)]
  · rw [Function.update_of_ne (h.ne_listener hc hmem)]
    exact h.listener fd hmem
  · by_cases hsame : fd = (w.conns c).fd.toNat
    · subst hsame
      rw [Function.update_self] at hentry
      cases hentry
    · rw [Function.update_of_ne hsame] at hentry
      refine (h.only fd owner interests hentry).imp_right ?_
      rintro ⟨c', hc', howner, heq⟩
      have hne : c' ≠ c := by
        rintro rfl
        exact hsame (by rw [heq]; rfl)
      exact ⟨c', hrest c' hc' hne, howner, by rw [hconns c' hne]; exact heq⟩

/-! ### Writing -/

theorem setInterestsCalls_table {conn conn' : Conn} {interests : Interest} (hfd : 0 ≤ conn.fd)
    (ht : t conn.fd.toNat = some (.conn c, conn.interests))
    (hsame : conn'.interests = conn.interests) :
    (setInterestsCalls true c conn interests).foldl Table.call t =
      Function.update t conn.fd.toNat
        (some (.conn c, (Wirecall.setInterests true conn' interests).interests)) := by
  unfold setInterestsCalls Wirecall.setInterests
  rw [hsame]
  by_cases heq : conn.interests = interests
  · rw [if_pos heq, if_pos heq, hsame, ← ht, Function.update_eq_self]
    rfl
  · rw [if_neg heq, if_neg heq, if_pos rfl]
    exact if_pos ⟨rfl, hfd⟩

/-- **Writing changes the table as it changes the interests of the connection.** -/
theorem sendCalls_table (script : List SendResult) {conn : Conn} (hfd : 0 ≤ conn.fd)
    (ht : t conn.fd.toNat = some (.conn c, conn.interests)) :
    (sendCalls true c script conn).foldl Table.call t =
      Function.update t conn.fd.toNat (some (.conn c, (sendLoop true script conn).interests)) := by
  -- a connection whose interests stay as they are
  have hstays : t = Function.update t conn.fd.toNat (some (.conn c, conn.interests)) := by
    rw [← ht, Function.update_eq_self]
  induction script generalizing conn with
  | nil =>
    simp only [sendCalls, sendLoop]
    split_ifs
    · exact setInterestsCalls_table hfd ht rfl
    · exact setInterestsCalls_table hfd ht rfl
  | cons result rest ih =>
    by_cases hunsent : conn.writeOff < conn.writeBuf.length
    · simp only [sendCalls, sendLoop, if_pos hunsent]
      cases result with
      | sent n =>
        cases n with
        | zero => exact hstays
        | succ n =>
          have hrest := @ih { conn with
            offers := conn.offers + 1
            writeOff := conn.writeOff +
              ((conn.writeBuf.drop conn.writeOff).take (n + 1)).length
            sent := conn.sent ++ (conn.writeBuf.drop conn.writeOff).take (n + 1) }
          exact hrest hfd ht hstays
      | interrupted =>
        have hrest := @ih { conn with offers := conn.offers + 1 }
        exact hrest hfd ht hstays
      | wouldBlock =>
        have hrest := @setInterestsCalls_table c t { conn with offers := conn.offers + 1 }
          { conn with offers := conn.offers + 1 } ⟨true, true⟩
        exact hrest hfd ht rfl
      | error => exact hstays
    · simp only [sendCalls, sendLoop, if_neg hunsent]
      exact setInterestsCalls_table hfd ht rfl

/-- A call that succeeds. -/
theorem mem_setInterestsCalls {conn : Conn} {interests : Interest} {k : WatchCall}
    (hk : k ∈ setInterestsCalls true c conn interests) :
    ∃ fd interests owner, k = .set true fd interests owner := by
  unfold setInterestsCalls at hk
  split_ifs at hk
  · cases hk
  · rw [List.mem_singleton] at hk
    exact ⟨_, _, _, hk⟩

/-- All calls of a write succeed if the backend takes changes of interests. -/
theorem mem_sendCalls {script : List SendResult} {conn : Conn} {k : WatchCall}
    (hk : k ∈ sendCalls true c script conn) :
    ∃ fd interests owner, k = .set true fd interests owner := by
  induction script generalizing conn with
  | nil =>
    simp only [sendCalls] at hk
    split_ifs at hk
    · exact mem_setInterestsCalls hk
    · exact mem_setInterestsCalls hk
  | cons result rest ih =>
    by_cases hunsent : conn.writeOff < conn.writeBuf.length
    · simp only [sendCalls, if_pos hunsent] at hk
      cases result with
      | sent n =>
        cases n with
        | zero => cases hk
        | succ n => exact ih hk
      | interrupted => exact ih hk
      | wouldBlock => exact mem_setInterestsCalls hk
      | error => cases hk
    · simp only [sendCalls, if_neg hunsent] at hk
      exact mem_setInterestsCalls hk

/-- Every call is allowed where it is made. -/
def Table.AllowsAll (t : Table) : List WatchCall → Prop
  | [] => True
  | k :: ks => t.Allows k ∧ (t.call k).AllowsAll ks

theorem Table.allowsAll_of_mem {ks : List WatchCall}
    (h : ∀ k ∈ ks, ∃ fd interests owner, k = .set true fd interests owner) : t.AllowsAll ks := by
  induction ks generalizing t with
  | nil => trivial
  | cons k ks ih =>
    obtain ⟨fd, interests, owner, rfl⟩ := h k List.mem_cons_self
    exact ⟨rfl, ih fun k hk => h k (List.mem_cons_of_mem _ hk)⟩

/-- **A connection is written**: the table follows its interests. -/
theorem Watched.write (h : Watched listeners t w) (hnodup : w.attached.Nodup)
    (hc : c ∈ w.connections) (hmodify : ∀ t, (env t).modify = true) (script : List SendResult) :
    t.AllowsAll (writeCalls env w c script) ∧
      Watched listeners ((writeCalls env w c script).foldl Table.call t)
        (connectionWrite env w c script) := by
  have hsends := (sendLoop_sends true script (w.conns c)).same
  have hfd : (sendLoop true script (w.conns c)).fd = (w.conns c).fd := by
    rw [hsends]
    rfl
  unfold writeCalls connectionWrite
  rw [hmodify, sendCalls_table script (h.nonneg c hc) (h.conn c hc)]
  refine ⟨Table.allowsAll_of_mem fun k hk => mem_sendCalls hk, ?_⟩
  exact (h.setInterests hnodup hc hfd).keeps (.of_conns rfl rfl rfl)

/-! ### Adding -/

/-- A descriptor that is neither a listener's nor a connection's is not in the table. -/
theorem Watched.eq_none (h : Watched listeners t w) {fd : Int} (hfd : 0 ≤ fd)
    (hlisteners : fd.toNat ∉ listeners) (hattached : fd ∉ w.attached) : t fd.toNat = none := by
  cases hentry : t fd.toNat with
  | none => rfl
  | some entry =>
    obtain ⟨owner, interests⟩ := entry
    rcases h.only _ _ _ hentry with ⟨hmem, -⟩ | ⟨c, hc, -, heq⟩
    · exact absurd hmem hlisteners
    · rw [Int.toNat_of_nonneg hfd] at heq
      exact absurd (Multiset.mem_map.mpr ⟨c, hc, heq⟩) hattached

/-- **A socket is added**: it comes into the table with its connection, or with neither. -/
theorem Watched.add (h : Watched listeners t w) {fd : Int} {fds : List Int}
    (hinv : Inv ⟨w, [], [], fd :: fds⟩) (hlisteners : fd.toNat ∉ listeners)
    (hattached : fd ∉ w.attached) :
    t.AllowsAll (addCalls env w fd) ∧
      Watched listeners ((addCalls env w fd).foldl Table.call t)
        (workerAddConnection cfg env w fd) := by
  have hfd : 0 ≤ fd := hinv.fds fd (List.mem_append_right _ List.mem_cons_self)
  have hnone := h.eq_none hfd hlisteners hattached
  cases halloc : w.connectionArena.alloc with
  | none =>
    rw [workerAddConnection, addCalls, halloc]
    exact ⟨trivial, h⟩
  | some slot =>
    obtain ⟨c, arena⟩ := slot
    have hself := Worker.added_self w c arena fd
    have hnot : c ∉ w.connections := (List.nodup_cons.mp (hinv.added halloc).conn.nodup).1
    have hne {c' : ℕ} (hc' : c' ∈ w.connections) : c' ≠ c := by
      rintro rfl
      exact hnot hc'
    have hcalls : addCalls env w fd =
        if (env w.tick).register then [.set true fd ⟨true, false⟩ (.conn c)]
        else [.refuse fd (.conn c)] := by
      rw [addCalls, halloc]
    rw [workerAddConnection_eq halloc, hcalls]
    by_cases hregister : (env w.tick).register = true
    · rw [if_pos hregister, if_pos hregister]
      refine ⟨⟨rfl, trivial⟩, ?_⟩
      have hset : [WatchCall.set true fd ⟨true, false⟩ (.conn c)].foldl Table.call t =
          Function.update t fd.toNat (some (.conn c, ⟨true, false⟩)) := if_pos ⟨rfl, hfd⟩
      rw [hset]
      -- the new connection has the entry, and the others keep theirs
      refine ⟨fun c' hc' => ?_, fun c' hc' => ?_, fun fd' hmem => ?_,
        fun fd' owner interests hentry => ?_⟩
      · rcases List.mem_cons.mp hc' with rfl | hc'
        · rw [Worker.conns_setConn_self, hself]
          exact hfd
        · rw [Worker.conns_setConn_of_ne _ _ _ (hne hc'), Worker.added_of_ne w arena fd (hne hc')]
          exact h.nonneg c' hc'
      · rcases List.mem_cons.mp hc' with rfl | hc'
        · rw [Worker.conns_setConn_self, hself]
          exact Function.update_self _ _ _
        · rw [Worker.conns_setConn_of_ne _ _ _ (hne hc'), Worker.added_of_ne w arena fd (hne hc'),
            Function.update_of_ne]
          · exact h.conn c' hc'
          · intro heq
            have hold := h.conn c' hc'
            rw [heq, hnone] at hold
            cases hold
      · have hother : fd' ≠ fd.toNat := by
          rintro rfl
          exact hlisteners hmem
        rw [Function.update_of_ne hother]
        exact h.listener fd' hmem
      · by_cases hsame : fd' = fd.toNat
        · subst hsame
          rw [Function.update_self] at hentry
          cases hentry
          refine .inr ⟨c, List.mem_cons_self, rfl, ?_⟩
          rw [Worker.conns_setConn_self, hself, Int.toNat_of_nonneg hfd]
        · rw [Function.update_of_ne hsame] at hentry
          refine (h.only fd' owner interests hentry).imp_right ?_
          rintro ⟨c', hc', howner, heq⟩
          refine ⟨c', List.mem_cons_of_mem _ hc', howner, ?_⟩
          rw [Worker.conns_setConn_of_ne _ _ _ (hne hc'), Worker.added_of_ne w arena fd (hne hc')]
          exact heq
    · rw [if_neg hregister, if_neg hregister]
      -- the backend refused it: it was put on the list and is taken off again
      have hdetached : ((w.added c arena fd).conns c).detached = false := by
        rw [hself]
        rfl
      refine ⟨⟨⟨hfd, hnone⟩, trivial⟩, ?_⟩
      refine h.keeps ⟨⟨?_, fun c' hc' => ?_, ?_⟩, fun c' hc' => ?_⟩
      · exact (connectionDestroy_connections cfg hdetached).trans (List.erase_cons_head _ _)
      · rw [connectionDestroy_of_ne cfg _ (hne hc'), Worker.added_of_ne w arena fd (hne hc')]
      · exact connectionDestroy_pendingFds cfg _ c
      · rw [connectionDestroy_of_ne cfg _ (hne hc'), Worker.added_of_ne w arena fd (hne hc')]

/-! ### Actions -/

theorem Watched.flush (h : Watched listeners t w) (hnodup : w.attached.Nodup)
    (hc : c ∈ w.connections) (hmodify : ∀ t, (env t).modify = true) (script : List SendResult) :
    t.AllowsAll (flushCalls env w script c) ∧
      Watched listeners ((flushCalls env w script c).foldl Table.call t)
        (flushWrite env script w c) := by
  have hkeeps : w.KeepsWatches (w.setConn c { w.conns c with writeQueued := false }) :=
    Worker.keepsWatches_setConn rfl rfl
  unfold flushCalls flushWrite
  simp only
  split_ifs
  · refine (h.keeps hkeeps).write ?_ hc hmodify script
    rwa [hkeeps.attached]
  · exact ⟨trivial, h.keeps hkeeps⟩

/-- Where a connection is given back to the arena for the second time, it is not in the table. -/
theorem drainCalls_eq_nil (cfg : ServerConfig) (env : ℕ → Env) (w : Worker) (d : ℕ) :
    drainCalls cfg env w d = [] := by
  unfold drainCalls
  simp only
  split_ifs with hgone
  · rw [destroyCalls, if_pos hgone.1]
  · rfl

/-- **Every action keeps the table about the connections**, as long as changes of interests succeed
and no two sockets have one descriptor. -/
theorem Watched.acts (h : Watched listeners t m.worker) (hmodify : ∀ t, (env t).modify = true)
    (hinv : Inv m) (hnodup : (m.sockets + (listeners.map Int.ofNat : List Int)).Nodup)
    (hacts : Mid.Acts cfg env m action m') :
    t.AllowsAll (m.calls cfg env action) ∧
      Watched listeners ((m.calls cfg env action).foldl Table.call t) m'.worker := by
  have hattached : m.worker.attached.Nodup := by
    refine Multiset.nodup_of_le ?_ hnodup
    rw [Mid.sockets, add_assoc, add_assoc]
    exact Multiset.le_add_right _ _
  cases hacts with
  | input readBuf readCap received closing ticks failed hc =>
    exact ⟨trivial, h.keeps (touchRead_keepsWatches _ _ readBuf readCap received closing ticks failed)⟩
  | @packet m c header payload hc hvalid =>
    have hhandles := handlePacket_handles cfg env (hinv.isOpen hc) header payload
    exact ⟨trivial, h.keeps (Handles.keepsWatches hhandles)⟩
  | write script hc => exact h.write hattached hc hmodify script
  | @close m c hc hwrites hclosing hsent hfds =>
    have hopen := ((hinv.conn.mem_connections c).mp hc).2
    have hcalls : m.calls cfg env (.close c) = [.remove (m.worker.conns c).fd] := by
      show destroyCalls m.worker c = _
      rw [destroyCalls, hopen]
      rfl
    rw [hcalls]
    refine ⟨⟨trivial, trivial⟩, h.remove hattached hc (fun c' hc' => ?_) (fun c' hc' hne => ?_) ?_⟩
    · rw [connectionDestroy_connections cfg hopen] at hc'
      exact ((hinv.conn.nodup.mem_erase_iff).mp hc').symm
    · rw [connectionDestroy_connections cfg hopen]
      exact (List.mem_erase_of_ne hne).mpr hc'
    · exact fun c' hne => connectionDestroy_of_ne cfg m.worker hne
  | takeFds w => exact ⟨trivial, h.nonneg, h.conn, h.listener, h.only⟩
  | add w fd fds =>
    -- the socket that is added is among those that the worker holds
    have hsplit : (⟨w, [], [], fd :: fds⟩ : Mid).sockets + (listeners.map Int.ofNat : List Int) =
        fd ::ₘ (w.attached + fds + w.pendingFds + (listeners.map Int.ofNat : List Int)) := by
      simp only [Mid.sockets, ← Multiset.cons_coe, Multiset.add_cons, Multiset.cons_add]
    rw [hsplit, Multiset.nodup_cons] at hnodup
    have hnew := hnodup.1
    simp only [Multiset.mem_add, Multiset.mem_coe, not_or] at hnew
    refine h.add hinv (fun hmem => hnew.2 (List.mem_map.mpr ⟨_, hmem, ?_⟩)) hnew.1.1.1
    exact Int.toNat_of_nonneg (hinv.fds fd (List.mem_append_right _ List.mem_cons_self))
  | takeDone w => exact ⟨trivial, h.keeps (.of_conns rfl rfl rfl)⟩
  | drain w d done =>
    have hcalls : (⟨w, [], d :: done, []⟩ : Mid).calls cfg env .drain = [] :=
      drainCalls_eq_nil cfg env w d
    rw [hcalls]
    exact ⟨trivial, h.keeps (drainOne_sockets hinv).1⟩
  | accept w fds => exact ⟨trivial, h.nonneg, h.conn, h.listener, h.only⟩
  | complete completion hd => exact ⟨trivial, h.keeps (complete_keepsWatches _ _ completion)⟩
  | resume hresume => exact ⟨trivial, h.keeps (resumeCall_keepsWatches hresume)⟩
  | takeWrites w => exact ⟨trivial, h.keeps (.of_conns rfl rfl rfl)⟩
  | flush w c writes script =>
    have hqueued : (w.conns c).writeQueued = true :=
      (hinv.write.mem_iff c).mp (List.mem_append_right _ List.mem_cons_self)
    exact h.flush hattached (hinv.write.attached c hqueued) hmodify script

end Watched

/-! ## Events -/

/-- An event of a poll in the loop of `worker_run`. A listener hands over the sockets that it
accepts. -/
inductive Delivers : Option Report → Event → Prop
  | wake : Delivers none .wake
  | listener (fd : ℕ) (ready : Interest) (fds : List ℕ) :
      Delivers (some ⟨fd, .listener, ready⟩) (.listener fds)
  | conn (fd c : ℕ) (ready : Interest) : Delivers (some ⟨fd, .conn c, ready⟩) (.conn c ready)

section Events

variable {w : Worker} {c fd : ℕ} {t : Table} {listeners : List ℕ} {notes : List (Option Report)}
  {batch : List Event}

/-- The events of a connection are those of its descriptor. -/
theorem eventsOf_eq_readyOf (hbatch : List.Forall₂ Delivers notes batch)
    (howner : ∀ r, some r ∈ notes → (r.owner = .conn c ↔ r.fd = fd)) :
    eventsOf c batch = readyOf fd notes := by
  induction hbatch with
  | nil => rfl
  | @cons note event notes batch hdelivers hbatch ih =>
    have hrest := ih fun r hr => howner r (List.mem_cons_of_mem _ hr)
    unfold eventsOf readyOf at hrest ⊢
    rw [List.filterMap_cons, List.filterMap_cons, hrest]
    cases hdelivers with
    | wake => rfl
    | listener fd' ready fds =>
      have hother : fd' ≠ fd := by
        intro heq
        cases (howner _ List.mem_cons_self).mpr heq
      simp only [Option.bind_some, if_neg hother]
    | conn fd' c' ready =>
      have hiff := howner _ List.mem_cons_self
      simp only [Pointee.conn.injEq] at hiff
      simp only [Option.bind_some]
      by_cases hc : c' = c
      · rw [if_pos hc, if_pos (hiff.mp hc)]
      · rw [if_neg hc, if_neg fun heq => hc (hiff.mpr heq)]

/-- **What a poll reports is what the worker relies on.** -/
theorem Watched.promised (h : Watched listeners t w) (hreports : t.Reports notes)
    (hbatch : List.Forall₂ Delivers notes batch) : Promised w batch := by
  -- who owns a descriptor in the table
  have howns {r : Report} {c : ℕ} (hr : some r ∈ notes) (howner : r.owner = .conn c) :
      c ∈ w.connections ∧ (w.conns c).fd = r.fd := by
    obtain ⟨interests, hentry, -⟩ := hreports r hr
    rw [howner] at hentry
    obtain ⟨hc, hfd, -⟩ := h.conn_of_entry hentry
    exact ⟨hc, hfd⟩
  intro event hevent
  cases event with
  | wake => trivial
  | listener fds => trivial
  | conn c ready =>
    obtain ⟨fd, hnote⟩ : ∃ fd, some ⟨fd, .conn c, ready⟩ ∈ notes := by
      clear hreports howns
      induction hbatch with
      | nil => cases hevent
      | cons hdelivers hbatch ih =>
        rcases List.mem_cons.mp hevent with rfl | hlater
        · cases hdelivers with
          | conn fd c ready => exact ⟨fd, List.mem_cons_self⟩
        · obtain ⟨fd, hfd⟩ := ih hlater
          exact ⟨fd, List.mem_cons_of_mem _ hfd⟩
    obtain ⟨hc, hfd⟩ := howns hnote rfl
    obtain ⟨interests, hentry, hcount⟩ := hreports _ hnote
    have hinterests : interests = (w.conns c).interests := (h.conn_of_entry hentry).2.2
    have hevents : eventsOf c batch = readyOf fd notes := by
      refine eventsOf_eq_readyOf hbatch fun r hr => ⟨fun howner => ?_, fun heq => ?_⟩
      · exact Int.ofNat_inj.mp ((howns hr howner).2.symm.trans hfd)
      · obtain ⟨interests', hentry', -⟩ := hreports r hr
        rw [heq, hentry] at hentry'
        exact (Prod.mk.inj (Option.some.inj hentry')).1.symm
    rw [hinterests] at hcount
    rw [← hevents] at hcount
    exact ⟨hc, hcount⟩

end Events

/-! ## The worker with its backend -/

/-- A worker in its loop, with its backend. -/
structure Watching (β : Type) where
  loop : Loop
  backend : β

section Runs

variable {β : Type}

/-- The calls are made one after the other. -/
def Watcher.Makes (W : Watcher β) : β → List WatchCall → β → Prop
  | b, [], b' => b' = b
  | b, k :: ks, b' => ∃ b₁, W.call b k b₁ ∧ W.Makes b₁ ks b'

/-- The sockets that an action hands to the worker are new ones. -/
def Mid.Fresh (listeners : List ℕ) (m : Mid) (action : Action) : Prop :=
  (m.sockets + action.opens + (listeners.map Int.ofNat : List Int)).Nodup

instance (listeners : List ℕ) (m : Mid) (action : Action) : Decidable (m.Fresh listeners action) :=
  inferInstanceAs (Decidable (Multiset.Nodup _))

/-- A run of actions, with the calls that they make. -/
inductive Performs (cfg : ServerConfig) (env : ℕ → Env) (W : Watcher β) (listeners : List ℕ)
    (m : Mid) (b : β) : Mid → β → Prop
  | refl : Performs cfg env W listeners m b m b
  | act {m' m'' : Mid} {b' b'' : β} {action : Action}
      (hbefore : Performs cfg env W listeners m b m' b') (hacts : Mid.Acts cfg env m' action m'')
      (hfresh : m'.Fresh listeners action) (hmakes : W.Makes b' (m'.calls cfg env action) b'') :
      Performs cfg env W listeners m b m'' b''

/-- A label other than the poll. -/
def Label.NotPoll : Label → Prop
  | .poll _ => False
  | _ => True

/-- **A step of the worker with its backend**: a poll reports a batch, a step of the loop makes its
calls, or something happens at the backend. -/
inductive WatchingStep (cfg : ServerConfig) (env : ℕ → Env) (W : Watcher β) (listeners : List ℕ) :
    Watching β → Watching β → Prop
  | poll {w : Worker} {b b' : β} {notes : List (Option Report)} {batch : List Event}
      (hpoll : W.poll b notes b') (hbatch : List.Forall₂ Delivers notes batch) :
      WatchingStep cfg env W listeners ⟨⟨w, .poll⟩, b⟩ ⟨⟨w, .events batch⟩, b'⟩
  | work {s s' : Loop} {b b' : β} {l : Label} (hl : l.NotPoll) (hstep : s.step cfg env l = some s')
      (hperforms : Performs cfg env W listeners s.worker.mid b s'.worker.mid b') :
      WatchingStep cfg env W listeners ⟨s, b⟩ ⟨s', b'⟩
  | move {s : Loop} {b b' : β} (hmove : W.move b b') :
      WatchingStep cfg env W listeners ⟨s, b⟩ ⟨s, b'⟩

variable {cfg : ServerConfig} {env : ℕ → Env} {W : Watcher β} {listeners : List ℕ} {m m' : Mid}
  {b b' : β} {t : Table} {s s' : Watching β}

theorem Watcher.Makes.holds {ks : List WatchCall} (hmakes : W.Makes b ks b') (h : W.Holds b t)
    (hallows : t.AllowsAll ks) : W.Holds b' (ks.foldl Table.call t) := by
  induction ks generalizing b t with
  | nil =>
    cases hmakes
    exact h
  | cons k ks ih =>
    obtain ⟨b₁, hcall, hrest⟩ := hmakes
    exact ih hrest (W.holds_call h hallows.1 hcall) hallows.2

variable (W) (listeners) in
/-- The backend stands for a table that is about the connections of the worker. -/
structure Matches (m : Mid) (b : β) (t : Table) : Prop where
  inv : Inv m
  nodup : (m.sockets + (listeners.map Int.ofNat : List Int)).Nodup
  holds : W.Holds b t
  watched : Watched listeners t m.worker

/-- **The worker and its backend go together**, action by action. -/
theorem Performs.matches (hperforms : Performs cfg env W listeners m b m' b')
    (hmodify : ∀ t, (env t).modify = true) (h : ∃ t, Matches W listeners m b t) :
    ∃ t, Matches W listeners m' b' t := by
  induction hperforms with
  | refl => exact h
  | @act m' m'' b' b'' action hbefore hacts hfresh hmakes ih =>
    obtain ⟨t, ht⟩ := ih
    obtain ⟨hallows, hwatched⟩ := ht.watched.acts hmodify ht.inv ht.nodup hacts
    refine ⟨_, hacts.inv ht.inv, ?_, hmakes.holds ht.holds hallows, hwatched⟩
    -- what is held now was held before, or is new
    refine Multiset.nodup_of_le ?_ hfresh
    rw [← hacts.sockets ht.inv, add_right_comm]
    exact Multiset.le_add_right _ _

variable (W) (listeners) in
/-- What holds of a worker with its backend in every run. -/
structure Watching.InStep (s : Watching β) : Prop where
  inOrder : InOrder s.loop
  table : ∃ t, Matches W listeners s.loop.worker.mid s.backend t

theorem Watching.InStep.step (h : s.InStep W listeners) (hmodify : ∀ t, (env t).modify = true)
    (hstep : WatchingStep cfg env W listeners s s') : s'.InStep W listeners := by
  cases hstep with
  | @poll w b b' notes batch hpoll hbatch =>
    obtain ⟨t, ht⟩ := h.table
    obtain ⟨hholds, hreports⟩ := W.holds_poll ht.holds hpoll
    have hpromised : Promised w batch := ht.watched.promised hreports hbatch
    refine ⟨?_, t, ht.inv, ht.nodup, hholds, ht.watched⟩
    have hloop : Loop.step cfg env ⟨w, .poll⟩ (.poll batch) = some ⟨w, .events batch⟩ := rfl
    have hkeeps : KeepsPromise ⟨w, .poll⟩ (.poll batch) := hpromised
    exact h.inOrder.step hmodify hkeeps hloop
  | @work s s' b b' l hl hloop hperforms =>
    have hpromise : KeepsPromise s l := by
      cases l with
      | poll batch => exact absurd hl id
      | _ => trivial
    exact ⟨h.inOrder.step hmodify hpromise hloop, hperforms.matches hmodify h.table⟩
  | @move s b b' hmove =>
    obtain ⟨t, ht⟩ := h.table
    exact ⟨h.inOrder, t, ht.inv, ht.nodup, W.holds_move ht.holds hmove, ht.watched⟩

/-- **In step from the start**, with a backend that stands for the table of the listeners. -/
theorem Watching.inStep_init (hlisteners : listeners.Nodup) (hb : W.Holds b (.listening listeners)) :
    Watching.InStep W listeners ⟨Loop.init, b⟩ := by
  have hinit : InOrder Loop.init :=
    ⟨inv_workerInit, (fun c hc => by cases hc), (fun batch hphase => by cases hphase)⟩
  refine ⟨hinit, _, inv_workerInit, ?_, hb, watched_init listeners⟩
  have hnone : Loop.init.worker.mid.sockets = 0 := rfl
  rw [hnone, zero_add]
  exact Multiset.coe_nodup.mpr (hlisteners.map Int.ofNat_injective)

theorem Watching.inStep_of_run (hmodify : ∀ t, (env t).modify = true) (hlisteners : listeners.Nodup)
    (hb : W.Holds b (.listening listeners))
    (hrun : Relation.ReflTransGen (WatchingStep cfg env W listeners) ⟨Loop.init, b⟩ s) :
    s.InStep W listeners := by
  induction hrun with
  | refl => exact Watching.inStep_init hlisteners hb
  | tail _ hstep ih => exact ih.step hmodify hstep

end Runs

end Wirecall

import Wirecall.Server.Ledger

/-!
# Replies and their connections

A call keeps the slot of its connection and not the connection. A deferred call is counted on the
slot, which is not given back before the call is drained. A call of the scheduler is not counted:
its connection can be closed and given back by a later event of the batch, and a wake-up can hand
the slot to an accepted socket before the scheduler runs. The reply is then sent to a stranger.

A worker is safe from this as long as a wake-up finds, among the slots it is about to hand out, no
slot of a call that is queued. The free list is handed out from its front, so these are the first
ones on it, as many as sockets wait.

## Main definitions

* `OwnReplies`: every reply on record was queued on the connection of its request
* `Worker.Spares`: a wake-up hands out no slot of a queued call
* `Apart`: replies, deferred calls and queued calls are with their connections

## Main results

* `separated_loopRule`: every action of the loop keeps them there
* `replies_stay_on_connection`: so does every run whose wake-ups spare the queued calls
* `reply_to_stranger`: a run in which a reply crosses over
-/

namespace Wirecall

/-- Every reply on record was queued on the connection of its request. -/
def OwnReplies (log : List Entry) : Prop :=
  ∀ target request op procId callId, .reply target request op procId callId ∈ log →
    target = request.inst

theorem OwnReplies.append {log entries : List Entry} (h : OwnReplies log)
    (h' : OwnReplies entries) : OwnReplies (log ++ entries) := by
  intro target request op procId callId hreply
  rcases List.mem_append.mp hreply with hold | hnew
  · exact h target request op procId callId hold
  · exact h' target request op procId callId hnew

theorem OwnReplies.single {entry : Entry}
    (h : ∀ target request op procId callId, entry = .reply target request op procId callId →
      target = request.inst) : OwnReplies [entry] := by
  intro target request op procId callId hreply
  exact h target request op procId callId (List.mem_singleton.mp hreply).symm

/-- What an action leaves of the queued calls: none is new, every slot keeps its connection, and a
reply that is queued goes where it belongs. -/
structure Worker.Holds (w w' : Worker) : Prop where
  log : ∃ entries, w'.log = w.log ++ entries ∧ OwnReplies entries
  calls : ∀ k ∈ w'.ready, ∀ call, w'.calls k = some call → k ∈ w.ready ∧ w.calls k = some call
  inst : ∀ c, (w'.conns c).inst = (w.conns c).inst

section Holds

variable {cfg : ServerConfig} {w w' w'' : Worker} {c d : ℕ}

theorem Worker.Holds.of_eq (hlog : w'.log = w.log) (hready : w'.ready = w.ready)
    (hcalls : w'.calls = w.calls) (hinst : ∀ c, (w'.conns c).inst = (w.conns c).inst) :
    w.Holds w' := by
  refine ⟨⟨[], by rw [hlog, List.append_nil], fun _ _ _ _ _ h => by cases h⟩, ?_, hinst⟩
  intro k hk call hcall
  exact ⟨hready ▸ hk, hcalls ▸ hcall⟩

theorem Worker.Holds.refl (w : Worker) : w.Holds w := .of_eq rfl rfl rfl fun _ => rfl

theorem Worker.Holds.trans (h : w.Holds w') (h' : w'.Holds w'') : w.Holds w'' := by
  obtain ⟨entries, hlog, hown⟩ := h.log
  obtain ⟨entries', hlog', hown'⟩ := h'.log
  refine ⟨⟨entries ++ entries', ?_, hown.append hown'⟩, ?_, fun c => (h'.inst c).trans (h.inst c)⟩
  · rw [hlog', hlog, List.append_assoc]
  · intro k hk call hcall
    obtain ⟨hk', hcall'⟩ := h'.calls k hk call hcall
    exact h.calls k hk' call hcall'

theorem Worker.inst_setConn {conn : Conn} (h : conn.inst = (w.conns c).inst) (c' : ℕ) :
    ((w.setConn c conn).conns c').inst = (w.conns c').inst := by
  by_cases hc : c' = c
  · subst hc
    rwa [conns_setConn_self]
  · rw [conns_setConn_of_ne _ _ _ hc]

theorem Worker.Holds.setConn {conn : Conn} (h : conn.inst = (w.conns c).inst) :
    w.Holds (w.setConn c conn) := .of_eq rfl rfl rfl (inst_setConn h)

/-- An entry that is no reply. -/
theorem Worker.Holds.logEntry {entry : Entry}
    (h : ∀ target request op procId callId, entry ≠ .reply target request op procId callId) :
    w.Holds (w.logEntry entry) := by
  refine ⟨⟨[entry], rfl, .single ?_⟩, fun k hk call hcall => ⟨hk, hcall⟩, fun _ => rfl⟩
  exact fun _ _ _ _ _ heq => absurd heq (h _ _ _ _ _)

/-- A slot of the call arena that was given back holds no call. -/
theorem callFree_calls {k t : ℕ} {call : Call} (h : (callFree w k).calls t = some call) :
    t ≠ k ∧ w.calls t = some call := by
  have hcall : Function.update w.calls k none t = some call := h
  have hne : t ≠ k := by
    rintro rfl
    rw [Function.update_self] at hcall
    cases hcall
  rw [Function.update_of_ne hne] at hcall
  exact ⟨hne, hcall⟩

theorem Worker.Holds.free (w : Worker) (k : ℕ) : w.Holds (callFree w k) := by
  refine ⟨⟨[], (List.append_nil _).symm, fun _ _ _ _ _ h => by cases h⟩, ?_, fun _ => rfl⟩
  exact fun t ht call hcall => ⟨ht, (callFree_calls hcall).2⟩

/-- A call that is taken and given back leaves the queue as it was. -/
theorem Worker.Holds.takeCall (k : ℕ) (arena : Arena) (call : Call)
    (h : (w.takeCall k arena call).Holds w') : w.Holds (callFree w' k) := by
  obtain ⟨entries, hlog, hown⟩ := h.log
  refine ⟨⟨entries, hlog, hown⟩, fun t ht called hcalled => ?_, h.inst⟩
  obtain ⟨hne, hcalled'⟩ := callFree_calls hcalled
  obtain ⟨hready, htaken⟩ := h.calls t ht called hcalled'
  refine ⟨hready, ?_⟩
  simpa only [Worker.takeCall, Function.update_of_ne hne] using htaken

/-- A packet is queued on the connection of its request. -/
theorem Queues.holds {request : Request} {op : Op} {procId callId : UInt64} {data : List UInt8}
    {result : Rc × Worker} (h : Queues cfg w c request op procId callId data result)
    (hown : (w.conns c).inst = request.inst) : w.Holds result.2 := by
  cases h with
  | failed bytes cap =>
    exact .of_eq rfl rfl rfl (Worker.inst_setConn rfl)
  | @queued front cap hfront =>
    rw [Worker.queued_eq]
    refine ⟨⟨_, rfl, .single ?_⟩, fun k hk call hcall => ⟨hk, hcall⟩, Worker.inst_setConn rfl⟩
    rintro target request' op' procId' callId' heq
    cases heq
    exact hown

theorem Attempts.holds {request : Request} {op : Op} {procId callId : UInt64}
    (h : Attempts cfg w c request op procId callId w')
    (hown : (w.conns c).inst = request.inst) : w.Holds w' := by
  cases h with
  | queues hopen hqueues => exact hqueues.holds hown
  | refused => exact .refl w
  | failed => exact .of_eq rfl rfl rfl fun _ => rfl

theorem complete_holds (w : Worker) (d : ℕ) (completion : Completion) :
    w.Holds (complete w d completion) := by
  have hlog : w.Holds
      (w.logEntry (.completion (w.deferreds d).request completion.isOk)) :=
    .logEntry fun _ _ _ _ _ h => by cases h
  cases hdone : (w.deferreds d).completed with
  | true =>
    rw [complete_of_completed hdone]
    exact hlog
  | false =>
    obtain ⟨response, result, error, -, heq⟩ := complete_of_open hdone completion
    rw [heq]
    exact hlog.trans (.of_eq rfl rfl rfl fun _ => rfl)

theorem connectionDestroy_holds (cfg : ServerConfig) (w : Worker) (c : ℕ) :
    w.Holds (connectionDestroy cfg w c) := by
  have hdetach : w.Holds (if (w.conns c).detached = true then w else detachConnection w c) := by
    split_ifs
    · exact .refl w
    · exact .of_eq rfl rfl rfl fun c' => (detachConnection_fields w c c').1
  unfold connectionDestroy
  simp only
  generalize (if (w.conns c).detached = true then w else detachConnection w c) = w₁ at hdetach ⊢
  split_ifs
  · exact hdetach
  · refine hdetach.trans ⟨⟨_, rfl, .single fun _ _ _ _ _ h => by cases h⟩,
      fun k hk call hcall => ⟨hk, hcall⟩, fun c' => (freeConnection_fields cfg w₁ c c').2.1⟩

/-- A drained call is answered on the connection it came from: its slot still holds it. -/
theorem drainOne_holds (cfg : ServerConfig) (env : ℕ → Env) {done : List ℕ}
    (hinv : Inv ⟨w, [], d :: done, []⟩) : w.Holds (drainOne cfg env w d) := by
  have hd : d ∈ w.undrained :=
    ((hinv.defer.mem_done d).mp (List.mem_append_right _ List.mem_cons_self)).1
  obtain ⟨w₁, w₂, hw₁, hw₂, heq⟩ := drainOne_eq cfg env w d
  obtain ⟨op, hattempts⟩ := replyDeferred_attempts cfg (env w.tick).mem w d
  rw [hw₁] at hattempts
  have hreplied : w.Holds w₁ := hattempts.holds (hinv.defer.inst_eq d hd)
  have hsettled : w.Holds w₂ := by
    refine hreplied.trans (hw₂ ▸ .of_eq rfl rfl rfl fun c => ?_)
    obtain ⟨n, hn, -⟩ := settleDeferred_conns w₁ d c
    exact (congrArg Conn.inst hn).trans rfl
  rw [heq]
  split_ifs
  · exact hsettled.trans (connectionDestroy_holds _ _ _)
  · exact hsettled

end Holds

/-- A worker whose replies, and the calls that are yet to be answered, are with their connections.
The slots that are about to be handed out are of no queued call. -/
structure Separated (m : Mid) : Prop where
  inv : Inv m
  replies : OwnReplies m.worker.log
  calls : ∀ k ∈ m.worker.ready, ∀ call, m.worker.calls k = some call →
    (m.worker.conns call.conn).inst = call.request.inst ∧
      call.conn ∉ m.worker.connectionArena.freeList.take m.fds.length

/-- A wake-up hands out no slot of a queued call. -/
def Worker.Spares (w : Worker) : Prop :=
  ∀ k ∈ w.ready, ∀ call ∈ w.calls k,
    call.conn ∉ w.connectionArena.freeList.take w.pendingFds.length

instance (w : Worker) : Decidable w.Spares :=
  inferInstanceAs (Decidable (∀ k ∈ w.ready, ∀ call ∈ w.calls k,
    call.conn ∉ w.connectionArena.freeList.take w.pendingFds.length))

section Separated

variable {cfg : ServerConfig} {env : ℕ → Env} {m m' : Mid} {w w' : Worker} {c : ℕ}

/-- An action that hands out no slot. -/
theorem Separated.next (h : Separated m) (hinv : Inv m') (hholds : m.worker.Holds m'.worker)
    (hfds : m'.fds = [] ∨
      m'.fds = m.fds ∧ m'.worker.connectionArena = m.worker.connectionArena) : Separated m' := by
  refine ⟨hinv, ?_, ?_⟩
  · obtain ⟨entries, hlog, hown⟩ := hholds.log
    rw [hlog]
    exact h.replies.append hown
  · intro k hk call hcall
    obtain ⟨hk', hcall'⟩ := hholds.calls k hk call hcall
    obtain ⟨hinst, hspared⟩ := h.calls k hk' call hcall'
    refine ⟨(hholds.inst _).trans hinst, ?_⟩
    rcases hfds with hnil | ⟨hsame, harena⟩
    · rw [hnil]
      exact List.not_mem_nil
    · rw [hsame, harena]
      exact hspared

/-- **Handling a packet** answers it on its own connection, or submits a call for its slot. -/
theorem Handles.holds_or_submitted {e : Env} {header : Header} {payload : List UInt8} {rc : Rc}
    (h : Handles cfg e w c header payload (rc, w')) :
    w.Holds w' ∨ ∃ k arena call call', w.callArena.alloc = some (k, arena) ∧ call'.conn = c ∧
      call'.request = w.request c ∧
      w' = ((w.dispatching c header payload).takeCall k arena call).startCall k call' := by
  have hdispatching : w.Holds (w.dispatching c header payload) := by
    refine ⟨⟨_, rfl, .single ?_⟩, fun k hk call hcall => ⟨hk, hcall⟩, fun _ => rfl⟩
    exact fun _ _ _ _ _ heq => by cases heq
  generalize hresult : (rc, w') = result at h
  cases h with
  | @replied w₁ _ _ _ _ _ hchurn hreply hqueues =>
    subst hresult
    have hown : (w₁.conns c).inst = (w.request c).inst := by
      rw [hchurn.conns]
      rfl
    have hholds : (w.dispatching c header payload).Holds w₁ := by
      cases hchurn with
      | none => exact .refl _
      | deferred call halloc => exact .of_eq rfl rfl rfl fun _ => rfl
      | @call k arena call halloc => exact .takeCall _ _ _ (.refl _)
    exact .inl (hdispatching.trans (hholds.trans (hqueues.holds hown)))
  | @notStarted k arena call op procId callId data result halloc hreply hqueues =>
    cases hresult
    have hown : (((w.dispatching c header payload).takeCall k arena call).conns c).inst =
        (w.request c).inst := rfl
    exact .inl (hdispatching.trans (.takeCall _ _ _ (hqueues.holds hown)))
  | disconnected hop =>
    cases hresult
    exact .inl (hdispatching.trans (.setConn rfl))
  | issued outcome hop halloc hsucceeds =>
    cases hresult
    refine .inl (runDeferred_rule (P := fun w' => w.Holds w') ?_ ?_ outcome)
    · exact fun w' completion hw' => hw'.trans (complete_holds w' _ completion)
    · exact hdispatching.trans (.of_eq rfl rfl rfl (Worker.inst_setConn rfl))
  | submitted call args hop hasync halloc hconn hrequest =>
    cases hresult
    exact .inr ⟨_, _, call, { call with args := args }, halloc, hconn, hrequest, rfl⟩

theorem Separated.handle {e : Env} {header : Header} {payload : List UInt8} {rc : Rc}
    (h : Separated m) (hc : c ∈ m.worker.connections) (hinv : Inv { m with worker := w' })
    (hhandles : Handles cfg e m.worker c header payload (rc, w')) :
    Separated { m with worker := w' } := by
  rcases hhandles.holds_or_submitted with hholds | ⟨k, arena, call, call', halloc, hconn, hreq, rfl⟩
  · exact h.next hinv hholds (.inr ⟨rfl, hhandles.marks.1⟩)
  · obtain ⟨-, -, hnew⟩ := h.inv.call.take call halloc
    refine ⟨hinv, h.replies.append (.single fun _ _ _ _ _ heq => by cases heq), ?_⟩
    intro t ht called hcalled
    rcases List.mem_append.mp ht with hold | hself
    · have hne : t ≠ k := fun htk => hnew (htk ▸ hold)
      simp only [Worker.startCall, Worker.takeCall, Function.update_of_ne hne] at hcalled
      exact h.calls t hold called hcalled
    · -- the call that is submitted: its slot is in use and holds the connection of the packet
      rw [List.mem_singleton.mp hself] at hcalled
      obtain rfl : call' = called := by
        simpa only [Worker.startCall, Function.update_self, Option.some.injEq] using hcalled
      rw [hconn, hreq]
      refine ⟨rfl, fun hfree => ?_⟩
      exact ((h.inv.conn.mem_connections c).mp hc).1.2 (List.mem_of_mem_take hfree)

/-- **A slot is handed out**: it is of no queued call, and so are those that come next. -/
theorem Separated.add {fd : Int} {fds : List Int} (h : Separated ⟨w, [], [], fd :: fds⟩) :
    Separated ⟨workerAddConnection cfg env w fd, [], [], fds⟩ := by
  have hinv : Inv ⟨workerAddConnection cfg env w fd, [], [], fds⟩ := h.inv.add
  have hcalls := h.calls
  simp only [List.length_cons] at hcalls
  cases halloc : w.connectionArena.alloc with
  | none =>
    have heq : workerAddConnection cfg env w fd = w := by rw [workerAddConnection, halloc]
    rw [heq] at hinv ⊢
    refine ⟨hinv, h.replies, fun k hk call hcall => ?_⟩
    obtain ⟨hinst, hspared⟩ := hcalls k hk call hcall
    exact ⟨hinst, fun hfree => hspared (List.take_subset_take_left _ (Nat.le_succ _) hfree)⟩
  | some slot =>
    obtain ⟨c, arena⟩ := slot
    -- the slot is the first of the free list, or lies beyond every slot of a call
    have hslot : ∀ k ∈ w.ready, ∀ call, w.calls k = some call →
        call.conn ≠ c ∧ call.conn ∉ (c :: arena.freeList).take fds.length ∧
          call.conn ∉ arena.freeList.take fds.length := by
      intro k hk call hcall
      obtain ⟨-, hspared⟩ := hcalls k hk call hcall
      rcases Arena.alloc_eq_some halloc with ⟨rest, hlist, rfl⟩ | ⟨hlist, rfl, -, rfl⟩
      · rw [hlist, List.take_succ_cons, List.mem_cons, not_or] at hspared
        refine ⟨hspared.1, fun hfree => ?_, hspared.2⟩
        have := List.take_subset_take_left (c :: rest) (Nat.le_succ fds.length) hfree
        rw [List.take_succ_cons, List.mem_cons] at this
        exact this.elim hspared.1 hspared.2
      · obtain ⟨call', hcall', hlt⟩ := h.inv.call.call k hk
        obtain rfl := Option.some.inj (hcall.symm.trans hcall')
        have hne : call.conn ≠ w.connectionArena.watermark := Nat.ne_of_lt hlt
        refine ⟨hne, fun hfree => ?_, by simp [hlist]⟩
        have := List.mem_of_mem_take hfree
        rw [hlist, List.mem_singleton] at this
        exact hne this
    have heq : workerAddConnection cfg env w fd = _ := workerAddConnection_eq halloc
    split_ifs at heq
    · rw [heq] at hinv ⊢
      refine ⟨hinv, h.replies, fun k hk call hcall => ?_⟩
      obtain ⟨hne, -, hspared⟩ := hslot k hk call hcall
      rw [Worker.conns_setConn_of_ne _ _ _ hne, Worker.added_of_ne _ _ _ hne]
      exact ⟨(hcalls k hk call hcall).1, hspared⟩
    · -- the backend refused the socket: its slot is back at the front of the free list
      rw [connectionDestroy_added] at heq
      rw [heq] at hinv ⊢
      refine ⟨hinv, ?_, fun k hk call hcall => ?_⟩
      · exact h.replies.append (.single fun _ _ _ _ _ heq => by cases heq)
      · obtain ⟨hne, hspared, -⟩ := hslot k hk call hcall
        rw [(freeConnection_fields cfg _ c call.conn).2.1, detachConnection_of_ne _ hne,
          Worker.added_of_ne _ _ _ hne]
        exact ⟨(hcalls k hk call hcall).1, hspared⟩

/-- **A call is resumed**: if it is answered, its slot holds the connection it came from. -/
theorem Separated.resume {resume : Resume} (h : Separated w.mid)
    (hresume : resumeCall cfg env w resume = some w') : Separated w'.mid := by
  have hinv := h.inv.resume hresume
  obtain ⟨k, rest, call, hready, hcall, hend⟩ := resumeCall_cases hresume
  have hk : k ∈ w.ready := by
    rw [hready]
    exact List.mem_cons_self
  have hown : (w.conns call.conn).inst = call.request.inst := (h.calls k hk call hcall).1
  -- whatever is left of the queue, its calls are among those that were ready
  have hqueue (ready : List ℕ) (hsub : ∀ t ∈ ready, t ∈ w.ready) :
      w.Holds { w with ready := ready, tick := w.tick + 1 } := by
    refine ⟨⟨[], (List.append_nil _).symm, fun _ _ _ _ _ h => by cases h⟩, ?_, fun _ => rfl⟩
    exact fun t ht called hcalled => ⟨hsub t ht, hcalled⟩
  refine h.next hinv ?_ (.inl rfl)
  rcases hend with rfl | ⟨op, w₁, hattempts, rfl⟩
  · refine hqueue _ fun t ht => ?_
    rcases List.mem_append.mp ht with hrest | hself
    · rw [hready]
      exact List.mem_cons_of_mem _ hrest
    · rwa [List.mem_singleton.mp hself]
  · have hrest := hqueue rest fun t ht => by
      rw [hready]
      exact List.mem_cons_of_mem _ ht
    exact hrest.trans ((hattempts.holds hown).trans (.free w₁ k))

/-- **Every action of the loop keeps replies and calls with their connections**, as long as
wake-ups spare the queued calls. -/
theorem separated_loopRule (cfg : ServerConfig) (env : ℕ → Env) (T : ℕ → Prop) :
    LoopRule cfg env T (fun _ => True) Worker.Spares Separated := by
  have hinv := inv_loopRule cfg env T Worker.Spares
  exact
    { isOpen := fun h hc => hinv.isOpen h.inv hc
      touch := fun readBuf readCap received closing ticks failed h hT hc => by
        refine h.next (hinv.touch _ _ _ _ _ _ h.inv hT hc) ?_ (.inr ⟨rfl, rfl⟩)
        exact .of_eq rfl rfl rfl (Worker.inst_setConn rfl)
      handle := fun h hT hc hvalid hhandles =>
        h.handle hc (hinv.handle h.inv hT hc hvalid hhandles) hhandles
      write := fun {m c} script h hT hc => by
        refine h.next (hinv.write script h.inv hT hc) ?_ (.inr ⟨rfl, rfl⟩)
        refine .of_eq rfl rfl rfl (Worker.inst_setConn ?_)
        rw [(sendLoop_sends _ script _).same]
        rfl
      close := fun h hU hc hwrites hclosing hsent hfds =>
        h.next (hinv.close h.inv hU hc hwrites hclosing hsent hfds) (connectionDestroy_holds _ _ _)
          (.inl hfds)
      takeFds := fun {w} h hK => by
        refine ⟨hinv.takeFds h.inv hK, h.replies, fun k hk call hcall => ?_⟩
        exact ⟨(h.calls k hk call hcall).1, hK k hk call hcall⟩
      add := fun h => h.add
      takeDone := fun h =>
        h.next (hinv.takeDone h.inv) (.of_eq rfl rfl rfl fun _ => rfl) (.inl rfl)
      drain := fun h => h.next (hinv.drain h.inv) (drainOne_holds cfg env h.inv) (.inl rfl)
      accept := fun fds h =>
        h.next (hinv.accept fds h.inv) (.of_eq rfl rfl rfl fun _ => rfl) (.inl rfl)
      closes := fun _ => trivial
      complete := fun completion h hd =>
        h.next (hinv.complete completion h.inv hd) (complete_holds _ _ completion) (.inl rfl)
      resume := fun h hresume => h.resume hresume
      takeWrites := fun h =>
        h.next (hinv.takeWrites h.inv) (.of_eq rfl rfl rfl fun _ => rfl) (.inl rfl)
      queued := fun h => hinv.queued h.inv
      flush := fun {w c writes} script h => by
        refine h.next (hinv.flush script h.inv) ?_ (.inl rfl)
        refine flushWrite_rule (P := fun w' => w.Holds w') (.setConn rfl) fun w' hw' _ => ?_
        refine hw'.trans (.of_eq rfl rfl rfl (Worker.inst_setConn ?_))
        rw [(sendLoop_sends _ script _).same]
        rfl }

end Separated

/-! ## Runs -/

/-- **Replies and calls are with their connections**: every reply was queued on the connection of
its request, and the slot of every call that is yet to be answered holds, or was last held by, the
connection the call came from. -/
structure Apart (w : Worker) : Prop where
  replies : ∀ {target request op procId callId}, .reply target request op procId callId ∈ w.log →
    target = request.inst
  deferred : ∀ d ∈ w.undrained,
    (w.conns (w.deferreds d).conn).inst = (w.deferreds d).request.inst
  scheduled : ∀ k ∈ w.ready, ∀ call, w.calls k = some call →
    (w.conns call.conn).inst = call.request.inst

/-- What a run has to spare: its events are for allocated slots, and its wake-ups hand out no slot
of a queued call. -/
def Spared (s : Loop) (l : Label) : Prop := Allocated s l ∧ WakesIn Worker.Spares s l

instance (s : Loop) : DecidablePred (Spared s) := fun _ => inferInstanceAs (Decidable (_ ∧ _))

/-- **Replies stay on their connection** in every run whose events are for allocated slots and
whose wake-ups hand out no slot of a queued call. -/
theorem replies_stay_on_connection (cfg : ServerConfig) {env : ℕ → Env} {labels : List Label}
    {s : Loop} (hspared : Machine.Meets (Loop.step cfg env) Spared Loop.init labels)
    (hrun : Machine.exec (Loop.step cfg env) Loop.init labels = some s) : Apart s.worker := by
  have hinit : Separated workerInit.mid :=
    ⟨inv_workerInit, (fun _ _ _ _ _ h => by cases h), fun k hk => by cases hk⟩
  obtain ⟨hseparated, -⟩ := (separated_loopRule cfg env fun _ => True).exec hinit hspared hrun
  exact ⟨fun hreply => hseparated.replies _ _ _ _ _ hreply, hseparated.inv.defer.inst_eq,
    fun k hk call hcall => (hseparated.calls k hk call hcall).1⟩

/-- A server with one procedure, which is async and returns `0`. -/
def asyncEnv : Env :=
  .plenty (fun id => if id = 1 then some ⟨1, some 0, none, 0, none, true, false⟩ else none)
    (fun _ _ _ => ⟨0, ⟨[], Nat.zero_le _⟩⟩) fun _ _ _ => ⟨-1, []⟩

/-- A coroutine that returns `0` without a payload. -/
def returnsZero : Resume := .returns ⟨0, ⟨[], Nat.zero_le _⟩⟩

/-- A call whose connection stays open until it is answered, while another socket is added. -/
theorem replies_stay_with_wake :
    let labels := connecting 3 ++
      [.accept 4, .poll [.conn 0 ⟨true, false⟩, .wake], .event [.data (callBytes 7)] [],
        .event [] [], .schedule, .resume returnsZero]
    ∃ s, Machine.exec (Loop.step .plain fun _ => asyncEnv) Loop.init labels = some s ∧
      repliesOf 0 s.worker.log = [7] ∧ s.worker.connections = [1, 0] ∧ Apart s.worker := by
  intro labels
  have hrun : (Machine.exec (Loop.step .plain fun _ => asyncEnv) Loop.init labels).map
      (fun s => (repliesOf 0 s.worker.log, s.worker.connections)) = some ([7], [1, 0]) := by
    decide +kernel
  obtain ⟨s, hs, hcolumns⟩ := Option.map_eq_some_iff.mp hrun
  obtain ⟨hreplies, hlist⟩ : repliesOf 0 s.worker.log = [7] ∧ s.worker.connections = [1, 0] := by
    simpa using hcolumns
  exact ⟨s, hs, hreplies, hlist, replies_stay_on_connection .plain (by decide +kernel) hs⟩

/-- **A reply to a stranger**: the peer of the first connection calls an async procedure and closes
its end. The connection is destroyed while the call is queued, the wake-up in the same batch gives
the slot to the socket that waits, and the reply is queued on the new connection. -/
theorem reply_to_stranger :
    let labels := connecting 3 ++
      [.accept 4, .poll [.conn 0 ⟨true, false⟩, .wake],
        .event [.data (callBytes 7), .data []] [], .event [] [], .schedule, .resume returnsZero]
    Machine.Meets (Loop.step .plain fun _ => asyncEnv) Allocated Loop.init labels ∧
      ∃ s request, Machine.exec (Loop.step .plain fun _ => asyncEnv) Loop.init labels = some s ∧
        .reply 1 request .response 1 7 ∈ s.worker.log ∧ request.inst = 0 ∧
        s.worker.connections = [0] ∧ (s.worker.conns 0).inst = 1 := by
  intro labels
  refine ⟨by decide +kernel, ?_⟩
  have hrun : (Machine.exec (Loop.step .plain fun _ => asyncEnv) Loop.init labels).map
      (fun s => (decide (.reply 1 ⟨0, 2⟩ .response 1 7 ∈ s.worker.log), s.worker.connections,
        (s.worker.conns 0).inst)) = some (true, [0], 1) := by decide +kernel
  obtain ⟨s, hs, hcolumns⟩ := Option.map_eq_some_iff.mp hrun
  simp only [Prod.mk.injEq, decide_eq_true_eq] at hcolumns
  exact ⟨s, ⟨0, 2⟩, hs, hcolumns.1, rfl, hcolumns.2⟩

end Wirecall

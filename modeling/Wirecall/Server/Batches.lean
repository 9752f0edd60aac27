import Wirecall.Machine.Run
import Wirecall.Server.Framing
import Wirecall.Server.Lifecycle

/-!
# Batches of events

A batch of events names connections by their slots, and the first of two events for a connection
may close it. What the backend promises about a batch (at most one event for a connection, or a
READ event and a WRITE event while WRITE interest is registered) is enough for every event to find
its connection on the list: WRITE interest is registered only while output is unsent, the first
event of such a pair does not close a connection with unsent output, and the events in between
only add to it.

## Main definitions

* `Worker.Grows`: connections stay, and output is only added
* `Interested`: WRITE interest is registered only for unsent output
* `Promised`: what a batch may hold of a connection
* `Lifecycle`: the lists, counts and slots of a worker agree

## Main results

* `interested_loopRule`: every action keeps the interests in step with the output
* `frame_eventRule`: what an event leaves alone
* `connection_lifecycle`: in every run whose batches keep the promise the worker is in order
-/

namespace Wirecall

/-! ## Output is only added -/

/-- A connection whose output was only added to. -/
structure Conn.Grows (conn conn' : Conn) : Prop where
  interests : conn'.interests = conn.interests
  unsent : conn.Unsent → conn'.Unsent

theorem Conn.Grows.refl (conn : Conn) : conn.Grows conn := ⟨rfl, id⟩

theorem Conn.Grows.trans {conn conn' conn'' : Conn} (h : conn.Grows conn')
    (h' : conn'.Grows conn'') : conn.Grows conn'' :=
  ⟨h'.interests.trans h.interests, fun hunsent => h'.unsent (h.unsent hunsent)⟩

theorem Conn.grows_appendOut (conn : Conn) (bytes : List UInt8) (cap : ℕ) (queued : Bool) :
    conn.Grows { conn.appendOut bytes cap with writeQueued := queued } := by
  refine ⟨rfl, fun hunsent => ?_⟩
  have hlen : (conn.writeBuf ++ bytes).length = conn.writeBuf.length + bytes.length :=
    List.length_append
  simp only [Conn.Unsent, Conn.appendOut] at hunsent ⊢
  omega

/-- The connections on the list stay there and their output is only added to. A connection that
is new has no WRITE interest. -/
structure Worker.Grows (w w' : Worker) : Prop where
  old : ∀ c ∈ w.connections, c ∈ w'.connections ∧ (w.conns c).Grows (w'.conns c)
  new : ∀ c ∈ w'.connections, c ∈ w.connections ∨ (w'.conns c).interests.write = false

section Grows

variable {cfg : ServerConfig} {w w' w'' : Worker} {c d : ℕ}

theorem Worker.Grows.of_conns (hlist : w'.connections = w.connections)
    (hconns : ∀ c, (w.conns c).Grows (w'.conns c)) : w.Grows w' :=
  ⟨fun c hc => ⟨hlist ▸ hc, hconns c⟩, fun _ hc => .inl (hlist ▸ hc)⟩

theorem Worker.Grows.refl (w : Worker) : w.Grows w := .of_conns rfl fun _ => .refl _

theorem Worker.Grows.trans (h : w.Grows w') (h' : w'.Grows w'') : w.Grows w'' where
  old c hc := by
    obtain ⟨hc', hgrows⟩ := h.old c hc
    obtain ⟨hc'', hgrows'⟩ := h'.old c hc'
    exact ⟨hc'', hgrows.trans hgrows'⟩
  new c hc := by
    rcases h'.new c hc with hc' | hwrite
    · rcases h.new c hc' with hc'' | hwrite
      · exact .inl hc''
      · exact .inr (by rw [(h'.old c hc').2.interests, hwrite])
    · exact .inr hwrite

theorem Worker.grows_setConn {conn : Conn} (h : (w.conns c).Grows conn) (c' : ℕ) :
    (w.conns c').Grows ((w.setConn c conn).conns c') := by
  by_cases hc : c' = c
  · subst hc
    rwa [conns_setConn_self]
  · rw [conns_setConn_of_ne _ _ _ hc]
    exact .refl _

theorem Queues.grows {request : Request} {op : Op} {procId callId : UInt64} {data : List UInt8}
    {result : Rc × Worker} (h : Queues cfg w c request op procId callId data result) :
    ∀ c', (w.conns c').Grows (result.2.conns c') := by
  cases h with
  | queued hfront =>
    rw [Worker.queued_eq]
    exact Worker.grows_setConn (Conn.grows_appendOut _ _ _ _)
  | failed bytes cap => exact Worker.grows_setConn (Conn.grows_appendOut _ _ _ _)

theorem Attempts.grows {request : Request} {op : Op} {procId callId : UInt64}
    (h : Attempts cfg w c request op procId callId w') : w.Grows w' := by
  cases h with
  | queues hopen hqueues => exact .of_conns hqueues.connections hqueues.grows
  | refused => exact .refl w
  | failed => exact .of_conns rfl fun _ => .refl _

/-- Handling a packet only adds to the output. -/
theorem Handles.grows {env : Env} {header : Header} {payload : List UInt8} {rc : Rc}
    (h : Handles cfg env w c header payload (rc, w')) : w.Grows w' := by
  refine .of_conns h.connections ?_
  generalize hresult : (rc, w') = result at h
  cases h with
  | replied hchurn hreply hqueues =>
    subst hresult
    have := hqueues.grows
    rwa [hchurn.conns] at this
  | notStarted halloc hreply hqueues =>
    cases hresult
    exact hqueues.grows
  | disconnected hop =>
    cases hresult
    exact Worker.grows_setConn ⟨rfl, id⟩
  | issued outcome hop halloc hsucceeds =>
    cases hresult
    rw [(runDeferred_frame _ _ outcome 0).1]
    exact Worker.grows_setConn ⟨rfl, id⟩
  | submitted call args hop hasync halloc hconn hrequest =>
    cases hresult
    exact fun _ => .refl _

theorem complete_frame (w : Worker) (d : ℕ) (completion : Completion) :
    (complete w d completion).conns = w.conns ∧
      (complete w d completion).connections = w.connections := by
  obtain ⟨deferreds, completed, log, heq⟩ := complete_eq w d completion
  rw [heq]
  exact ⟨rfl, rfl⟩

theorem complete_grows (w : Worker) (d : ℕ) (completion : Completion) :
    w.Grows (complete w d completion) := by
  obtain ⟨hconns, hlist⟩ := complete_frame w d completion
  exact .of_conns hlist fun c => hconns ▸ .refl _

/-- The end of a connection leaves the others alone. -/
theorem connectionDestroy_of_ne (cfg : ServerConfig) (w : Worker) {c c' : ℕ} (hc : c' ≠ c) :
    (connectionDestroy cfg w c).conns c' = w.conns c' := by
  have hdetach : (if (w.conns c).detached = true then w else detachConnection w c).conns c' =
      w.conns c' := by
    split_ifs
    · rfl
    · exact detachConnection_of_ne w hc
  unfold connectionDestroy
  simp only
  generalize (if (w.conns c).detached = true then w else detachConnection w c) = w₁ at hdetach ⊢
  split_ifs
  · exact hdetach
  · obtain ⟨fd, hconn, hfd⟩ := freeConnection_conns cfg w₁ c c'
    rw [hconn, hfd hc]
    exact hdetach

theorem connectionDestroy_connections (cfg : ServerConfig) {w : Worker} {c : ℕ}
    (hattached : (w.conns c).detached = false) :
    (connectionDestroy cfg w c).connections = w.connections.erase c := by
  rw [connectionDestroy_of_attached hattached]
  split_ifs <;> rfl

/-- A new connection leaves the others alone. -/
theorem workerAddConnection_grows {env : ℕ → Env} {fd : Int} {fds : List Int}
    (h : Inv ⟨w, [], [], fd :: fds⟩) : w.Grows (workerAddConnection cfg env w fd) := by
  cases halloc : w.connectionArena.alloc with
  | none =>
    rw [workerAddConnection, halloc]
    exact .refl w
  | some slot =>
    obtain ⟨c, arena⟩ := slot
    have hdead := (Arena.live_alloc h.conn.arena halloc).1
    have hne : ∀ c' ∈ w.connections, c' ≠ c := by
      rintro c' hc' rfl
      exact hdead ((h.conn.mem_connections c').mp hc').1
    rw [workerAddConnection_eq halloc]
    split_ifs with hregister
    · refine ⟨?_, ?_⟩
      · intro c' hc'
        refine ⟨List.mem_cons_of_mem _ hc', ?_⟩
        rw [Worker.conns_setConn_of_ne _ _ _ (hne c' hc'), Worker.added_of_ne _ _ _ (hne c' hc')]
        exact .refl _
      · intro c' hc'
        rcases List.mem_cons.mp hc' with rfl | hc'
        · rw [Worker.conns_setConn_self]
          exact .inr rfl
        · exact .inl hc'
    · -- the backend refused it: it was put on the list and is taken off again
      have hattached : ((w.added c arena fd).conns c).detached = false := by
        rw [Worker.added_self]
        rfl
      have hlist : (connectionDestroy cfg (w.added c arena fd) c).connections = w.connections :=
        (connectionDestroy_connections cfg hattached).trans (List.erase_cons_head _ _)
      refine ⟨fun c' hc' => ⟨hlist ▸ hc', ?_⟩, fun c' hc' => .inl (hlist ▸ hc')⟩
      rw [connectionDestroy_of_ne _ _ (hne c' hc'), Worker.added_of_ne _ _ _ (hne c' hc')]
      exact .refl _

/-- Draining a call only adds to the output of connections on the list. -/
theorem drainOne_grows (cfg : ServerConfig) (env : ℕ → Env) (w : Worker) (d : ℕ) :
    w.Grows (drainOne cfg env w d) := by
  obtain ⟨w₁, w₂, hw₁, hw₂, heq⟩ := drainOne_eq cfg env w d
  obtain ⟨op, hattempts⟩ := replyDeferred_attempts cfg (env w.tick).mem w d
  rw [hw₁] at hattempts
  have hlist : w₂.connections = w₁.connections := by rw [← hw₂]; rfl
  have hsettle (c : ℕ) : (w₁.conns c).Grows (w₂.conns c) := by
    obtain ⟨n, hn, -⟩ := settleDeferred_conns w₁ d c
    rw [← hw₂]
    exact hn ▸ ⟨rfl, id⟩
  refine hattempts.grows.trans ((Worker.Grows.of_conns hlist hsettle).trans ?_)
  rw [heq]
  split_ifs with hgone
  · -- only a slot that is detached already is given back
    simp only [connectionDestroy, if_pos hgone.1]
    split_ifs
    · exact .refl w₂
    · refine ⟨fun c hc => ⟨hc, ?_⟩, fun c hc => .inl hc⟩
      obtain ⟨fd, hconn, -⟩ := freeConnection_conns cfg w₂ (w.deferreds d).conn c
      rw [hconn]
      exact ⟨rfl, id⟩
  · exact .refl w₂

theorem resumeCall_grows {env : ℕ → Env} {resume : Resume}
    (h : resumeCall cfg env w resume = some w') : w.Grows w' := by
  obtain ⟨k, rest, call, -, -, rfl | ⟨op, w₁, hattempts, rfl⟩⟩ := resumeCall_cases h
  · exact .of_conns rfl fun _ => .refl _
  · have hgrows := hattempts.grows
    exact ⟨hgrows.old, hgrows.new⟩

end Grows

/-! ## Interests -/

/-- WRITE interest is registered only while output is unsent. -/
def Interested (w : Worker) : Prop :=
  ∀ c ∈ w.connections, (w.conns c).interests.write = true → (w.conns c).Unsent

section Interests

variable {cfg : ServerConfig} {env : ℕ → Env} {w w' : Worker} {c : ℕ}

theorem Interested.grows (h : Interested w) (hgrows : w.Grows w') : Interested w' := by
  intro c hc hwrite
  rcases hgrows.new c hc with hold | hnone
  · obtain ⟨-, hconn⟩ := hgrows.old c hold
    rw [hconn.interests] at hwrite
    exact hconn.unsent (h c hold hwrite)
  · rw [hnone] at hwrite
    cases hwrite

/-- A write leaves WRITE interest only for what it could not send. -/
theorem Interested.write (h : Interested w) (hmodify : (env w.tick).modify = true) (c : ℕ)
    (script : List SendResult) : Interested (connectionWrite env w c script) := by
  intro c' hc' hwrite
  have hsends := sendLoop_sends (env w.tick).modify script (w.conns c)
  by_cases hcc : c' = c
  · subst hcc
    have hself : (connectionWrite env w c' script).conns c' =
        sendLoop (env w.tick).modify script (w.conns c') := Worker.conns_setConn_self _ _ _
    rw [hself] at hwrite ⊢
    exact hsends.interest hmodify hwrite
  · have hother : (connectionWrite env w c script).conns c' = w.conns c' :=
      Worker.conns_setConn_of_ne _ _ _ hcc
    rw [hother] at hwrite ⊢
    exact h c' hc' hwrite

theorem Interested.destroy (h : Interested w) (hattached : (w.conns c).detached = false)
    (hnodup : w.connections.Nodup) : Interested (connectionDestroy cfg w c) := by
  intro c' hc'
  rw [connectionDestroy_connections cfg hattached] at hc'
  obtain ⟨hne, hmem⟩ := hnodup.mem_erase_iff.mp hc'
  rw [connectionDestroy_of_ne cfg w hne]
  exact h c' hmem

/-- **Every action keeps the interests in step with the output**, as long as the backend takes
their changes. -/
theorem interested_loopRule (cfg : ServerConfig) (hmodify : ∀ t, (env t).modify = true)
    (T : ℕ → Prop) (K : Worker → Prop) :
    LoopRule cfg env T (fun _ => True) K fun m => Inv m ∧ Interested m.worker := by
  have hinv := inv_loopRule cfg env T K
  exact
    { isOpen := fun h hc => hinv.isOpen h.1 hc
      touch := fun _ _ _ _ _ _ h hT hc => ⟨hinv.touch _ _ _ _ _ _ h.1 hT hc,
        h.2.grows (.of_conns rfl (Worker.grows_setConn ⟨rfl, id⟩))⟩
      handle := fun h hT hc hvalid hhandles =>
        ⟨hinv.handle h.1 hT hc hvalid hhandles, h.2.grows hhandles.grows⟩
      write := fun script h hT hc =>
        ⟨hinv.write script h.1 hT hc, h.2.write (hmodify _) _ script⟩
      close := fun h hU hc hwrites hclosing hsent hfds =>
        ⟨hinv.close h.1 hU hc hwrites hclosing hsent hfds,
          h.2.destroy (h.1.isOpen hc).1 h.1.conn.nodup⟩
      takeFds := fun h hK => ⟨hinv.takeFds h.1 hK, h.2⟩
      add := fun h => ⟨hinv.add h.1, h.2.grows (workerAddConnection_grows h.1)⟩
      takeDone := fun h => ⟨hinv.takeDone h.1, h.2⟩
      drain := fun h => ⟨hinv.drain h.1, h.2.grows (drainOne_grows _ _ _ _)⟩
      accept := fun fds h => ⟨hinv.accept fds h.1, h.2⟩
      closes := fun _ => trivial
      complete := fun completion h hd =>
        ⟨hinv.complete completion h.1 hd, h.2.grows (complete_grows _ _ _)⟩
      resume := fun h hresume => ⟨hinv.resume h.1 hresume, h.2.grows (resumeCall_grows hresume)⟩
      takeWrites := fun h => ⟨hinv.takeWrites h.1, h.2⟩
      queued := fun h => hinv.queued h.1
      flush := fun {w c writes} script h => by
        refine ⟨hinv.flush script h.1, ?_⟩
        have hunqueued : Interested (w.setConn c { w.conns c with writeQueued := false }) :=
          h.2.grows (.of_conns rfl (Worker.grows_setConn ⟨rfl, id⟩))
        exact flushWrite_rule hunqueued fun w' hw' _ => hw'.write (hmodify _) c script }

end Interests

/-! ## What an event leaves alone -/

/-- The connections of `w`, those of `E` apart, stay on the list and their output is only added
to. -/
def Worker.Frame (E : ℕ → Prop) (w w' : Worker) : Prop :=
  ∀ c ∈ w.connections, ¬ E c → c ∈ w'.connections ∧ (w.conns c).Grows (w'.conns c)

section Frame

variable {cfg : ServerConfig} {env : ℕ → Env} {E : ℕ → Prop} {w w' w'' : Worker} {c : ℕ}

theorem Worker.Frame.grows (h : w.Frame E w') (hgrows : w'.Grows w'') : w.Frame E w'' := by
  intro c hc hE
  obtain ⟨hc', hconn⟩ := h c hc hE
  obtain ⟨hc'', hconn'⟩ := hgrows.old c hc'
  exact ⟨hc'', hconn.trans hconn'⟩

/-- **What an event leaves alone**: all connections but those it is for. -/
theorem frame_eventRule (cfg : ServerConfig) (env : ℕ → Env) (E : ℕ → Prop) (K : Worker → Prop)
    (w : Worker) : EventRule cfg env E E K fun m => Inv m ∧ w.Frame E m.worker := by
  have hinv := inv_loopRule cfg env E K
  exact
    { isOpen := fun h hc => hinv.isOpen h.1 hc
      touch := fun _ _ _ _ _ _ h hT hc => ⟨hinv.touch _ _ _ _ _ _ h.1 hT hc,
        h.2.grows (.of_conns rfl (Worker.grows_setConn ⟨rfl, id⟩))⟩
      handle := fun h hT hc hvalid hhandles =>
        ⟨hinv.handle h.1 hT hc hvalid hhandles, h.2.grows hhandles.grows⟩
      write := fun {m c} script h hT hc => by
        refine ⟨hinv.write script h.1 hT hc, fun c' hc' hE => ?_⟩
        have hne : c' ≠ c := fun hcc => hE (hcc ▸ hT)
        have hother : (connectionWrite env m.worker c script).conns c' = m.worker.conns c' :=
          Worker.conns_setConn_of_ne _ _ _ hne
        rw [hother]
        exact h.2 c' hc' hE
      close := fun {m c} h hU hc hwrites hclosing hsent hfds => by
        refine ⟨hinv.close h.1 trivial hc hwrites hclosing hsent hfds, fun c' hc' hE => ?_⟩
        have hne : c' ≠ c := fun hcc => hE (hcc ▸ hU)
        obtain ⟨hmem, hgrows⟩ := h.2 c' hc' hE
        rw [connectionDestroy_connections cfg (h.1.isOpen hc).1, connectionDestroy_of_ne _ _ hne]
        exact ⟨(List.mem_erase_of_ne hne).mpr hmem, hgrows⟩
      takeFds := fun h hK => ⟨hinv.takeFds h.1 hK, h.2⟩
      add := fun h => ⟨hinv.add h.1, h.2.grows (workerAddConnection_grows h.1)⟩
      takeDone := fun h => ⟨hinv.takeDone h.1, h.2⟩
      drain := fun h => ⟨hinv.drain h.1, h.2.grows (drainOne_grows _ _ _ _)⟩
      accept := fun fds h => ⟨hinv.accept fds h.1, h.2⟩ }

/-- A read leaves unsent output unsent. -/
theorem connectionRead_unsent (h : Inv w.mid) (hc : c ∈ w.connections)
    (hunsent : (w.conns c).Unsent) (script : List RecvResult) :
    c ∈ (connectionRead cfg env c script w).connections ∧
      ((connectionRead cfg env c script w).conns c).Unsent := by
  refine (connectionRead_invariant
    (P := fun w => Inv w.mid ∧ c ∈ w.connections ∧ (w.conns c).Unsent) ?_ ?_ ⟨h, hc, hunsent⟩
    script).2
  · rintro w readBuf readCap received closing ticks failed ⟨h, hc, hunsent⟩
    have hself : (w.touchRead c readBuf readCap received closing ticks failed).conns c = _ :=
      Worker.conns_setConn_self _ _ _
    refine ⟨h.same (Worker.same_touchRead _ _ _ _ _ _ _ _), hc, ?_⟩
    rw [hself]
    exact hunsent
  · rintro w header payload ⟨h, hc, hunsent⟩ -
    have hopen : (w.conns c).Open := h.isOpen hc
    have hhandles := handlePacket_handles cfg env hopen header payload
    generalize handlePacket cfg env w c header payload = result at hhandles ⊢
    obtain ⟨rc, w'⟩ := result
    obtain ⟨hc', hgrows⟩ := hhandles.grows.old c hc
    exact ⟨h.handle hc hhandles, hc', hgrows.unsent hunsent⟩

theorem maybeClose_of_unsent (h : (w.conns c).closing = true → (w.conns c).Unsent) :
    maybeClose cfg w c = w := by
  unfold maybeClose
  refine if_neg ?_
  rintro ⟨hclosing, hlen⟩
  have := h hclosing
  rw [Conn.Unsent] at this
  omega

/-- **The first event of a pair does not close its connection**: a read leaves the output unsent,
and a write marks the connection for closing only if it fails to send all. -/
theorem handleEvent_keeps (h : Inv w.mid) (hc : c ∈ w.connections) (hunsent : (w.conns c).Unsent)
    (recv : List RecvResult) (send : List SendResult) {ready : Interest}
    (hready : ready = ⟨true, false⟩ ∨ ready = ⟨false, true⟩) :
    c ∈ (handleEvent cfg env w recv send (.conn c ready)).connections := by
  rcases hready with rfl | rfl
  · have hread : c ∈ (if (w.conns c).closing = false then connectionRead cfg env c recv w
          else w).connections ∧
        ((if (w.conns c).closing = false then connectionRead cfg env c recv w
          else w).conns c).Unsent := by
      split_ifs
      · exact connectionRead_unsent h hc hunsent recv
      · exact ⟨hc, hunsent⟩
    simp only [handleEvent, true_and, Bool.false_eq_true, false_and, if_false]
    rw [maybeClose_of_unsent fun _ => hread.2]
    exact hread.1
  · simp only [handleEvent, true_and, Bool.false_eq_true, false_and, if_false]
    split_ifs with hclosing
    · have hsends := sendLoop_sends (env w.tick).modify send (w.conns c)
      have hself : (connectionWrite env w c send).conns c =
          sendLoop (env w.tick).modify send (w.conns c) := Worker.conns_setConn_self _ _ _
      rw [maybeClose_of_unsent]
      · exact hc
      · rw [hself]
        intro hfailed
        refine (hsends.failed hfailed).resolve_left fun hbefore => ?_
        exact absurd (hclosing.symm.trans hbefore) (by decide)
    · rw [maybeClose_of_unsent fun _ => hunsent]
      exact hc

end Frame

/-! ## The promise of the backend -/

/-- The readiness a batch reports for a connection, event by event. -/
def eventsOf (c : ℕ) (batch : List Event) : List Interest :=
  batch.filterMap fun
    | .conn c' ready => if c' = c then some ready else none
    | _ => none

/-- A READ event and a WRITE event, in either order. -/
def IsPair (events : List Interest) : Prop :=
  events = [⟨true, false⟩, ⟨false, true⟩] ∨ events = [⟨false, true⟩, ⟨true, false⟩]

instance (events : List Interest) : Decidable (IsPair events) :=
  inferInstanceAs (Decidable (_ ∨ _))

/-- An event of a batch is for a connection on the list, and it is the only one for it unless they
are a pair, which takes `Q`. -/
def Event.Announced (Q : Conn → Prop) (w : Worker) (batch : List Event) : Event → Prop
  | .conn c _ => c ∈ w.connections ∧
      ((eventsOf c batch).length = 1 ∨ Q (w.conns c) ∧ IsPair (eventsOf c batch))
  | _ => True

instance (Q : Conn → Prop) [DecidablePred Q] (w : Worker) (batch : List Event) :
    DecidablePred (Event.Announced Q w batch)
  | .conn _ _ => inferInstanceAs (Decidable (_ ∧ _))
  | .wake => .isTrue trivial
  | .listener _ => .isTrue trivial

/-- **The promise of the backend**: a batch holds one event for a connection, or a pair while WRITE
interest is registered. -/
def Promised (w : Worker) (batch : List Event) : Prop :=
  ∀ event ∈ batch, event.Announced (fun conn => conn.interests.write = true) w batch

instance (w : Worker) (batch : List Event) : Decidable (Promised w batch) :=
  inferInstanceAs (Decidable (∀ event ∈ batch, _))

/-- Every batch of a run keeps the promise. -/
def KeepsPromise (s : Loop) : Label → Prop
  | .poll batch => Promised s.worker batch
  | _ => True

instance (s : Loop) : DecidablePred (KeepsPromise s)
  | .poll batch => inferInstanceAs (Decidable (Promised s.worker batch))
  | .event _ _ => .isTrue trivial
  | .schedule => .isTrue trivial
  | .resume _ => .isTrue trivial
  | .finish _ => .isTrue trivial
  | .complete _ _ => .isTrue trivial
  | .accept _ => .isTrue trivial

/-- The events that are left of a batch still find their connections, and a pair finds unsent
output. -/
def Due (s : Loop) : Prop :=
  ∀ batch, s.phase = .events batch → ∀ event ∈ batch, event.Announced Conn.Unsent s.worker batch

section Batch

variable {cfg : ServerConfig} {env : ℕ → Env} {w w' : Worker} {c : ℕ} {batch : List Event}
  {event : Event} {s s' : Loop} {l : Label}

theorem mem_eventsOf {ready : Interest} (h : .conn c ready ∈ batch) : ready ∈ eventsOf c batch :=
  List.mem_filterMap.mpr ⟨_, h, if_pos rfl⟩

/-- Connections that stay keep their place in a batch. -/
theorem Event.Announced.frame {E : ℕ → Prop} {batch' : List Event}
    (h : event.Announced Conn.Unsent w batch) (hframe : w.Frame E w')
    (hevent : ∀ c ready, event = .conn c ready → ¬ E c ∧ eventsOf c batch' = eventsOf c batch) :
    event.Announced Conn.Unsent w' batch' := by
  cases event with
  | wake => trivial
  | listener fds => trivial
  | conn c ready =>
    obtain ⟨hE, heq⟩ := hevent c ready rfl
    obtain ⟨hc, hcount⟩ := h
    obtain ⟨hc', hgrows⟩ := hframe c hc hE
    refine ⟨hc', ?_⟩
    rw [heq]
    exact hcount.imp_right fun ⟨hunsent, hpair⟩ => ⟨hgrows.unsent hunsent, hpair⟩

/-- **One event is handled**: the rest of the batch still finds its connections. -/
theorem due_handleEvent (h : Inv w.mid)
    (hdue : ∀ e ∈ event :: batch, e.Announced Conn.Unsent w (event :: batch))
    (recv : List RecvResult) (send : List SendResult) :
    ∀ e ∈ batch, e.Announced Conn.Unsent (handleEvent cfg env w recv send event) batch := by
  have hframe (E : ℕ → Prop) (hadmits : Admits E E (fun _ => True) w event) :
      w.Frame E (handleEvent cfg env w recv send event) :=
    ((frame_eventRule cfg env E (fun _ => True) w).handleEvent
      (P := fun m => Inv m ∧ w.Frame E m.worker)
      ⟨h, fun c hc _ => ⟨hc, .refl _⟩⟩ recv send hadmits).2
  intro e he
  have hannounced := hdue e (List.mem_cons_of_mem _ he)
  cases event with
  | wake => exact hannounced.frame (hframe (fun _ => False) trivial) fun c ready _ => ⟨id, rfl⟩
  | listener fds =>
    exact hannounced.frame (hframe (fun _ => False) trivial) fun c ready _ => ⟨id, rfl⟩
  | conn c ready =>
    obtain ⟨hc, hcount⟩ := hdue (.conn c ready) List.mem_cons_self
    have hcons : eventsOf c (.conn c ready :: batch) = ready :: eventsOf c batch := by
      simp [eventsOf]
    by_cases hsame : ∃ ready', e = .conn c ready'
    · -- a second event for the connection: the two are a pair
      obtain ⟨ready', rfl⟩ := hsame
      have hmem := mem_eventsOf he
      rw [hcons] at hcount
      rcases hcount with hone | ⟨hunsent, hpair⟩
      · simp only [List.length_cons, add_eq_right, List.length_eq_zero_iff] at hone
        rw [hone] at hmem
        cases hmem
      · have hfirst : (ready = ⟨true, false⟩ ∨ ready = ⟨false, true⟩) ∧
            (eventsOf c batch).length = 1 := by
          rcases hpair with hpair | hpair <;> injection hpair with hready hrest
          · exact ⟨.inl hready, by rw [hrest]; rfl⟩
          · exact ⟨.inr hready, by rw [hrest]; rfl⟩
        exact ⟨handleEvent_keeps h hc hunsent recv send hfirst.1, .inl hfirst.2⟩
    · -- the event of another connection
      refine hannounced.frame (hframe (· = c) ⟨hc, fun _ => rfl, rfl⟩) ?_
      rintro c' ready' rfl
      have hne : c' ≠ c := by
        rintro rfl
        exact hsame ⟨ready', rfl⟩
      refine ⟨hne, ?_⟩
      simp [eventsOf, Ne.symm hne]

/-- What holds all along a run whose batches keep the promise. -/
structure InOrder (s : Loop) : Prop where
  inv : Inv s.worker.mid
  interested : Interested s.worker
  due : Due s

theorem InOrder.step (hmodify : ∀ t, (env t).modify = true) (h : InOrder s)
    (hpromise : KeepsPromise s l) (hstep : s.step cfg env l = some s') : InOrder s' := by
  have hadmits : StepAdmits (fun _ => True) (fun _ => True) (fun _ => True) s l := by
    cases l with
    | event recv send =>
      intro event batch hphase
      cases event with
      | wake => trivial
      | listener fds => trivial
      | conn c ready => exact ⟨(h.due _ hphase _ List.mem_cons_self).1, fun _ => trivial, trivial⟩
    | _ => trivial
  obtain ⟨hinv, hinterested⟩ : Inv s'.worker.mid ∧ Interested s'.worker :=
    (interested_loopRule cfg hmodify (fun _ => True) (fun _ => True)).step
      (P := fun m => Inv m ∧ Interested m.worker) ⟨h.inv, h.interested⟩ hadmits hstep
  refine ⟨hinv, hinterested, ?_⟩
  cases l with
  | poll batch =>
    simp only [Loop.step] at hstep
    split_ifs at hstep
    cases hstep
    intro batch' hphase
    cases hphase
    intro event hevent
    have hannounced := hpromise event hevent
    cases event with
    | wake => trivial
    | listener fds => trivial
    | conn c ready =>
      obtain ⟨hc, hcount⟩ := hannounced
      exact ⟨hc, hcount.imp_right fun hboth =>
        ⟨h.interested c hc hboth.1, hboth.2⟩⟩
  | event recv send =>
    simp only [Loop.step] at hstep
    split at hstep
    · rename_i event batch hphase
      cases hstep
      intro batch' hphase'
      cases hphase'
      exact due_handleEvent h.inv (h.due _ hphase) recv send
    · cases hstep
  | schedule =>
    simp only [Loop.step] at hstep
    split_ifs at hstep
    cases hstep
    exact fun batch hphase => by cases hphase
  | resume resume =>
    simp only [Loop.step] at hstep
    split_ifs at hstep with hphase
    obtain ⟨w', -, rfl⟩ := Option.map_eq_some_iff.mp hstep
    intro batch hphase'
    exact absurd (hphase.symm.trans hphase') (fun h => by cases h)
  | finish scripts =>
    simp only [Loop.step] at hstep
    split_ifs at hstep
    cases hstep
    exact fun batch hphase => by cases hphase
  | complete d completion =>
    simp only [Loop.step] at hstep
    split_ifs at hstep
    cases hstep
    intro batch hphase event hevent
    refine (h.due batch hphase event hevent).frame (E := fun _ => False) ?_
      fun c ready _ => ⟨id, rfl⟩
    exact fun c hc _ => (complete_grows s.worker d completion).old c hc
  | accept fd =>
    cases hstep
    exact h.due

end Batch

/-! ## The lifecycle of connections -/

/-- **The lists, counts and slots of a worker agree.** -/
structure Lifecycle (w : Worker) : Prop where
  /-- `pending_deferred` is the number of issued and not yet drained calls of the connection. -/
  pending : ∀ c, (w.conns c).pendingDeferred.toNat = w.pointing c
  /-- An undrained call points to a slot that still holds the connection it came from. -/
  held : ∀ d ∈ w.undrained, w.connectionArena.Live (w.deferreds d).conn ∧
    (w.conns (w.deferreds d).conn).inst = (w.deferreds d).request.inst
  /-- `worker->connections` holds the connections that are not detached, each once. -/
  listed : w.connections.Nodup ∧
    ∀ c, c ∈ w.connections ↔ w.connectionArena.Live c ∧ (w.conns c).detached = false
  /-- `worker->pending_writes` holds those with `write_queued`, each once. -/
  queued : w.pendingWrites.Nodup ∧ ∀ c, c ∈ w.pendingWrites ↔ (w.conns c).writeQueued = true
  /-- No slot is on the free list twice. -/
  arena : w.connectionArena.WellFormed
  /-- Every allocation is given back at most once. -/
  freed_once : ((freedOf w.log).map Freed.inst).Nodup
  /-- A slot was detached when it was given back, and no undrained call pointed to it. -/
  freed_ok : ∀ f ∈ freedOf w.log, f.detached = true ∧ f.pointing = 0
  /-- A slot that is detached and not given back waits for an undrained call. -/
  lingering : ∀ c, w.connectionArena.Live c → (w.conns c).detached = true → w.pointing c ≠ 0

theorem Inv.lifecycle {w : Worker} (h : Inv w.mid) : Lifecycle w where
  pending := h.defer.pending
  held d hd := ⟨h.defer.conn_live d hd, h.defer.inst_eq d hd⟩
  listed := ⟨h.conn.nodup, h.conn.mem_connections⟩
  queued := by
    have hnodup : (w.pendingWrites ++ []).Nodup := h.write.nodup
    have hmem : ∀ c, c ∈ w.pendingWrites ++ [] ↔ (w.conns c).writeQueued = true := h.write.mem_iff
    rw [List.append_nil] at hnodup hmem
    exact ⟨hnodup, hmem⟩
  arena := h.conn.arena
  freed_once := h.conn.freed_nodup
  freed_ok := h.conn.freed_ok
  lingering c hlive hdetached hpointing := by
    refine h.conn.lingering c (Option.some_ne_none c).symm hlive hdetached ?_
    exact UInt32.toNat_inj.mp ((h.defer.pending c).trans hpointing)

/-- **The lifecycle of connections**: as long as the backend takes changes of interests and keeps
its promise about batches, the worker is in order after every run, whenever and in whatever order
deferred calls are completed. -/
theorem connection_lifecycle (cfg : ServerConfig) {env : ℕ → Env}
    (hmodify : ∀ t, (env t).modify = true) {labels : List Label} {s : Loop}
    (hpromise : Machine.Meets (Loop.step cfg env) KeepsPromise Loop.init labels)
    (hrun : Machine.exec (Loop.step cfg env) Loop.init labels = some s) : Lifecycle s.worker := by
  have hinit : InOrder Loop.init :=
    ⟨inv_workerInit, (fun c hc => by cases hc), (fun batch hphase => by cases hphase)⟩
  have hinorder : InOrder s :=
    Machine.exec_invariant (fun _ _ _ h hpromise hstep => h.step hmodify hpromise hstep) hinit
      hpromise hrun
  exact hinorder.inv.lifecycle

/-- A PING whose answer is not sent at once, so that the next batch holds a pair. -/
theorem connection_lifecycle_ping :
    let labels := connecting 3 ++
      [.poll [.conn 0 ⟨true, false⟩], .event [.data (pingThenDisconnect.take 34)] [], .schedule,
        .finish fun _ => [.sent 10, .wouldBlock],
        .poll [.conn 0 ⟨true, false⟩, .conn 0 ⟨false, true⟩],
        .event [.data (pingThenDisconnect.drop 34)] []]
    ∃ s, Machine.exec (Loop.step .plain fun _ => .quiet) Loop.init labels = some s ∧
      s.phase = .events [.conn 0 ⟨false, true⟩] ∧ Lifecycle s.worker := by
  intro labels
  have hphase : (Machine.exec (Loop.step .plain fun _ => .quiet) Loop.init labels).map Loop.phase =
      some (.events [.conn 0 ⟨false, true⟩]) := by decide +kernel
  obtain ⟨s, hs, hphase⟩ := Option.map_eq_some_iff.mp hphase
  refine ⟨s, hs, hphase, connection_lifecycle .plain (fun _ => rfl) ?_ hs⟩
  decide +kernel

end Wirecall

import Wirecall.Backend.Kqueue
import Wirecall.Server.Watching

/-!
# Workers on kqueue

kqueue reports READ and WRITE of one descriptor as two events, so an event may come after one in
which its connection was destroyed. It does not: the two come together only while output waits, and a
connection with output is not destroyed by the first of them.

## Main definitions

* `kqueueWatcher`: kqueue stands for the table of its filters

## Main results

* `Kqueue.reports_of_answers`: what kqueue reports is in the table
* `lifecycle_on_kqueue`: **a worker on kqueue finds the connection of every event**
-/

namespace Wirecall

namespace Kqueue

/-! ## Filters and the table -/

/-- Whether a kind of readiness is among the interests. -/
def Filter.isIn (interests : Interest) : Filter → Bool
  | .read => interests.read
  | .write => interests.write

/-- The readiness of one filter. -/
def Filter.ready : Filter → Interest
  | .read => ⟨true, false⟩
  | .write => ⟨false, true⟩

/-- An event in the loop of `worker_run`; a wake-up is `none`. -/
def Event.report (event : Event Pointee) : Option Report :=
  if event.events &&& backendWake ≠ 0 then none
  else event.user.map fun owner => ⟨event.fd, owner, readyBits event.events⟩

/-- The filters that a table says. -/
def tableFilters (t : Table) (fd : ℕ) (filter : Filter) : Option Pointee :=
  (t fd).bind fun entry => if filter.isIn entry.2 then some entry.1 else none

section Calls

variable {q q' : Queue Pointee} {t : Table} {fd : ℕ} {filter : Filter} {granted : Filter → Bool}

theorem filterFor_bits (interests : Interest) (owner : Pointee) (filter : Filter) :
    filterFor interests.bits owner filter = if filter.isIn interests then some owner else none := by
  obtain ⟨read, write⟩ := interests
  cases filter <;> cases read <;> cases write <;> rfl

/-- A change that reports success was made. -/
theorem applyFilter_ok {g : Bool} {change : Change Pointee}
    (h : (applyFilter g q fd filter change).1 = .ok) :
    (applyFilter g q fd filter change).2 = q.setFilter fd filter change.result := by
  cases g with
  | true => rw [applyFilter_granted]
  | false =>
    -- only a filter that is missing can be deleted without the kernel
    have hgranted := applyFilter_granted q fd filter change
    cases change with
    | add user => cases h
    | delete =>
      simp only [applyFilter] at h hgranted ⊢
      by_cases hnone : q.filters fd filter = none
      · rw [if_pos hnone] at hgranted ⊢
        exact (Prod.mk.inj hgranted).2
      · rw [if_neg hnone, if_neg Bool.false_ne_true] at h
        cases h

/-- **A registration that reports success** made both changes. -/
theorem register_ok {fd : ℤ} {events : UInt32} {owner : Pointee} (hfd : 0 ≤ fd)
    (h : register granted q fd events owner = (.ok, q')) :
    q'.filters = Function.update q.filters fd.toNat (filterFor events owner) := by
  have hboth := (setInterest_granted q fd.toNat events owner).2
  simp only [setInterest, applyFilter_granted] at hboth
  simp only [register, if_neg (not_lt.mpr hfd), setInterest] at h
  generalize (if events &&& backendRead ≠ 0 then Change.add owner else .delete) = first at h hboth
  generalize (if events &&& backendWrite ≠ 0 then Change.add owner else .delete) = second at h hboth
  obtain ⟨hrc, heq⟩ := Prod.mk.inj h
  by_cases hok : (applyFilter (granted .read) q fd.toNat .read first).1 = .ok ∧
      (applyFilter (granted .write) (applyFilter (granted .read) q fd.toNat .read first).2
        fd.toNat .write second).1 = .ok
  · rw [← hboth, ← heq, applyFilter_ok hok.2, applyFilter_ok hok.1]
  · rw [if_neg hok] at hrc
    cases hrc

/-- **A registration for READ that fails** changes nothing where there was nothing. -/
theorem register_err {fd : ℤ} {owner : Pointee} (hfd : 0 ≤ fd)
    (hnone : ∀ filter, q.filters fd.toNat filter = none)
    (h : (register granted q fd backendRead owner).1 = .err) :
    (register granted q fd backendRead owner).2 = q := by
  have hdelete (g : Bool) : applyFilter g q fd.toNat .write .delete = (.ok, q) :=
    if_pos (hnone .write)
  simp only [register, if_neg (not_lt.mpr hfd), setInterest] at h ⊢
  have hread : (if backendRead &&& backendRead ≠ 0 then Change.add owner else .delete) =
      .add owner := rfl
  have hwrite : (if backendRead &&& backendWrite ≠ 0 then Change.add owner else .delete) =
      .delete := rfl
  simp only [hread, hwrite] at h ⊢
  cases hgranted : granted .read with
  | true =>
    -- then both changes succeed
    have hlast : (q.setFilter fd.toNat .read (some owner)).filters fd.toNat .write = none := by
      rw [setFilter_of_ne _ _ (.inr fun heq => by cases heq)]
      exact hnone .write
    simp only [hgranted, applyFilter, if_true, hlast, and_self] at h
    cases h
  | false => simp only [applyFilter, Bool.false_eq_true, if_false, hnone .write, if_true]

theorem remove_of_none {fd : ℤ} (hnone : ∀ filter, q.filters fd.toNat filter = none) :
    (remove granted q fd).2 = q := by
  unfold remove
  split_ifs
  · rfl
  · simp only [applyFilter, if_pos (hnone .read), if_pos (hnone .write)]

theorem tableFilters_eq_some_iff {t : Table} {fd : ℕ} {filter : Filter} {owner : Pointee} :
    tableFilters t fd filter = some owner ↔
      ∃ interests, t fd = some (owner, interests) ∧ filter.isIn interests = true := by
  unfold tableFilters
  constructor
  · intro h
    obtain ⟨⟨owner', interests⟩, hentry, hsome⟩ := Option.bind_eq_some_iff.mp h
    obtain ⟨hin, heq⟩ := Option.ite_none_right_eq_some.mp hsome
    cases heq
    exact ⟨interests, hentry, hin⟩
  · rintro ⟨interests, hentry, hin⟩
    rw [hentry]
    exact if_pos hin

theorem tableFilters_update (t : Table) (fd : ℕ) (entry : Option (Pointee × Interest)) :
    tableFilters (Function.update t fd entry) =
      Function.update (tableFilters t) fd fun filter =>
        entry.bind fun entry => if filter.isIn entry.2 then some entry.1 else none := by
  funext fd' filter
  by_cases hfd : fd' = fd
  · subst hfd
    simp only [tableFilters, Function.update_self]
  · simp only [tableFilters, Function.update_of_ne hfd]

end Calls

/-! ## Reports and the table -/

section Polls

/-- Filters that are reported for one descriptor are one, or a pair. -/
theorem nodup_filters {filters : List Filter} (hnodup : filters.Nodup) (hne : filters ≠ []) :
    filters.length = 1 ∨ .write ∈ filters ∧ IsPair (filters.map Filter.ready) := by
  -- there are two kinds of filters only
  have hlength : filters.length ≤ 2 := by
    have hsubset : filters ⊆ [.read, .write] := by
      intro filter _
      cases filter with
      | read => exact List.mem_cons_self
      | write => exact List.mem_cons_of_mem _ List.mem_cons_self
    exact (hnodup.subperm hsubset).length_le
  cases filters with
  | nil => exact absurd rfl hne
  | cons a rest =>
    cases rest with
    | nil => exact .inl rfl
    | cons b rest =>
      obtain rfl : rest = [] := by
        cases rest with
        | nil => rfl
        | cons c rest =>
          simp only [List.length_cons] at hlength
          omega
      have hab : a ≠ b := fun heq => (List.nodup_cons.mp hnodup).1 (heq ▸ List.mem_cons_self)
      right
      cases a <;> cases b
      · exact absurd rfl hab
      · exact ⟨by decide, .inl rfl⟩
      · exact ⟨by decide, .inr rfl⟩
      · exact absurd rfl hab

/-- The filters of a descriptor that are reported. -/
def filtersOf (fd : ℕ) (notes : List Knote) : List Filter :=
  notes.filterMap fun
    | .user => none
    | .filter fd' filter => if fd' = fd then some filter else none

variable {q : Queue Pointee} {t : Table} {fd : ℕ} {filter : Filter} {notes : List Knote}

theorem mem_filtersOf : filter ∈ filtersOf fd notes ↔ .filter fd filter ∈ notes := by
  constructor
  · intro h
    obtain ⟨note, hnote, heq⟩ := List.mem_filterMap.mp h
    cases note with
    | user => cases heq
    | filter fd' filter' =>
      obtain ⟨rfl, hsome⟩ := Option.ite_none_right_eq_some.mp heq
      cases hsome
      exact hnote
  · exact fun h => List.mem_filterMap.mpr ⟨_, h, if_pos rfl⟩

theorem nodup_filtersOf (hnodup : notes.Nodup) : (filtersOf fd notes).Nodup := by
  refine hnodup.filterMap ?_
  intro note note' filter hnote hnote'
  cases note with
  | user => cases hnote
  | filter fd₁ filter₁ =>
    cases note' with
    | user => cases hnote'
    | filter fd₂ filter₂ =>
      obtain ⟨rfl, hsome⟩ := Option.ite_none_right_eq_some.mp (Option.mem_def.mp hnote)
      obtain ⟨rfl, hsome'⟩ := Option.ite_none_right_eq_some.mp (Option.mem_def.mp hnote')
      cases hsome
      cases hsome'
      rfl

theorem event_report (q : Queue Pointee) (fd : ℕ) (filter : Filter) :
    (q.event (.filter fd filter)).report =
      (q.filters fd filter).map fun owner => ⟨fd, owner, filter.ready⟩ := by
  cases filter with
  | read =>
    have hwake : ¬ backendRead &&& backendWake ≠ 0 := by decide
    have hready : readyBits backendRead = Filter.ready .read := by decide
    simp only [Event.report, Queue.event, if_neg hwake, hready]
  | write =>
    have hwake : ¬ backendWrite &&& backendWake ≠ 0 := by decide
    have hready : readyBits backendWrite = Filter.ready .write := by decide
    simp only [Event.report, Queue.event, if_neg hwake, hready]

theorem wake_report (q : Queue Pointee) : (q.event .user).report = none := by
  have hwake : (q.event .user).events &&& backendWake ≠ 0 :=
    show backendWake &&& backendWake ≠ 0 by decide
  exact if_pos hwake

/-- What is reported for a descriptor is what its filters say. -/
theorem readyOf_notes (hreports : ∀ note ∈ notes, q.reports note = true) :
    readyOf fd ((notes.map q.event).map Event.report) = (filtersOf fd notes).map Filter.ready := by
  induction notes with
  | nil => rfl
  | cons note notes ih =>
    have hrest := ih fun note hnote => hreports note (List.mem_cons_of_mem _ hnote)
    unfold readyOf filtersOf at hrest ⊢
    rw [List.map_cons, List.map_cons, List.filterMap_cons, List.filterMap_cons, hrest]
    cases note with
    | user => rw [wake_report, Option.bind_none]
    | filter fd' filter =>
      obtain ⟨owner, howner⟩ := Option.isSome_iff_exists.mp (hreports _ List.mem_cons_self)
      rw [event_report, howner]
      simp only [Option.map_some, Option.bind_some]
      by_cases hfd : fd' = fd
      · rw [if_pos hfd, if_pos hfd]
        rfl
      · rw [if_neg hfd, if_neg hfd]

/-- **What kqueue reports is in the table**, and no two events are for one filter. -/
theorem reports_of_answers (hholds : q.filters = tableFilters t) {limit : ℕ}
    (hanswers : q.Answers limit notes) : t.Reports ((notes.map q.event).map Event.report) := by
  obtain ⟨-, hnodup, hreports⟩ := hanswers
  -- a filter that is reported is in the table
  have hentry {fd : ℕ} {filter : Filter} (hnote : .filter fd filter ∈ notes) :
      ∃ owner interests, q.filters fd filter = some owner ∧ t fd = some (owner, interests) ∧
        filter.isIn interests = true := by
    obtain ⟨owner, howner⟩ := Option.isSome_iff_exists.mp (hreports _ hnote)
    have htable : tableFilters t fd filter = some owner := by rw [← hholds, howner]
    obtain ⟨interests, hfd, hin⟩ := tableFilters_eq_some_iff.mp htable
    exact ⟨owner, interests, howner, hfd, hin⟩
  intro r hr
  rw [List.map_map] at hr
  obtain ⟨note, hnote, heq⟩ := List.mem_map.mp hr
  cases note with
  | user =>
    rw [Function.comp_apply, wake_report] at heq
    cases heq
  | filter fd filter =>
    obtain ⟨owner, interests, howner, hfd, -⟩ := hentry hnote
    simp only [Function.comp_apply, event_report, howner, Option.map_some, Option.some.injEq] at heq
    subst heq
    refine ⟨interests, hfd, ?_⟩
    rw [readyOf_notes hreports, List.length_map]
    have hmem : filter ∈ filtersOf fd notes := mem_filtersOf.mpr hnote
    refine (nodup_filters (nodup_filtersOf hnodup) (List.ne_nil_of_mem hmem)).imp_right ?_
    rintro ⟨hwrite, hpair⟩
    obtain ⟨owner', interests', -, hfd', hin⟩ := hentry (mem_filtersOf.mp hwrite)
    rw [hfd] at hfd'
    cases hfd'
    exact ⟨hin, hpair⟩

end Polls

end Kqueue

/-! ## A worker on kqueue -/

/-- A call at a kqueue. The filters of a descriptor that is removed go with it: its socket is closed
next. -/
inductive KqueueCall : Kqueue.Queue Pointee → WatchCall → Kqueue.Queue Pointee → Prop
  | set {q q' : Kqueue.Queue Pointee} {fd : Int} {interests : Interest} {owner : Pointee} {ok : Bool}
      (granted : Kqueue.Filter → Bool)
      (hregister :
        Kqueue.register granted q fd interests.bits owner = (if ok then .ok else .err, q')) :
      KqueueCall q (.set ok fd interests owner) q'
  | refuse {q : Kqueue.Queue Pointee} {fd : Int} {owner : Pointee}
      (granted granted' : Kqueue.Filter → Bool)
      (hregister : (Kqueue.register granted q fd backendRead owner).1 = .err) :
      KqueueCall q (.refuse fd owner)
        (Kqueue.remove granted' (Kqueue.register granted q fd backendRead owner).2 fd).2
  | remove (q : Kqueue.Queue Pointee) (fd : Int) :
      KqueueCall q (.remove fd) (Kqueue.remove (fun _ => true) q fd).2

/-- A poll of a kqueue, as the loop of `worker_run` sees it. -/
def KqueuePolls (q : Kqueue.Queue Pointee) (notes : List (Option Report)) (q' : Kqueue.Queue Pointee) :
    Prop :=
  ∃ limit knotes events, Kqueue.poll limit q knotes = some (events, q') ∧
    notes = events.map Kqueue.Event.report

section Kqueue

variable {q q' : Kqueue.Queue Pointee} {t : Table}

theorem KqueueCall.holds {k : WatchCall} (hcall : KqueueCall q k q')
    (h : q.filters = Kqueue.tableFilters t) (hallows : t.Allows k) :
    q'.filters = Kqueue.tableFilters (t.call k) := by
  cases hcall with
  | @set _ fd interests owner ok granted hregister =>
    obtain rfl : ok = true := hallows
    by_cases hfd : 0 ≤ fd
    · rw [Table.call, if_pos ⟨rfl, hfd⟩, Kqueue.tableFilters_update, ← h,
        Kqueue.register_ok hfd hregister]
      congr 1
      funext filter
      exact Kqueue.filterFor_bits interests owner filter
    · -- the kernel is not asked about a negative descriptor
      rw [Kqueue.register, if_pos (not_le.mp hfd)] at hregister
      cases hregister
  | @refuse fd owner granted granted' hregister =>
    obtain ⟨hfd, hnone⟩ := hallows
    have hfilters : ∀ filter, q.filters fd.toNat filter = none := by
      intro filter
      rw [h, Kqueue.tableFilters, hnone]
      rfl
    rw [Kqueue.register_err hfd hfilters hregister, Kqueue.remove_of_none hfilters]
    exact h
  | remove fd =>
    by_cases hfd : 0 ≤ fd
    · rw [Table.call, if_pos hfd, Kqueue.tableFilters_update, ← h, Kqueue.remove_granted q hfd]
      rfl
    · rw [Table.call, if_neg hfd, Kqueue.remove, if_pos (not_le.mp hfd)]
      exact h

theorem KqueuePolls.holds {notes : List (Option Report)} (hpoll : KqueuePolls q notes q')
    (h : q.filters = Kqueue.tableFilters t) :
    q'.filters = Kqueue.tableFilters t ∧ t.Reports notes := by
  obtain ⟨limit, knotes, events, hpoll, rfl⟩ := hpoll
  obtain ⟨⟨-, hanswers⟩, hsome⟩ := Option.ite_none_right_eq_some.mp hpoll
  obtain ⟨rfl, rfl⟩ := Prod.mk.inj (Option.some.inj hsome)
  refine ⟨?_, Kqueue.reports_of_answers h hanswers⟩
  split_ifs
  · exact h
  · exact h

end Kqueue

/-- **kqueue stands for a table.** -/
def kqueueWatcher : Watcher (Kqueue.Queue Pointee) where
  call := KqueueCall
  poll := KqueuePolls
  move := fun q q' => q' = Kqueue.wake q
  Holds := fun q t => q.filters = Kqueue.tableFilters t
  holds_call := fun h hallows hcall => hcall.holds h hallows
  holds_poll := fun h hpoll => hpoll.holds h
  holds_move := fun h hmove => hmove ▸ h

/-- The queue after `wirecall_server_listen`. -/
def Kqueue.listening (listeners : List ℕ) : Kqueue.Queue Pointee :=
  listeners.foldl (fun q (fd : ℕ) => (register (fun _ => true) q fd backendRead .listener).2)
    (.empty Pointee)

theorem Kqueue.listening_holds (listeners : List ℕ) :
    kqueueWatcher.Holds (Kqueue.listening listeners) (.listening listeners) := by
  -- the listeners that come later do not change those that came before
  have hgeneral (done : List ℕ) (q : Queue Pointee) (hq : q.filters = tableFilters (.listening done)) :
      (listeners.foldl (fun q (fd : ℕ) => (register (fun _ => true) q fd backendRead .listener).2)
        q).filters = tableFilters (.listening (done ++ listeners)) := by
    induction listeners generalizing done q with
    | nil => rwa [List.append_nil]
    | cons fd listeners ih =>
      have hnext := ih (done ++ [fd]) (register (fun _ => true) q fd backendRead .listener).2 ?_
      · rwa [List.append_assoc] at hnext
      · have hset := (setInterest_granted q fd backendRead Pointee.listener).2
        have hupdate : Table.listening (done ++ [fd]) =
            Function.update (Table.listening done) fd (some (.listener, ⟨true, false⟩)) := by
          funext fd'
          by_cases hfd : fd' = fd
          · subst hfd
            simp [Table.listening]
          · simp [Table.listening, hfd]
        have hregister : register (fun _ => true) q fd backendRead Pointee.listener =
            setInterest (fun _ => true) q fd backendRead .listener := rfl
        rw [hregister, hset, hupdate, tableFilters_update, hq]
        congr 1
        funext filter
        exact filterFor_bits ⟨true, false⟩ Pointee.listener filter
  exact hgeneral [] (.empty Pointee) rfl

/-- **A worker on kqueue finds the connection of every event.** In every run of the loop with its
backend, if changes of interests succeed and no descriptor is handed out while it is in use: the
lists, counts and slots of the worker agree, and every event that is left of a batch is for a
connection that the worker has. The filters in the kernel that point to connections are those of
these connections, with their interests; those that point to listeners are the READ filters of the
listeners. -/
theorem lifecycle_on_kqueue (cfg : ServerConfig) {env : ℕ → Env}
    (hmodify : ∀ t, (env t).modify = true) {listeners : List ℕ} (hlisteners : listeners.Nodup)
    {s : Watching (Kqueue.Queue Pointee)}
    (hrun : Relation.ReflTransGen (WatchingStep cfg env kqueueWatcher listeners)
      ⟨Loop.init, Kqueue.listening listeners⟩ s) :
    Lifecycle s.loop.worker ∧
      (∀ batch, s.loop.phase = .events batch → ∀ c ready, .conn c ready ∈ batch →
        c ∈ s.loop.worker.connections) ∧
      (∀ (fd c : ℕ) (filter : Kqueue.Filter), s.backend.filters fd filter = some (.conn c) ↔
        c ∈ s.loop.worker.connections ∧ (s.loop.worker.conns c).fd = fd ∧
          filter.isIn (s.loop.worker.conns c).interests = true) ∧
      ∀ (fd : ℕ) (filter : Kqueue.Filter), s.backend.filters fd filter = some .listener ↔
        fd ∈ listeners ∧ filter = .read := by
  have hstep : s.InStep kqueueWatcher listeners :=
    Watching.inStep_of_run hmodify hlisteners (Kqueue.listening_holds listeners) hrun
  obtain ⟨t, ht⟩ := hstep.table
  have hholds : s.backend.filters = Kqueue.tableFilters t := ht.holds
  refine ⟨hstep.inOrder.inv.lifecycle, fun batch hphase c ready hevent => ?_, fun fd c filter => ?_,
    fun fd filter => ?_⟩
  · exact (hstep.inOrder.due batch hphase _ hevent).1
  · rw [hholds, Kqueue.tableFilters_eq_some_iff]
    constructor
    · rintro ⟨interests, hentry, hin⟩
      obtain ⟨hc, hfd, rfl⟩ := ht.watched.conn_of_entry hentry
      exact ⟨hc, hfd, hin⟩
    · rintro ⟨hc, hfd, hin⟩
      exact ⟨_, ht.watched.entry_of_conn hc hfd, hin⟩
  · rw [hholds, Kqueue.tableFilters_eq_some_iff]
    constructor
    · rintro ⟨interests, hentry, hin⟩
      obtain ⟨hfd, rfl⟩ := ht.watched.listener_of_entry hentry
      refine ⟨hfd, ?_⟩
      cases filter with
      | read => rfl
      | write => cases hin
    · rintro ⟨hfd, rfl⟩
      exact ⟨_, ht.watched.listener fd hfd, rfl⟩

/-- A socket is accepted while the worker sleeps. The worker is woken, adds it, and is then told that
there is input on it. -/
theorem lifecycle_on_kqueue_accept : ∃ s : Watching (Kqueue.Queue Pointee),
    Relation.ReflTransGen (WatchingStep .plain (fun _ => .quiet) kqueueWatcher [3])
      ⟨Loop.init, Kqueue.listening [3]⟩ s ∧
      s.loop.phase = .events [.conn 0 ⟨true, false⟩] ∧ 0 ∈ s.loop.worker.connections := by
  let cfg := ServerConfig.plain
  let env : ℕ → Env := fun _ => .quiet
  let start := Kqueue.listening [3]
  let w : Worker := { workerInit with pendingFds := [5] }
  let w' := drainCompleted cfg env (drainPending cfg env w)
  let q' := (Kqueue.register (fun _ => true) start 5 backendRead (.conn 0)).2
  let w'' := flushWrites cfg env (fun _ => []) (drainCompleted cfg env w')
  have haccept : WatchingStep cfg env kqueueWatcher [3] ⟨Loop.init, start⟩ ⟨⟨w, .poll⟩, start⟩ :=
    .work (l := .accept 5) trivial rfl (.act .refl (.accept workerInit [5]) (by decide) rfl)
  have hwake : WatchingStep cfg env kqueueWatcher [3] ⟨⟨w, .poll⟩, start⟩
      ⟨⟨w, .poll⟩, Kqueue.wake start⟩ := .move rfl
  have hwoken : KqueuePolls (Kqueue.wake start) [none] start := by
    refine ⟨16, [.user], [⟨1, backendWake, none⟩], rfl, ?_⟩
    exact (congrArg (fun note => [note]) (Kqueue.wake_report start)).symm
  have hpoll : WatchingStep cfg env kqueueWatcher [3] ⟨⟨w, .poll⟩, Kqueue.wake start⟩
      ⟨⟨w, .events [.wake]⟩, start⟩ := .poll hwoken (.cons .wake .nil)
  have hadd : WatchingStep cfg env kqueueWatcher [3] ⟨⟨w, .events [.wake]⟩, start⟩
      ⟨⟨w', .events []⟩, q'⟩ := by
    have htake : Performs cfg env kqueueWatcher [3] w.mid start
        ⟨{ w with pendingFds := [] }, [], [], [5]⟩ start :=
      .act .refl (.takeFds w) (by decide) rfl
    have hadded : Performs cfg env kqueueWatcher [3] w.mid start
        ⟨drainPending cfg env w, [], [], []⟩ q' :=
      .act htake (.add _ 5 []) (by decide) ⟨q', .set (fun _ => true) rfl, rfl⟩
    exact .work (l := .event [] []) trivial rfl (.act hadded (.takeDone _) (by decide) rfl)
  have hschedule : WatchingStep cfg env kqueueWatcher [3] ⟨⟨w', .events []⟩, q'⟩
      ⟨⟨w', .schedule⟩, q'⟩ := .work (l := .schedule) trivial rfl .refl
  have hfinish : WatchingStep cfg env kqueueWatcher [3] ⟨⟨w', .schedule⟩, q'⟩
      ⟨⟨w'', .poll⟩, q'⟩ := by
    have hdone : Performs cfg env kqueueWatcher [3] w'.mid q'
        (drainCompleted cfg env w').mid q' := .act .refl (.takeDone w') (by decide) rfl
    exact .work (l := .finish fun _ => []) trivial rfl
      (.act hdone (.takeWrites _) (by decide) rfl)
  have hready : KqueuePolls q' [some ⟨5, .conn 0, ⟨true, false⟩⟩] q' := by
    refine ⟨16, [.filter 5 .read], [q'.event (.filter 5 .read)], rfl, ?_⟩
    exact (congrArg (fun note => [note]) (Kqueue.event_report q' 5 .read)).symm
  have hinput : WatchingStep cfg env kqueueWatcher [3] ⟨⟨w'', .poll⟩, q'⟩
      ⟨⟨w'', .events [.conn 0 ⟨true, false⟩]⟩, q'⟩ :=
    .poll hready (.cons (.conn 5 0 ⟨true, false⟩) .nil)
  have hrun : Relation.ReflTransGen (WatchingStep cfg env kqueueWatcher [3]) ⟨Loop.init, start⟩
      ⟨⟨w'', .events [.conn 0 ⟨true, false⟩]⟩, q'⟩ :=
    .tail (.tail (.tail (.tail (.tail (.tail (.single haccept) hwake) hpoll) hadd) hschedule)
      hfinish) hinput
  have hfound := (lifecycle_on_kqueue cfg (fun _ => rfl) (List.nodup_singleton 3) hrun).2.1
  exact ⟨_, hrun, rfl, hfound _ rfl 0 _ List.mem_cons_self⟩

end Wirecall

import Wirecall.Backend.Windows
import Wirecall.Server.Watching

/-!
# Workers on Windows

On Windows a socket has a slot of an array, and one event says all that there is about it. A slot is
taken before the system is asked to watch the socket, so a registration that fails leaves one behind;
the worker gives up the connection then, and the slot with it.

## Main definitions

* `Windows.Lists`: watches that stand for a table
* `windowsWatcher`: the array of watches stands for a table

## Main results

* `Windows.reports_of_lists`: what a poll reports is in the table
* `lifecycle_on_windows`: **a worker on Windows finds the connection of every event**
-/

namespace Wirecall

namespace Windows

/-! ## Watches and the table -/

/-- The pointer that is registered: its lowest bit is set for a listener. -/
def pointer : Pointee → ℕ
  | .conn c => 2 * c
  | .listener => 1

/-- How `worker_run` reads a pointer. -/
def pointee (user : ℕ) : Pointee := if user % 2 = 1 then .listener else .conn (user / 2)

theorem pointee_pointer (owner : Pointee) : pointee (pointer owner) = owner := by
  cases owner with
  | listener => rfl
  | conn c =>
    have heven : ¬ 2 * c % 2 = 1 := by omega
    rw [pointer, pointee, if_neg heven, Nat.mul_div_cancel_left c Nat.two_pos]

/-- The entry of a watch. -/
def Watch.entry (w : Watch) : Pointee × Interest := (pointee w.user, readyBits w.interests)

/-- **Watches stand for a table**: each has its entry, and no two are for one socket. -/
structure Lists (ws : List Watch) (t : Table) : Prop where
  nodup : (ws.map Watch.socket).Nodup
  entry : ∀ w ∈ ws, t w.socket = some w.entry
  watch : ∀ fd e, t fd = some e → ∃ w ∈ ws, w.socket = fd

section Lists

variable {ws ws' : List Watch} {t : Table} {w old : Watch} {b : Backend} {i : ℕ}
  {front back : List Watch}

/-- Who is watched for is in the table. -/
theorem Lists.exists_watch_iff (h : Lists ws t) {fd : ℕ} {owner : Pointee} :
    (∃ w ∈ ws, w.socket = fd ∧ pointee w.user = owner) ↔
      ∃ interests, t fd = some (owner, interests) := by
  constructor
  · rintro ⟨w, hw, rfl, rfl⟩
    exact ⟨_, h.entry w hw⟩
  · rintro ⟨interests, hentry⟩
    obtain ⟨w, hw, rfl⟩ := h.watch _ _ hentry
    have hown := h.entry w hw
    rw [hentry] at hown
    cases hown
    exact ⟨w, hw, rfl, rfl⟩

theorem Lists.perm (h : Lists ws t) (hperm : ws.Perm ws') : Lists ws' t := by
  refine ⟨(hperm.map _).nodup_iff.mp h.nodup, fun w hw => h.entry w (hperm.mem_iff.mpr hw), ?_⟩
  intro fd e he
  obtain ⟨w, hw, hfd⟩ := h.watch fd e he
  exact ⟨w, hperm.mem_iff.mp hw, hfd⟩

/-- A socket that was not watched. -/
theorem Lists.cons (h : Lists ws t) (hnew : w.socket ∉ ws.map Watch.socket) :
    Lists (w :: ws) (Function.update t w.socket (some w.entry)) := by
  refine ⟨List.nodup_cons.mpr ⟨hnew, h.nodup⟩, fun w' hw' => ?_, fun fd e he => ?_⟩
  · rcases List.mem_cons.mp hw' with rfl | hw'
    · exact Function.update_self _ _ _
    · have hne : w'.socket ≠ w.socket := fun heq =>
        hnew (heq ▸ List.mem_map_of_mem hw')
      rw [Function.update_of_ne hne]
      exact h.entry w' hw'
  · by_cases hfd : fd = w.socket
    · exact ⟨w, List.mem_cons_self, hfd.symm⟩
    · rw [Function.update_of_ne hfd] at he
      obtain ⟨w', hw', hsocket⟩ := h.watch fd e he
      exact ⟨w', List.mem_cons_of_mem _ hw', hsocket⟩

/-- A watch is given up. -/
theorem Lists.tail (h : Lists (w :: ws) t) : Lists ws (Function.update t w.socket none) := by
  obtain ⟨hnot, hnodup⟩ := List.nodup_cons.mp h.nodup
  refine ⟨hnodup, fun w' hw' => ?_, fun fd e he => ?_⟩
  · have hne : w'.socket ≠ w.socket := fun heq => hnot (heq ▸ List.mem_map_of_mem hw')
    rw [Function.update_of_ne hne]
    exact h.entry w' (List.mem_cons_of_mem _ hw')
  · by_cases hfd : fd = w.socket
    · subst hfd
      rw [Function.update_self] at he
      cases he
    · rw [Function.update_of_ne hfd] at he
      obtain ⟨w', hw', hsocket⟩ := h.watch fd e he
      rcases List.mem_cons.mp hw' with rfl | hw'
      · exact absurd hsocket.symm hfd
      · exact ⟨w', hw', hsocket⟩

/-- A watch is changed, for the same socket. -/
theorem Lists.replace (h : Lists (old :: ws) t) (hsocket : w.socket = old.socket) :
    Lists (w :: ws) (Function.update t w.socket (some w.entry)) := by
  have hnew : w.socket ∉ ws.map Watch.socket := hsocket ▸ (List.nodup_cons.mp h.nodup).1
  have hchanged := h.tail.cons hnew
  rwa [← hsocket, Function.update_idem] at hchanged

/-- The active watches, with that of one slot first. -/
theorem active_perm (hwatches : b.watches = front ++ w :: back) :
    b.active.Perm ((if w.active then [w] else []) ++ (front ++ back).filter Watch.active) := by
  rw [Backend.active, hwatches, List.filter_append, List.filter_append, List.filter_cons]
  split_ifs
  · exact List.perm_middle
  · exact List.Perm.refl _

theorem setWatch_watches (hwatches : b.watches = front ++ old :: back) (hi : front.length = i) :
    (b.setWatch i w).watches = front ++ w :: back := by
  show b.watches.set i w = _
  rw [hwatches, ← hi, List.set_append_right _ _ le_rfl, Nat.sub_self, List.set_cons_zero]

/-- **A slot is written**: the other active watches stay. -/
theorem lists_setWatch {t' : Table} (h : Lists b.active t)
    (hwatches : b.watches = front ++ old :: back) (hi : front.length = i)
    (hwrite : ∀ ws, Lists ((if old.active then [old] else []) ++ ws) t →
      Lists ((if w.active then [w] else []) ++ ws) t') : Lists (b.setWatch i w).active t' :=
  (hwrite _ (h.perm (active_perm hwatches))).perm
    (active_perm (setWatch_watches hwatches hi)).symm

/-! ### Calls -/

variable {created : Option ℕ} {selected : Rc} {fd : Int} {events : UInt32} {user : ℕ} {b' : Backend}

/-- The slot of a socket holds an active watch for it. -/
theorem exists_found {socket : ℕ} (hfind : findWatch b socket = some i) :
    ∃ front old back, b.watches = front ++ old :: back ∧ front.length = i ∧ old.active = true ∧
      old.socket = socket := by
  obtain ⟨front, old, back, hwatches, hi, hold⟩ := exists_split hfind
  obtain ⟨hactive, hsocket⟩ := Bool.and_eq_true_iff.mp hold
  exact ⟨front, old, back, hwatches, hi, hactive, of_decide_eq_true hsocket⟩

/-- A socket without a slot is not watched. -/
theorem not_mem_of_findWatch {socket : ℕ} (hfind : findWatch b socket = none) :
    socket ∉ b.active.map Watch.socket := by
  intro hmem
  obtain ⟨w, hw, hsocket⟩ := List.mem_map.mp hmem
  obtain ⟨hwatch, hactive⟩ := List.mem_filter.mp hw
  have hnot := List.findIdx?_eq_none_iff.mp hfind w hwatch
  rw [hactive, hsocket, decide_eq_true rfl] at hnot
  cases hnot

theorem findWatch_of_none (h : Lists b.active t) {socket : ℕ} (hnone : t socket = none) :
    findWatch b socket = none := by
  cases hfind : findWatch b socket with
  | none => rfl
  | some i =>
    obtain ⟨front, old, back, hwatches, -, hactive, hsocket⟩ := exists_found hfind
    have hmem : old ∈ b.active := by
      refine List.mem_filter.mpr ⟨?_, hactive⟩
      rw [hwatches]
      exact List.mem_append_right _ List.mem_cons_self
    have hentry := h.entry old hmem
    rw [hsocket, hnone] at hentry
    cases hentry

/-- A free slot is taken for a socket that is not watched. -/
theorem lists_take (h : Lists b.active t) {event : ℕ} (hfind : findWatch b fd.toNat = none)
    (halloc : allocWatch b = some i) :
    Lists (b.setWatch i ⟨fd.toNat, event, events, user, true⟩).active
      (Function.update t fd.toNat (some (pointee user, readyBits events))) := by
  obtain ⟨front, old, back, hwatches, hi, hold⟩ := exists_split halloc
  have hfree : old.active = false := by simpa using hold
  have hnot := not_mem_of_findWatch hfind
  have hrest : b.active.Perm ((front ++ back).filter Watch.active) := by
    have hperm := active_perm hwatches
    rwa [hfree, if_neg Bool.false_ne_true, List.nil_append] at hperm
  have htaken := (h.perm hrest).cons (w := ⟨fd.toNat, event, events, user, true⟩)
    fun hmem => hnot ((hrest.map _).mem_iff.mpr hmem)
  have hperm := active_perm
    (setWatch_watches (w := ⟨fd.toNat, event, events, user, true⟩) hwatches hi)
  exact htaken.perm hperm.symm

/-- **A registration that succeeds** has its entry in the table. -/
theorem lists_register (h : Lists b.active t) (hfd : 0 ≤ fd)
    (hregister : register created selected b fd events user = (.ok, b')) :
    Lists b'.active (Function.update t fd.toNat (some (pointee user, readyBits events))) := by
  simp only [register, if_neg (not_lt.mpr hfd)] at hregister
  cases hfind : findWatch b fd.toNat with
  | some i =>
    -- the watch that is there keeps its socket
    rw [hfind] at hregister
    obtain ⟨-, rfl⟩ := Prod.mk.inj hregister
    obtain ⟨front, old, back, hwatches, hi, hactive, hsocket⟩ := exists_found hfind
    have hget : b.watches.getD i Watch.zero = old := by
      rw [hwatches, ← hi]
      simp
    rw [hget]
    refine lists_setWatch h hwatches hi fun ws hws => ?_
    rw [if_pos hactive] at hws
    have hnew : ({ old with interests := events, user := user } : Watch).active = true := hactive
    rw [if_pos hnew, ← hsocket]
    exact Lists.replace (w := { old with interests := events, user := user }) hws rfl
  | none =>
    rw [hfind] at hregister
    cases halloc : allocWatch b with
    | none =>
      rw [halloc] at hregister
      cases hregister
    | some i =>
      rw [halloc] at hregister
      cases created with
      | none => cases hregister
      | some event =>
        obtain ⟨-, rfl⟩ := Prod.mk.inj hregister
        exact lists_take h hfind halloc

/-- **A socket that is removed** has no entry. -/
theorem lists_remove (h : Lists b.active t) (hfd : 0 ≤ fd) :
    Lists (remove b fd).2.active (Function.update t fd.toNat none) := by
  simp only [remove, if_neg (not_lt.mpr hfd)]
  cases hfind : findWatch b fd.toNat with
  | some i =>
    obtain ⟨front, old, back, hwatches, hi, hactive, hsocket⟩ := exists_found hfind
    refine lists_setWatch h hwatches hi fun ws hws => ?_
    rw [hactive, if_pos rfl] at hws
    rw [← hsocket]
    exact hws.tail
  | none =>
    have hsame : Function.update t fd.toNat none = t := by
      refine Function.update_eq_self_iff.mpr ?_
      cases hentry : t fd.toNat with
      | none => rfl
      | some e =>
        obtain ⟨w, hw, hsocket⟩ := h.watch _ _ hentry
        exact absurd (List.mem_map.mpr ⟨w, hw, hsocket⟩) (not_mem_of_findWatch hfind)
    rw [hsame]
    exact h

/-- **A registration that fails** leaves nothing once the socket is removed: the slot is taken before
the system is asked. -/
theorem lists_refuse (h : Lists b.active t) (hfd : 0 ≤ fd) (hnone : t fd.toNat = none)
    (hregister : (register created selected b fd events user).1 = .err) :
    Lists (remove (register created selected b fd events user).2 fd).2.active t := by
  have hfind := findWatch_of_none h hnone
  have hunused : Function.update t fd.toNat none = t := Function.update_eq_self_iff.mpr hnone.symm
  have hremoved : Lists (remove b fd).2.active t := by
    have hgone := lists_remove h hfd
    rwa [hunused] at hgone
  simp only [register, if_neg (not_lt.mpr hfd), hfind] at hregister ⊢
  cases halloc : allocWatch b with
  | none => exact hremoved
  | some i =>
    cases created with
    | none => exact hremoved
    | some event =>
      have htaken : Lists (b.setWatch i ⟨fd.toNat, event, events, user, true⟩).active _ :=
        lists_take h hfind halloc
      have hgone := lists_remove htaken hfd
      rwa [Function.update_idem, hunused] at hgone

end Lists

/-! ## Reports and the table -/

/-- An event in the loop of `worker_run`; a wake-up is `none`. -/
def Event.report (event : Event) : Option Report :=
  if event.events &&& backendWake ≠ 0 then none
  else some ⟨event.fd.toNat, pointee event.user, readyBits event.events⟩

section Polls

variable {b : Backend} {t : Table} {fd : ℕ}

theorem readiness_report (recorded : UInt32) (w : Watch) :
    Event.report ⟨w.socket, readiness recorded, w.user⟩ =
      some ⟨w.socket, pointee w.user, readyBits (readiness recorded)⟩ := by
  have hwake : ¬ readiness recorded &&& backendWake ≠ 0 := by
    unfold readiness
    split_ifs <;> decide
  rw [Event.report, if_neg hwake]
  rfl

/-- **Every event is for a watch of its own**, in the order of the handles. -/
theorem report_watches (enumerate : ℕ → ℕ → Option UInt32) (items : List (ℕ × Option Watch))
    (room : ℕ) (signalled : ℕ → Bool) : ∃ pairs : List (Watch × Interest),
      (pairs.map Prod.fst).Sublist (items.filterMap Prod.snd) ∧
      (report enumerate items room signalled).filterMap Event.report =
        pairs.map fun p => ⟨p.1.socket, pointee p.1.user, p.2⟩ := by
  induction items generalizing room signalled with
  | nil => exact ⟨[], List.Sublist.refl _, by simp [report]⟩
  | cons item items ih =>
    obtain ⟨handle, watch⟩ := item
    -- a handle that is passed over
    have hskip (room : ℕ) (signalled : ℕ → Bool) : ∃ pairs : List (Watch × Interest),
        (pairs.map Prod.fst).Sublist (((handle, watch) :: items).filterMap Prod.snd) ∧
        (report enumerate items room signalled).filterMap Event.report =
          pairs.map fun p => ⟨p.1.socket, pointee p.1.user, p.2⟩ := by
      obtain ⟨pairs, hsublist, heq⟩ := ih room signalled
      exact ⟨pairs, hsublist.trans ((List.sublist_cons_self _ _).filterMap _), heq⟩
    cases room with
    | zero => exact ⟨[], List.nil_sublist _, by simp [report]⟩
    | succ room =>
      rw [report.eq_def]
      dsimp only
      split_ifs with hset
      · exact hskip (room + 1) signalled
      · cases watch with
        | none =>
          have hwake : Event.report ⟨-1, backendWake, 0⟩ = none := if_pos (by decide)
          rw [List.filterMap_cons_none hwake]
          exact hskip room _
        | some w =>
          dsimp only
          cases enumerate w.socket w.event with
          | none => exact hskip (room + 1) signalled
          | some recorded =>
            dsimp only
            split_ifs
            · obtain ⟨pairs, hsublist, heq⟩ := ih room (Function.update signalled w.event false)
              refine ⟨(w, readyBits (readiness recorded)) :: pairs, hsublist.cons_cons w, ?_⟩
              rw [List.filterMap_cons_some (readiness_report recorded w), heq]
              rfl
            · exact hskip (room + 1) _

/-- One of the sockets is looked for, and no two are the same. -/
theorem length_filterMap_of_nodup {pairs : List (Watch × Interest)} {p : Watch × Interest}
    (hnodup : (pairs.map fun p => p.1.socket).Nodup) (hp : p ∈ pairs) :
    (pairs.filterMap fun q => if q.1.socket = p.1.socket then some q.2 else none).length = 1 := by
  induction pairs with
  | nil => cases hp
  | cons q pairs ih =>
    obtain ⟨hnot, hrest⟩ := List.nodup_cons.mp hnodup
    rcases List.mem_cons.mp hp with rfl | hp
    · -- no other one has its socket
      have hnone : pairs.filterMap (fun q => if q.1.socket = p.1.socket then some q.2 else none) =
          [] := by
        refine List.filterMap_eq_nil_iff.mpr fun q hq => if_neg fun heq => hnot ?_
        exact List.mem_map.mpr ⟨q, hq, heq⟩
      rw [List.filterMap_cons, if_pos rfl, hnone]
      rfl
    · have hne : q.1.socket ≠ p.1.socket := fun heq =>
        hnot (List.mem_map.mpr ⟨p, hp, heq.symm⟩)
      rw [List.filterMap_cons, if_neg hne]
      exact ih hrest hp

/-- **What Windows reports is in the table**, with one event for a socket. -/
theorem reports_of_lists (h : Lists b.active t) (enumerate : ℕ → ℕ → Option UInt32)
    (start room : ℕ) (signalled : ℕ → Bool) :
    t.Reports
      ((report enumerate ((pollHandles b).drop start) room signalled).map Event.report) := by
  obtain ⟨pairs, hsublist, heq⟩ :=
    report_watches enumerate ((pollHandles b).drop start) room signalled
  generalize report enumerate ((pollHandles b).drop start) room signalled = events at heq ⊢
  -- the watches that are reported are active ones, each once
  have hactive : (pairs.map Prod.fst).Sublist b.active := by
    have hhandles : (pollHandles b).filterMap Prod.snd = b.active.take (maximumWaitObjects - 1) := by
      rw [pollHandles_eq, List.filterMap_cons_none rfl, List.filterMap_map]
      exact List.filterMap_some
    refine (hsublist.trans ((List.drop_sublist start _).filterMap _)).trans ?_
    rw [hhandles]
    exact List.take_sublist _ _
  have hnodup : (pairs.map fun p => p.1.socket).Nodup := by
    have hsockets := h.nodup.sublist (hactive.map Watch.socket)
    rwa [List.map_map] at hsockets
  have hready (fd : ℕ) : readyOf fd (events.map Event.report) =
      pairs.filterMap fun p => if p.1.socket = fd then some p.2 else none := by
    have hreports : readyOf fd (events.map Event.report) =
        (events.filterMap Event.report).filterMap fun r =>
          if r.fd = fd then some r.ready else none := by
      rw [List.filterMap_filterMap, readyOf, List.filterMap_map]
      rfl
    rw [hreports, heq, List.filterMap_map]
    rfl
  intro r hr
  have hmem : r ∈ events.filterMap Event.report := by
    obtain ⟨event, hevent, hreport⟩ := List.mem_map.mp hr
    exact List.mem_filterMap.mpr ⟨event, hevent, hreport⟩
  rw [heq] at hmem
  obtain ⟨p, hp, rfl⟩ := List.mem_map.mp hmem
  have hwatch : p.1 ∈ b.active := hactive.subset (List.mem_map_of_mem hp)
  refine ⟨readyBits p.1.interests, h.entry p.1 hwatch, .inl ?_⟩
  rw [hready]
  exact length_filterMap_of_nodup hnodup hp

end Polls

/-- The loop of `wirecall_server_listen` over the listeners, with the event objects that are created
for them. It ends at the first registration that fails. -/
def listen : List (ℕ × ℕ) → Backend → Option Backend
  | [], b => some b
  | (fd, event) :: rest, b =>
    match register (some event) .ok b fd backendRead (pointer .listener) with
    | (.ok, b) => listen rest b
    | (.err, _) => none

theorem lists_listen {sockets : List (ℕ × ℕ)} {b b' : Backend} (done : List ℕ)
    (h : Lists b.active (.listening done)) (hlisten : listen sockets b = some b') :
    Lists b'.active (.listening (done ++ sockets.map Prod.fst)) := by
  induction sockets generalizing b done with
  | nil =>
    cases hlisten
    rwa [List.map_nil, List.append_nil]
  | cons socket sockets ih =>
    obtain ⟨fd, event⟩ := socket
    rw [listen] at hlisten
    cases hregister : register (some event) .ok b fd backendRead (pointer .listener) with
    | mk rc b₁ =>
      rw [hregister] at hlisten
      cases rc with
      | err => cases hlisten
      | ok =>
        have hnext := lists_register h (Int.natCast_nonneg fd) hregister
        have hupdate : Table.listening (done ++ [fd]) =
            Function.update (Table.listening done) (fd : ℤ).toNat
              (some (pointee (pointer .listener), readyBits backendRead)) := by
          have hentry : (pointee (pointer .listener), readyBits backendRead) =
              (Pointee.listener, ⟨true, false⟩) := by decide
          rw [hentry, Int.toNat_natCast]
          funext fd'
          by_cases hfd : fd' = fd
          · subst hfd
            simp [Table.listening]
          · simp [Table.listening, hfd]
        rw [← hupdate] at hnext
        have hall := ih (done ++ [fd]) hnext hlisten
        rwa [List.append_assoc] at hall

end Windows

/-! ## A worker on Windows -/

/-- A call at the Windows backend, with the answers of the system. -/
inductive WindowsCall : Windows.Backend → WatchCall → Windows.Backend → Prop
  | set {b b' : Windows.Backend} {fd : Int} {interests : Interest} {owner : Pointee} {ok : Bool}
      (created : Option ℕ) (selected : Rc)
      (hregister : Windows.register created selected b fd interests.bits (Windows.pointer owner) =
        (if ok then .ok else .err, b')) :
      WindowsCall b (.set ok fd interests owner) b'
  | refuse {b : Windows.Backend} {fd : Int} {owner : Pointee} (created : Option ℕ) (selected : Rc)
      (hregister : (Windows.register created selected b fd backendRead
        (Windows.pointer owner)).1 = .err) :
      WindowsCall b (.refuse fd owner)
        (Windows.remove (Windows.register created selected b fd backendRead
          (Windows.pointer owner)).2 fd).2
  | remove (b : Windows.Backend) (fd : Int) : WindowsCall b (.remove fd) (Windows.remove b fd).2

/-- A poll on Windows, as the loop of `worker_run` sees it. -/
def WindowsPolls (b : Windows.Backend) (notes : List (Option Report)) (b' : Windows.Backend) : Prop :=
  ∃ os wait maxEvents events, Windows.poll os wait b maxEvents = some events ∧
    notes = events.map Windows.Event.report ∧ b' = b

section Windows

variable {b b' : Windows.Backend} {t : Table}

theorem WindowsCall.holds {k : WatchCall} (hcall : WindowsCall b k b')
    (h : Windows.Lists b.active t) (hallows : t.Allows k) :
    Windows.Lists b'.active (t.call k) := by
  cases hcall with
  | @set _ fd interests owner ok created selected hregister =>
    obtain rfl : ok = true := hallows
    by_cases hfd : 0 ≤ fd
    · have hset := Windows.lists_register h hfd hregister
      rw [Windows.pointee_pointer, readyBits_bits] at hset
      rwa [Table.call, if_pos ⟨rfl, hfd⟩]
    · simp only [Windows.register, if_pos (not_le.mp hfd)] at hregister
      cases hregister
  | @refuse fd owner created selected hregister =>
    exact Windows.lists_refuse h hallows.1 hallows.2 hregister
  | remove fd =>
    by_cases hfd : 0 ≤ fd
    · rw [Table.call, if_pos hfd]
      exact Windows.lists_remove h hfd
    · rw [Table.call, if_neg hfd, Windows.remove, if_pos (not_le.mp hfd)]
      exact h

theorem WindowsPolls.holds {notes : List (Option Report)} (hpoll : WindowsPolls b notes b')
    (h : Windows.Lists b.active t) : Windows.Lists b'.active t ∧ t.Reports notes := by
  obtain ⟨os, wait, maxEvents, events, hpoll, rfl, rfl⟩ := hpoll
  refine ⟨h, ?_⟩
  unfold Windows.poll at hpoll
  split_ifs at hpoll
  cases wait with
  | timeout =>
    cases hpoll
    intro r hr
    cases hr
  | failed => cases hpoll
  | event start =>
    cases hpoll
    exact Windows.reports_of_lists h os.enumerate start _ os.signalled

end Windows

/-- **The array of watches stands for a table.** The wake event is not in the array. -/
def windowsWatcher : Watcher Windows.Backend where
  call := WindowsCall
  poll := WindowsPolls
  move := fun b b' => b' = b
  Holds := fun b t => Windows.Lists b.active t
  holds_call := fun h hallows hcall => hcall.holds h hallows
  holds_poll := fun h hpoll => hpoll.holds h
  holds_move := fun h hmove => hmove ▸ h

/-- **A worker on Windows finds the connection of every event**, as one on kqueue does, if changes of
interests succeed and no descriptor is handed out while it is in use: the active watches that point
to connections are those of the connections that the worker has, and those that point to listeners
are those of the listeners. -/
theorem lifecycle_on_windows (cfg : ServerConfig) {env : ℕ → Env}
    (hmodify : ∀ t, (env t).modify = true) {wakeEvent : ℕ} {sockets : List (ℕ × ℕ)}
    (hsockets : (sockets.map Prod.fst).Nodup) {b : Windows.Backend}
    (hlisten : Windows.listen sockets (Windows.create wakeEvent) = some b)
    {s : Watching Windows.Backend}
    (hrun : Relation.ReflTransGen
      (WatchingStep cfg env windowsWatcher (sockets.map Prod.fst)) ⟨Loop.init, b⟩ s) :
    Lifecycle s.loop.worker ∧
      (∀ batch, s.loop.phase = .events batch → ∀ c ready, .conn c ready ∈ batch →
        c ∈ s.loop.worker.connections) ∧
      (∀ fd c : ℕ, (∃ w ∈ s.backend.active, w.socket = fd ∧ Windows.pointee w.user = .conn c) ↔
        c ∈ s.loop.worker.connections ∧ (s.loop.worker.conns c).fd = fd) ∧
      ∀ fd : ℕ, (∃ w ∈ s.backend.active, w.socket = fd ∧ Windows.pointee w.user = .listener) ↔
        fd ∈ sockets.map Prod.fst := by
  have hcreate : Windows.Lists (Windows.create wakeEvent).active (.listening []) := by
    have hnone : (Windows.create wakeEvent).active = [] :=
      List.filter_eq_nil_iff.mpr fun w hw => by
        rw [List.eq_of_mem_replicate hw]
        exact Bool.false_ne_true
    rw [hnone]
    refine ⟨List.nodup_nil, fun w hw => (by cases hw), fun fd e he => ?_⟩
    cases he
  have hholds := Windows.lists_listen [] hcreate hlisten
  have hstep : s.InStep windowsWatcher (sockets.map Prod.fst) :=
    Watching.inStep_of_run hmodify hsockets hholds hrun
  obtain ⟨t, ht⟩ := hstep.table
  have hlists : Windows.Lists s.backend.active t := ht.holds
  refine ⟨hstep.inOrder.inv.lifecycle, fun batch hphase c ready hevent => ?_, fun fd c => ?_,
    fun fd => ?_⟩
  · exact (hstep.inOrder.due batch hphase _ hevent).1
  · rw [hlists.exists_watch_iff]
    constructor
    · rintro ⟨interests, hentry⟩
      obtain ⟨hc, hfd, -⟩ := ht.watched.conn_of_entry hentry
      exact ⟨hc, hfd⟩
    · rintro ⟨hc, hfd⟩
      exact ⟨_, ht.watched.entry_of_conn hc hfd⟩
  · rw [hlists.exists_watch_iff]
    constructor
    · rintro ⟨interests, hentry⟩
      exact (ht.watched.listener_of_entry hentry).1
    · intro hfd
      exact ⟨_, ht.watched.listener fd hfd⟩

/-- The backend with a listener on socket 3. -/
def windowsListening : Windows.Backend :=
  (Windows.register (some 7) .ok (Windows.create 0) (3 : ℕ) backendRead
    (Windows.pointer .listener)).2

/-- The same with the connection of socket 5. -/
def windowsConnected : Windows.Backend :=
  (Windows.register (some 8) .ok windowsListening 5 backendRead (Windows.pointer (.conn 0))).2

/-- A socket is accepted while the worker sleeps, and there is input on it at once. -/
theorem lifecycle_on_windows_accept : ∃ s : Watching Windows.Backend,
    Relation.ReflTransGen (WatchingStep .plain (fun _ => .quiet) windowsWatcher [3])
      ⟨Loop.init, windowsListening⟩ s ∧
      s.loop.phase = .events [.conn 0 ⟨true, false⟩] ∧ 0 ∈ s.loop.worker.connections := by
  let cfg := ServerConfig.plain
  let env : ℕ → Env := fun _ => .quiet
  let start := windowsListening
  let w : Worker := { workerInit with pendingFds := [5] }
  let w' := drainCompleted cfg env (drainPending cfg env w)
  let w'' := flushWrites cfg env (fun _ => []) (drainCompleted cfg env w')
  have hlisten : Windows.listen [(3, 7)] (Windows.create 0) = some windowsListening := by
    have hok : (Windows.register (some 7) .ok (Windows.create 0) (3 : ℕ) backendRead
        (Windows.pointer .listener)).1 = .ok := by decide +kernel
    have heq : Windows.register (some 7) .ok (Windows.create 0) (3 : ℕ) backendRead
        (Windows.pointer .listener) = (.ok, windowsListening) :=
      Prod.ext hok (by rw [windowsListening])
    rw [Windows.listen, heq]
    rfl
  have hset : WindowsCall start (.set true 5 ⟨true, false⟩ (.conn 0)) windowsConnected := by
    have hok : (Windows.register (some 8) .ok windowsListening 5 backendRead
        (Windows.pointer (.conn 0))).1 = .ok := by decide +kernel
    have heq : Windows.register (some 8) .ok windowsListening 5 backendRead
        (Windows.pointer (.conn 0)) = (.ok, windowsConnected) :=
      Prod.ext hok (by rw [windowsConnected])
    exact .set (some 8) .ok heq
  have haccept : WatchingStep cfg env windowsWatcher [3] ⟨Loop.init, start⟩ ⟨⟨w, .poll⟩, start⟩ :=
    .work (l := .accept 5) trivial rfl (.act .refl (.accept workerInit [5]) (by decide) rfl)
  have hwoken : WindowsPolls start [none] start := by
    refine ⟨⟨fun event => event = 0, fun _ _ => none⟩, .event 0, 16, [⟨-1, backendWake, 0⟩],
      ?_, ?_, rfl⟩
    · decide +kernel
    · decide +kernel
  have hpoll : WatchingStep cfg env windowsWatcher [3] ⟨⟨w, .poll⟩, start⟩
      ⟨⟨w, .events [.wake]⟩, start⟩ := .poll hwoken (.cons .wake .nil)
  have hadd : WatchingStep cfg env windowsWatcher [3] ⟨⟨w, .events [.wake]⟩, start⟩
      ⟨⟨w', .events []⟩, windowsConnected⟩ := by
    have htake : Performs cfg env windowsWatcher [3] w.mid start
        ⟨{ w with pendingFds := [] }, [], [], [5]⟩ start :=
      .act .refl (.takeFds w) (by decide) rfl
    have hadded : Performs cfg env windowsWatcher [3] w.mid start
        ⟨drainPending cfg env w, [], [], []⟩ windowsConnected :=
      .act htake (.add _ 5 []) (by decide) ⟨windowsConnected, hset, rfl⟩
    exact .work (l := .event [] []) trivial rfl (.act hadded (.takeDone _) (by decide) rfl)
  have hschedule : WatchingStep cfg env windowsWatcher [3] ⟨⟨w', .events []⟩, windowsConnected⟩
      ⟨⟨w', .schedule⟩, windowsConnected⟩ := .work (l := .schedule) trivial rfl .refl
  have hfinish : WatchingStep cfg env windowsWatcher [3] ⟨⟨w', .schedule⟩, windowsConnected⟩
      ⟨⟨w'', .poll⟩, windowsConnected⟩ := by
    have hdone : Performs cfg env windowsWatcher [3] w'.mid windowsConnected
        (drainCompleted cfg env w').mid windowsConnected :=
      .act .refl (.takeDone w') (by decide) rfl
    exact .work (l := .finish fun _ => []) trivial rfl
      (.act hdone (.takeWrites _) (by decide) rfl)
  have hready : WindowsPolls windowsConnected [some ⟨5, .conn 0, ⟨true, false⟩⟩]
      windowsConnected := by
    refine ⟨⟨fun event => event = 8, fun _ _ => some Windows.fdRead⟩, .event 2, 16,
      [⟨5, backendRead, 0⟩], ?_, ?_, rfl⟩
    · decide +kernel
    · decide +kernel
  have hinput : WatchingStep cfg env windowsWatcher [3] ⟨⟨w'', .poll⟩, windowsConnected⟩
      ⟨⟨w'', .events [.conn 0 ⟨true, false⟩]⟩, windowsConnected⟩ :=
    .poll hready (.cons (.conn 5 0 ⟨true, false⟩) .nil)
  have hrun : Relation.ReflTransGen (WatchingStep cfg env windowsWatcher [3]) ⟨Loop.init, start⟩
      ⟨⟨w'', .events [.conn 0 ⟨true, false⟩]⟩, windowsConnected⟩ :=
    .tail (.tail (.tail (.tail (.tail (.single haccept) hpoll) hadd) hschedule) hfinish) hinput
  have hnodup : ([(3, 7)].map Prod.fst).Nodup := List.nodup_singleton 3
  have hfound := (lifecycle_on_windows cfg (fun _ => rfl) hnodup hlisten hrun).2.1
  exact ⟨_, hrun, rfl, hfound _ rfl 0 _ List.mem_cons_self⟩

end Wirecall

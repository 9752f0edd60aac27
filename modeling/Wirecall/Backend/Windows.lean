import Wirecall.Backend.IoUring
import Wirecall.Machine.Run

/-!
# The Windows backend

A watch has an event object that the system sets when its socket is ready, and
`wirecall_backend_poll` waits on the event objects of the watches. There is room for 1024 watches, but
the system waits on 64 objects at most, and the first of them is the wake event: the watches in the
slots after the first 63 active ones are not polled. With up to 63 active watches every one is.

## Main definitions

* `Windows.Backend`, `register`, `remove`, `poll`: the functions of `windows.c`
* `Windows.Os`: what the system says about event objects while a poll runs

## Main results

* `pollHandles_eq`: the objects that a poll waits on
* `report_mem`: a watch whose event is set is reported when its turn comes
* `pollHandles_all_iff`: it waits for all watches exactly if they are at most 63
* `small_table_polled`: **up to 63 watches are all polled**
* `sixty_fourth_watch_missed`: the next one is not
-/

namespace Wirecall

namespace Windows

/-! ## Watches -/

/-- `WIRECALL_WINDOWS_MAX_WATCHES`. -/
def maxWatches : ℕ := 1024

/-- `MAXIMUM_WAIT_OBJECTS`. -/
def maximumWaitObjects : ℕ := 64

/-- `wirecall_backend_watch`; an event object is the number of its handle. -/
structure Watch where
  socket : ℕ
  event : ℕ
  interests : UInt32
  user : ℕ
  active : Bool
  deriving DecidableEq, Repr

/-- A watch full of zeros. -/
def Watch.zero : Watch := ⟨0, 0, 0, 0, false⟩

/-- `wirecall_backend`. -/
structure Backend where
  wakeEvent : ℕ
  watches : List Watch
  length_eq : watches.length = maxWatches

/-- `wirecall_backend_create`, with the handle of the wake event. -/
def create (wakeEvent : ℕ) : Backend where
  wakeEvent := wakeEvent
  watches := List.replicate maxWatches Watch.zero
  length_eq := List.length_replicate

/-- `find_watch`: the slot. -/
def findWatch (b : Backend) (socket : ℕ) : Option ℕ :=
  b.watches.findIdx? fun w => w.active && w.socket = socket

/-- `alloc_watch`: the slot. -/
def allocWatch (b : Backend) : Option ℕ := b.watches.findIdx? fun w => !w.active

/-- A slot is written. -/
def Backend.setWatch (b : Backend) (i : ℕ) (w : Watch) : Backend where
  wakeEvent := b.wakeEvent
  watches := b.watches.set i w
  length_eq := by rw [List.length_set, b.length_eq]

/-- `wirecall_backend_register`; `created` and `selected` are the answers of `WSACreateEvent` and
`WSAEventSelect`. -/
def register (created : Option ℕ) (selected : Rc) (b : Backend) (fd : ℤ) (events : UInt32)
    (user : ℕ) : Rc × Backend :=
  if fd < 0 then (.err, b)
  else
    match findWatch b fd.toNat with
    | some i =>
      (selected, b.setWatch i
        { b.watches.getD i Watch.zero with interests := events, user := user })
    | none =>
      match allocWatch b, created with
      | some i, some event => (selected, b.setWatch i ⟨fd.toNat, event, events, user, true⟩)
      | _, _ => (.err, b)

/-- `wirecall_backend_remove`. -/
def remove (b : Backend) (fd : ℤ) : Rc × Backend :=
  if fd < 0 then (.err, b)
  else
    match findWatch b fd.toNat with
    | some i => (.ok, b.setWatch i Watch.zero)
    | none => (.ok, b)

/-- The watches that are in use. -/
def Backend.active (b : Backend) : List Watch := b.watches.filter Watch.active

/-- The event objects that exist. -/
def Backend.openEvents (b : Backend) : List ℕ := b.wakeEvent :: b.active.map Watch.event

/-- A call. -/
inductive Call where
  | register (created : Option ℕ) (fd : ℤ) (events : UInt32) (user : ℕ)
  | remove (fd : ℤ)

/-- A call that succeeds; the system does not hand out an event object that exists. -/
def Backend.step (b : Backend) : Call → Option Backend
  | .register created fd events user =>
    if created.all fun event => event ∉ b.openEvents then
      match register created .ok b fd events user with
      | (.ok, b) => some b
      | (.err, _) => none
    else none
  | .remove fd =>
    match Windows.remove b fd with
    | (.ok, b) => some b
    | (.err, _) => none

/-! ## Polling -/

/-- `wirecall_backend_event`. -/
structure Event where
  fd : ℤ
  events : UInt32
  user : ℕ
  deriving DecidableEq, Repr

/-- `FD_READ`. -/
def fdRead : UInt32 := 0x01
/-- `FD_WRITE`. -/
def fdWrite : UInt32 := 0x02
/-- `FD_ACCEPT`. -/
def fdAccept : UInt32 := 0x08
/-- `FD_CLOSE`. -/
def fdClose : UInt32 := 0x20

/-- The first loop of `wirecall_backend_poll`: the handles with their watches, `count` of which are
there already. -/
def collect : List Watch → ℕ → List (ℕ × Option Watch)
  | [], _ => []
  | w :: ws, count =>
    if count < maximumWaitObjects then
      if w.active then (w.event, some w) :: collect ws (count + 1) else collect ws count
    else []

/-- `handles` with `watch_for_handle`. -/
def pollHandles (b : Backend) : List (ℕ × Option Watch) :=
  (b.wakeEvent, none) :: collect b.watches 1

/-- What the system says while a poll runs: the event objects that are set when the wait returns, and
the network events that `WSAEnumNetworkEvents` gives for a socket. -/
structure Os where
  signalled : ℕ → Bool
  enumerate : ℕ → ℕ → Option UInt32

/-- What `WSAWaitForMultipleEvents` returns. -/
inductive Wait where
  | timeout
  | failed
  | event (index : ℕ)

/-- The readiness that network events say. -/
def readiness (recorded : UInt32) : UInt32 :=
  (if recorded &&& (fdAccept ||| fdRead ||| fdClose) ≠ 0 then backendRead else 0) |||
    (if recorded &&& fdWrite ≠ 0 then backendWrite else 0)

/-- The second loop of `wirecall_backend_poll`, with the room that is left. `WSAResetEvent` and
`WSAEnumNetworkEvents` clear the event object. -/
def report (enumerate : ℕ → ℕ → Option UInt32) :
    List (ℕ × Option Watch) → ℕ → (ℕ → Bool) → List Event
  | [], _, _ => []
  | _, 0, _ => []
  | (handle, watch) :: rest, room + 1, signalled =>
    if signalled handle = false then report enumerate rest (room + 1) signalled
    else
      match watch with
      | none =>
        ⟨-1, backendWake, 0⟩ :: report enumerate rest room (Function.update signalled handle false)
      | some w =>
        match enumerate w.socket w.event with
        | none => report enumerate rest (room + 1) signalled
        | some recorded =>
          let signalled := Function.update signalled w.event false
          if readiness recorded ≠ 0 then
            ⟨w.socket, readiness recorded, w.user⟩ :: report enumerate rest room signalled
          else report enumerate rest (room + 1) signalled

/-- `wirecall_backend_poll`; `none` is the return value `-1`. -/
def poll (os : Os) (wait : Wait) (b : Backend) (maxEvents : ℤ) : Option (List Event) :=
  if maxEvents ≤ 0 then none
  else
    match wait with
    | .timeout => some []
    | .failed => none
    | .event start =>
      some (report os.enumerate ((pollHandles b).drop start) maxEvents.toNat os.signalled)

/-- The wait returns the first of the handles whose event object is set. -/
def Os.Returns (os : Os) (handles : List ℕ) (index : ℕ) : Prop :=
  (∃ handle, handles[index]? = some handle ∧ os.signalled handle = true) ∧
    ∀ j < index, ∀ handle, handles[j]? = some handle → os.signalled handle = false

/-! ## The handles -/

theorem collect_eq (ws : List Watch) (count : ℕ) :
    collect ws count =
      ((ws.filter Watch.active).take (maximumWaitObjects - count)).map fun w => (w.event, some w) := by
  induction ws generalizing count with
  | nil => simp [collect]
  | cons w ws ih =>
    unfold collect
    by_cases hcount : count < maximumWaitObjects
    · rw [if_pos hcount]
      cases hactive : w.active with
      | true =>
        rw [if_pos rfl, ih, List.filter_cons_of_pos hactive,
          show maximumWaitObjects - count = (maximumWaitObjects - (count + 1)) + 1 by omega,
          List.take_succ_cons, List.map_cons]
      | false =>
        rw [if_neg Bool.false_ne_true, ih, List.filter_cons_of_neg (by simp [hactive])]
    · rw [if_neg hcount, Nat.sub_eq_zero_of_le (Nat.le_of_not_lt hcount), List.take_zero,
        List.map_nil]

/-- **The wake event and the first 63 active watches.** -/
theorem pollHandles_eq (b : Backend) :
    pollHandles b = (b.wakeEvent, none) ::
      (b.active.take (maximumWaitObjects - 1)).map fun w => (w.event, some w) := by
  rw [pollHandles, collect_eq]
  rfl

/-! ## Event objects are distinct -/

/-- The slot that a search finds, among the other slots. -/
theorem exists_split {α : Type*} {p : α → Bool} {xs : List α} {i : ℕ} (h : xs.findIdx? p = some i) :
    ∃ front x back, xs = front ++ x :: back ∧ front.length = i ∧ p x = true := by
  obtain ⟨hi, hp, -⟩ := List.findIdx?_eq_some_iff_getElem.mp h
  refine ⟨xs.take i, xs[i], xs.drop (i + 1), ?_, ?_, hp⟩
  · rw [← List.drop_eq_getElem_cons hi, List.take_append_drop]
  · rw [List.length_take]
    omega

section Slots

variable {b : Backend} {i : ℕ} {front back : List Watch} {old w : Watch}

/-- The event objects after a slot is written. -/
theorem openEvents_setWatch (hwatches : b.watches = front ++ old :: back) (hi : front.length = i) :
    (b.setWatch i w).openEvents =
      b.wakeEvent :: (((front ++ w :: back).filter Watch.active).map Watch.event) := by
  have hset : (b.setWatch i w).watches = front ++ w :: back := by
    show b.watches.set i w = _
    rw [hwatches, ← hi, List.set_append_right _ _ le_rfl, Nat.sub_self, List.set_cons_zero]
  rw [Backend.openEvents, Backend.active, hset]
  rfl

/-- A free slot is taken with a new event object. -/
theorem nodup_take (h : b.openEvents.Nodup) (hwatches : b.watches = front ++ old :: back)
    (hi : front.length = i) (hfree : old.active = false) (hnew : w.event ∉ b.openEvents) :
    (b.setWatch i w).openEvents.Nodup := by
  rw [openEvents_setWatch hwatches hi]
  rw [Backend.openEvents, Backend.active, hwatches] at h hnew
  simp only [List.filter_append, List.filter_cons, hfree, Bool.false_eq_true, if_false,
    List.map_append] at h hnew ⊢
  split_ifs
  · -- the new one among the others, in the place of its slot
    rw [List.map_cons]
    have hcons := List.nodup_cons.mpr ⟨hnew, h⟩
    refine hcons.perm ?_
    refine (List.Perm.swap _ _ _).trans (List.Perm.cons _ ?_)
    exact List.perm_middle.symm
  · exact h

/-- A slot keeps its event object, or is given up. -/
theorem nodup_keep (h : b.openEvents.Nodup) (hwatches : b.watches = front ++ old :: back)
    (hi : front.length = i) (hactive : old.active = true)
    (hkeep : w.active = true → w.event = old.event) : (b.setWatch i w).openEvents.Nodup := by
  rw [openEvents_setWatch hwatches hi]
  rw [Backend.openEvents, Backend.active, hwatches] at h
  simp only [List.filter_append, List.filter_cons, hactive, if_true, List.map_append,
    List.map_cons] at h ⊢
  split_ifs with hw
  · rw [List.map_cons, hkeep hw]
    exact h
  · refine h.sublist (List.Sublist.cons_cons _ ?_)
    exact List.Sublist.append (List.Sublist.refl _) (List.sublist_cons_self _ _)

end Slots

/-- **Every call keeps the event objects distinct.** -/
theorem nodup_step {b b' : Backend} {call : Call} (h : b.openEvents.Nodup)
    (hstep : b.step call = some b') : b'.openEvents.Nodup := by
  cases call with
  | register created fd events user =>
    simp only [Backend.step, register] at hstep
    split_ifs at hstep with hfresh hfd
    · cases hfind : findWatch b fd.toNat with
      | some i =>
        -- the watch that is there keeps its event object
        rw [hfind] at hstep
        cases hstep
        obtain ⟨front, old, back, hwatches, hi, hold⟩ := exists_split hfind
        have hget : b.watches.getD i Watch.zero = old := by
          rw [hwatches, ← hi]
          simp
        rw [hget]
        exact nodup_keep h hwatches hi (Bool.and_elim_left hold) fun _ => rfl
      | none =>
        rw [hfind] at hstep
        cases halloc : allocWatch b with
        | none =>
          rw [halloc] at hstep
          cases hstep
        | some i =>
          rw [halloc] at hstep
          cases created with
          | none => cases hstep
          | some event =>
            cases hstep
            obtain ⟨front, old, back, hwatches, hi, hold⟩ := exists_split halloc
            refine nodup_take h hwatches hi (by simpa using hold) ?_
            simpa using hfresh
  | remove fd =>
    simp only [Backend.step, Windows.remove] at hstep
    split_ifs at hstep with hfd
    cases hfind : findWatch b fd.toNat with
    | some i =>
      rw [hfind] at hstep
      cases hstep
      obtain ⟨front, old, back, hwatches, hi, hold⟩ := exists_split hfind
      refine nodup_keep h hwatches hi (Bool.and_elim_left hold) fun hzero => ?_
      cases hzero
    | none =>
      rw [hfind] at hstep
      cases hstep
      exact h

/-- The same over any sequence of calls. -/
theorem nodup_exec {wakeEvent : ℕ} {calls : List Call} {b : Backend}
    (hexec : Machine.exec Backend.step (create wakeEvent) calls = some b) : b.openEvents.Nodup := by
  have hmeets : Machine.Meets Backend.step (fun _ _ => True) (create wakeEvent) calls :=
    .of_forall fun _ _ _ => trivial
  have hstart : (create wakeEvent).openEvents = [wakeEvent] := by
    simp [Backend.openEvents, Backend.active, create, Watch.zero]
  exact Machine.exec_invariant (P := fun b => b.openEvents.Nodup)
    (fun _ _ _ h _ hstep => nodup_step h hstep) (hstart ▸ List.nodup_singleton wakeEvent) hmeets hexec

/-! ## Reports -/

section Reports

variable {enumerate : ℕ → ℕ → Option UInt32} {items : List (ℕ × Option Watch)} {w : Watch}
  {recorded : UInt32}

/-- **A watch whose event is set is reported when its turn comes**, unless the array is full. -/
theorem report_mem (hnodup : (items.map Prod.fst).Nodup)
    (hevents : ∀ handle w, (handle, some w) ∈ items → handle = w.event)
    (hmem : (w.event, some w) ∈ items) (henumerate : enumerate w.socket w.event = some recorded)
    (hready : readiness recorded ≠ 0) (room : ℕ) (signalled : ℕ → Bool)
    (hsignalled : signalled w.event = true) :
    ⟨w.socket, readiness recorded, w.user⟩ ∈ report enumerate items room signalled ∨
      (report enumerate items room signalled).length = room := by
  induction items generalizing room signalled with
  | nil => cases hmem
  | cons item items ih =>
    obtain ⟨handle, watch⟩ := item
    cases room with
    | zero => exact .inr (by simp [report])
    | succ room =>
      have hnodup' := (List.nodup_cons.mp hnodup).2
      have hevents' : ∀ handle w, (handle, some w) ∈ items → handle = w.event :=
        fun handle w h => hevents handle w (List.mem_cons_of_mem _ h)
      rcases List.mem_cons.mp hmem with heq | hlater
      · -- its turn
        cases heq
        left
        rw [report, if_neg (by simp [hsignalled])]
        simp only [henumerate, if_pos hready]
        exact List.mem_cons_self
      · -- the turn of another one, which does not clear its event object
        have hne : w.event ≠ handle := by
          intro heq
          apply (List.nodup_cons.mp hnodup).1
          rw [← heq]
          exact List.mem_map.mpr ⟨_, hlater, rfl⟩
        have hkept : Function.update signalled handle false w.event = true := by
          rw [Function.update_of_ne hne, hsignalled]
        have hnext := fun room signalled => ih hnodup' hevents' hlater room signalled
        rw [report.eq_def]
        dsimp only
        split_ifs with hset
        · exact hnext (room + 1) signalled hsignalled
        · cases watch with
          | none =>
            rcases hnext room _ hkept with hreported | hfull
            · exact .inl (List.mem_cons_of_mem _ hreported)
            · exact .inr (by rw [List.length_cons, hfull])
          | some other =>
            have hhandle : handle = other.event := hevents handle other List.mem_cons_self
            rw [hhandle] at hkept
            dsimp only
            cases enumerate other.socket other.event with
            | none => exact hnext (room + 1) signalled hsignalled
            | some recorded =>
              dsimp only
              split_ifs
              · rcases hnext room _ hkept with hreported | hfull
                · exact .inl (List.mem_cons_of_mem _ hreported)
                · exact .inr (by rw [List.length_cons, hfull])
              · exact hnext (room + 1) _ hkept

end Reports

/-- **A poll waits for all watches exactly if they are at most 63**: event objects are distinct, so
that of the next watch is not among those of the first 63. -/
theorem pollHandles_all_iff (hnodup : b.openEvents.Nodup) :
    (∀ w ∈ b.active, w.event ∈ (pollHandles b).map Prod.fst) ↔
      b.active.length ≤ maximumWaitObjects - 1 := by
  obtain ⟨hwake, hevents⟩ := List.nodup_cons.mp hnodup
  rw [pollHandles_eq, List.map_cons, List.map_map]
  constructor
  · intro hall
    by_contra hlarge
    -- some watch is left out, and no other has its event object
    obtain ⟨w, hw⟩ := List.exists_mem_of_length_pos
      (show 0 < (b.active.drop (maximumWaitObjects - 1)).length by rw [List.length_drop]; omega)
    have hsplit : (b.active.take (maximumWaitObjects - 1)).map Watch.event ++
        (b.active.drop (maximumWaitObjects - 1)).map Watch.event = b.active.map Watch.event := by
      rw [← List.map_append, List.take_append_drop]
    obtain ⟨-, -, hapart⟩ := List.nodup_append.mp (hsplit ▸ hevents)
    rcases List.mem_cons.mp (hall w (List.mem_of_mem_drop hw)) with heq | hin
    · refine hwake ?_
      rw [← show w.event = b.wakeEvent from heq]
      exact List.mem_map_of_mem (List.mem_of_mem_drop hw)
    · exact hapart w.event hin w.event (List.mem_map_of_mem hw) rfl
  · intro hsmall w hw
    rw [List.take_of_length_le hsmall]
    exact List.mem_cons_of_mem _ (List.mem_map_of_mem hw)

/-- The handles when every watch is polled. -/
theorem pollHandles_of_small (hsmall : b.active.length ≤ maximumWaitObjects - 1) :
    pollHandles b = (b.wakeEvent, none) :: b.active.map fun w => (w.event, some w) := by
  rw [pollHandles_eq, List.take_of_length_le hsmall]

/-- The handle of a watch is its event object. -/
theorem eq_event_of_mem_pollHandles {handle : ℕ} {w : Watch}
    (h : (handle, some w) ∈ pollHandles b) : handle = w.event := by
  rw [pollHandles_eq] at h
  rcases List.mem_cons.mp h with heq | hmap
  · cases heq
  · obtain ⟨other, -, heq⟩ := List.mem_map.mp hmap
    cases heq
    rfl

/-- What stands before the index that a wait returns is not set, so a watch whose event object is set
stands after it. -/
theorem Os.Returns.mem_drop {os : Os} {start : ℕ} {w : Watch}
    (h : os.Returns ((pollHandles b).map Prod.fst) start) (hsignalled : os.signalled w.event = true)
    (hw : (w.event, some w) ∈ pollHandles b) : (w.event, some w) ∈ (pollHandles b).drop start := by
  rw [← List.take_append_drop start (pollHandles b), List.mem_append] at hw
  rcases hw with hbefore | hafter
  · obtain ⟨j, hj, hget⟩ := List.mem_take_iff_getElem.mp hbefore
    have hunset := h.2 j (by omega) w.event (by
      rw [List.getElem?_map, List.getElem?_eq_getElem (by omega), hget]
      rfl)
    rw [hsignalled] at hunset
    cases hunset
  · exact hafter

/-- **Up to 63 watches are all polled**, and no more are: each has its event object among those that a
poll waits on, and is reported, as long as there is room, when that is set and network events are
recorded for its socket. -/
theorem small_table_polled {wakeEvent : ℕ} {calls : List Call} {b : Backend}
    (hexec : Machine.exec Backend.step (create wakeEvent) calls = some b) :
    ((∀ w ∈ b.active, w.event ∈ (pollHandles b).map Prod.fst) ↔
      b.active.length ≤ maximumWaitObjects - 1) ∧
      (b.active.length ≤ maximumWaitObjects - 1 →
        ∀ (os : Os) (start : ℕ) (maxEvents : ℤ) (events : List Event),
        os.Returns ((pollHandles b).map Prod.fst) start →
        poll os (.event start) b maxEvents = some events →
        ∀ w ∈ b.active, os.signalled w.event = true →
        ∀ recorded, os.enumerate w.socket w.event = some recorded → readiness recorded ≠ 0 →
          ⟨w.socket, readiness recorded, w.user⟩ ∈ events ∨ events.length = maxEvents) := by
  refine ⟨pollHandles_all_iff (nodup_exec hexec), ?_⟩
  intro hsmall os start maxEvents events hreturns hpoll w hw hsignalled recorded henumerate hready
  have hhandles := pollHandles_of_small hsmall
  have hfst : (pollHandles b).map Prod.fst = b.openEvents := by
    rw [hhandles, List.map_cons, List.map_map]
    rfl
  unfold poll at hpoll
  split_ifs at hpoll with hmax
  cases hpoll
  have hmem : (w.event, some w) ∈ (pollHandles b).drop start := by
    refine hreturns.mem_drop hsignalled ?_
    rw [hhandles]
    exact List.mem_cons_of_mem _ (List.mem_map.mpr ⟨w, hw, rfl⟩)
  have hnodup : (((pollHandles b).drop start).map Prod.fst).Nodup := by
    rw [List.map_drop, hfst]
    exact (nodup_exec hexec).sublist (List.drop_sublist _ _)
  rcases report_mem hnodup (fun _ _ h => eq_event_of_mem_pollHandles (List.mem_of_mem_drop h)) hmem
    henumerate hready maxEvents.toNat os.signalled hsignalled with hreported | hfull
  · exact .inl hreported
  · right
    rw [hfull]
    omega

/-- The socket with that number is registered, with an event object of its own. -/
def registerNext (fd : ℕ) : Call := .register (some (fd + 1)) fd backendRead fd

/-- Three sockets, the first of which is removed: a poll waits on the event objects of the other two.
That of the last one is set, and it is reported. -/
theorem small_table_polled_two : ∃ b,
    Machine.exec Backend.step (create 0) ((List.range 3).map registerNext ++ [.remove 0]) = some b ∧
      (∀ w ∈ b.active, w.event ∈ (pollHandles b).map Prod.fst) ∧
      ∃ events, poll ⟨fun event => event = 3, fun _ _ => some fdRead⟩ (.event 2) b 8 = some events ∧
        (⟨2, backendRead, 2⟩ ∈ events ∨ events.length = (8 : ℤ)) := by
  obtain ⟨b, hexec, hb⟩ := Machine.exists_of_any
    (p := fun b : Backend => decide (b.active = [⟨1, 2, 1, 1, true⟩, ⟨2, 3, 1, 2, true⟩] ∧
      (pollHandles b).map Prod.fst = [0, 2, 3]))
    (show (Machine.exec Backend.step (create 0)
      ((List.range 3).map registerNext ++ [.remove 0])).any _ = true by decide +kernel)
  obtain ⟨hactive, hhandles⟩ := of_decide_eq_true hb
  have hsmall : b.active.length ≤ maximumWaitObjects - 1 := by rw [hactive]; decide
  have hpolled := small_table_polled hexec
  refine ⟨b, hexec, hpolled.1.mpr hsmall, _, rfl, ?_⟩
  have hreturns : Os.Returns ⟨fun event => event = 3, fun _ _ => some fdRead⟩
      ((pollHandles b).map Prod.fst) 2 := by
    rw [hhandles]
    refine ⟨⟨3, rfl, rfl⟩, fun j hj handle hget => ?_⟩
    interval_cases j <;> cases hget <;> rfl
  exact hpolled.2 hsmall _ 2 8 _ hreturns rfl ⟨2, 3, 1, 2, true⟩ (by rw [hactive]; simp) rfl fdRead rfl
    (by decide)

/-- **The sixty-fourth watch is not polled.** Sockets 0 to 63 are registered, all with success; the
event object of the last one is not among those that a poll waits on. -/
theorem sixty_fourth_watch_missed : ∃ b,
    Machine.exec Backend.step (create 0) ((List.range 64).map registerNext) = some b ∧
      ∃ w ∈ b.active, w.socket = 63 ∧ w.event ∉ (pollHandles b).map Prod.fst := by
  obtain ⟨b, hexec, hmissed⟩ := Machine.exists_of_any
    (p := fun b : Backend => decide
      (∃ w ∈ b.active, w.socket = 63 ∧ w.event ∉ (pollHandles b).map Prod.fst))
    (show (Machine.exec Backend.step (create 0)
      ((List.range 64).map registerNext)).any _ = true by decide +kernel)
  exact ⟨b, hexec, of_decide_eq_true hmissed⟩

end Windows

end Wirecall

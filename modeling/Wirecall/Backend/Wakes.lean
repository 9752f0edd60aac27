import Wirecall.Machine.Doorbell
import Wirecall.Backend.Hearing
import Wirecall.Backend.Kqueue
import Wirecall.Backend.Windows

/-!
# The three backends are doorbells

`wirecall_backend_wake` makes the poll of a worker return, now or the next time. Each backend does
this with what its system has: io_uring with a counter that is polled like a descriptor, kqueue with
a filter that is cleared when it is reported, Windows with an event object that is first in line.
With io_uring the bell is heard only through the poll of the wake watch, which must be in flight
whenever the counter is not zero.

## Main definitions

* `Uring`, `uringBell`: io_uring with its eventfd
* `kqueueBell`: kqueue
* `Windows.Waking`, `windowsBell`: Windows with its wake event

## Main results

* `pollLoop_wake`: a completion of the wake watch is reported or stays on the ring
* `Kqueue.poll_wake`: the wake filter is cleared by the poll that reports it
* `Windows.Waking.poll_set`: the wake event is first in line
* `uringBell`, `kqueueBell`, `windowsBell`: no backend loses a wake-up
-/

namespace Wirecall

/-! ## io_uring -/

/-- The backend with the counter of its eventfd. -/
structure Uring where
  backend : Backend
  counter : ℕ

/-- The largest value of the counter of an eventfd. -/
def eventfdMax : ℕ := 2 ^ 64 - 2

/-- `wirecall_backend_wake`. A write that would exceed the largest value is not made. -/
def Uring.wake (u : Uring) : Uring := { u with counter := min (u.counter + 1) eventfdMax }

/-- A poll, with what the kernel does: it takes the entries it is given. -/
structure UringPoll where
  maxEvents : ℕ
  entered : Bool
  submits : ℕ → Submit
  last : Submit
  prompt : ∀ n, (submits n).Prompt

/-- `wirecall_backend_poll`; the eventfd is read until it is empty when its completion is reaped. -/
def Uring.poll (u : Uring) (p : UringPoll) : Option (Bool × Uring) :=
  let r := backendPoll p.entered p.submits p.last p.maxEvents u.backend
  let heard := decide (.wake ∈ r.1)
  some (heard, ⟨r.2, if heard then 0 else u.counter⟩)

/-- The kernel completes the poll of the eventfd only while it can be read. -/
def Uring.completable (u : Uring) : RingStep → Bool
  | .complete i _ => u.backend.polls[i]?.all fun p => p.target ≠ .wake || 0 < u.counter
  | .poll _ _ _ _ => false
  | _ => true

/-- The other calls of the backend, and the completions. -/
def Uring.move (u : Uring) (l : { l : RingStep // l.Prompt }) : Option Uring :=
  if u.completable l.1 then (u.backend.step l.1).map fun b => { u with backend := b } else none

/-- The counter is not zero, or a completion of the wake watch is on the ring. -/
def Uring.Rung (u : Uring) : Prop :=
  0 < u.counter ∨ ∃ cqe ∈ u.backend.cq, cqe.target = some .wake

/-- A poll finds no completion of the wake watch, and the eventfd causes none. -/
def Uring.Silent (u : Uring) : Prop :=
  (∀ cqe ∈ u.backend.cq, cqe.target ≠ some .wake) ∧
    ¬ (0 < u.counter ∧ ∃ p ∈ u.backend.polls, p.target = .wake ∧ p.cancelled = false)

section Uring

variable {u u' : Uring} {b b' : Backend} {o : Submit}

theorem Uring.rung_wake (u : Uring) : u.wake.Rung :=
  .inl (lt_min (Nat.succ_pos _) (by decide))

/-- **The wake poll is in flight**, so a counter that is not zero is noticed. -/
theorem Uring.not_silent (hok : Attentive u.backend none) (hrung : u.Rung) : ¬ u.Silent := by
  rintro ⟨hcq, hquiet⟩
  rcases hrung with hcounter | ⟨cqe, hcqe, htarget⟩
  · obtain ⟨hactive, hevents⟩ := hok.wakeWatch
    have hinterest : u.backend.wakeWatch.events ≠ 0 := by
      rw [hevents]
      decide
    rcases hok.hears .wake _ (Option.some_ne_none _).symm rfl hactive hinterest with
      ⟨p, hp, htarget, -, hcancelled⟩ | ⟨cqe, hcqe, htarget, -⟩
    · exact hquiet ⟨hcounter, p, hp, htarget, hcancelled⟩
    · exact hcq cqe hcqe htarget
  · exact hcq cqe hcqe htarget

theorem armWatch_cq (o : Submit) (b : Backend) (target : Target) (w : Watch) :
    (armWatch o b target w).2.cq = b.cq := by
  unfold armWatch
  split_ifs
  · rfl
  · cases hpush : sqePush b (.pollAdd target (pollMask w.events) (b.epochOf target)) with
    | none => rfl
    | some b' =>
      rw [sqePush_eq_some hpush]
      exact (Quieter.submitPending o _).cq.trans (setWatch_cq _ target _)

theorem backendRegister_cq (mem : Bool) (o o' : Submit) (b : Backend) (fd : ℕ) (events : UInt32)
    (user : ℕ) : (backendRegister mem o o' b fd events user).2.cq = b.cq := by
  unfold backendRegister
  cases b.watches fd with
  | none =>
    split_ifs
    · exact (armWatch_cq _ _ _ _).trans (setWatch_cq _ _ _)
    · rfl
  | some w =>
    simp only
    exact (armWatch_cq _ _ _ _).trans ((setWatch_cq _ _ _).trans
      (Quieter.cancelWatch o b (.watch fd) w).cq)

theorem backendRemove_cq (o : Submit) (b : Backend) (fd : ℕ) :
    (backendRemove o b fd).2.cq = b.cq := by
  unfold backendRemove
  cases b.watches fd with
  | none => rfl
  | some w =>
    simp only
    exact (Quieter.cancelWatch o _ (.watch fd) { w with active := false }).cq.trans (setWatch_cq _ _ _)

/-- Only a poll takes completions off the ring. -/
theorem Backend.step_cq {l : RingStep} (hstep : b.step l = some b')
    (hpoll : ∀ maxEvents entered o o', l ≠ .poll maxEvents entered o o') :
    ∀ cqe ∈ b.cq, cqe ∈ b'.cq := by
  intro cqe hcqe
  cases l with
  | register fd events user mem o o' =>
    cases hstep
    rwa [backendRegister_cq]
  | modify fd events user mem o o' =>
    cases hstep
    rwa [backendModify, backendRegister_cq]
  | remove fd o =>
    cases hstep
    rwa [backendRemove_cq]
  | poll maxEvents entered o o' => exact absurd rfl (hpoll maxEvents entered o o')
  | complete i res =>
    simp only [Backend.step, completePoll] at hstep
    split at hstep
    · cases hstep
    · cases hstep
      exact List.mem_append_left _ hcqe
  | completeRemoval res =>
    simp only [Backend.step, completeRemoval] at hstep
    split_ifs at hstep
    cases hstep
    exact List.mem_append_left _ hcqe

theorem reap_cq (o : Submit) (b : Backend) (cqe : Cqe) : (reap o b cqe).2.cq = b.cq := by
  unfold reap
  split
  · rfl
  · exact (armWatch_cq _ _ _ _).trans (setWatch_cq _ _ _)
  · simp only
    split
    · rfl
    · split_ifs
      all_goals first
        | exact (armWatch_cq _ _ _ _).trans (setWatch_cq _ _ _)
        | exact setWatch_cq _ _ _

/-- What was reported is not taken back. -/
theorem mem_pollLoop (o : ℕ → Submit) (maxEvents n : ℕ) {events : List PollEvent}
    {event : PollEvent} (h : event ∈ events) (b : Backend) :
    event ∈ (pollLoop o maxEvents n events b).1 := by
  induction n generalizing b events with
  | zero => exact h
  | succ n ih =>
    rw [pollLoop]
    split_ifs
    · split
      · exact h
      · exact ih (List.mem_append_left _ h) _
    · exact h

/-- **A completion of the wake watch is reported, or it stays on the ring.** -/
theorem pollLoop_wake (o : ℕ → Submit) (maxEvents n : ℕ) (events : List PollEvent) {cqe : Cqe}
    (hcqe : cqe ∈ b.cq) (htarget : cqe.target = some .wake)
    (hmissed : .wake ∉ (pollLoop o maxEvents n events b).1) :
    cqe ∈ (pollLoop o maxEvents n events b).2.cq := by
  induction n generalizing b events with
  | zero => exact hcqe
  | succ n ih =>
    rw [pollLoop] at hmissed ⊢
    split_ifs at hmissed ⊢
    · split at hmissed
      · exact hcqe
      · rename_i cqe' rest hcq
        simp only at hmissed ⊢
        refine ih _ ?_ hmissed
        rw [reap_cq]
        rw [hcq] at hcqe
        rcases List.mem_cons.mp hcqe with rfl | hrest
        · -- it would be reaped now, and reported
          have hreported : .wake ∈ (reap (o n) { b with cq := rest } cqe).1 := by
            rw [reap, htarget]
            exact List.mem_cons_self
          exact absurd (mem_pollLoop o maxEvents n (List.mem_append_right _ hreported) _) hmissed
        · exact hrest
    · exact hcqe

theorem backendPoll_wake {entered : Bool} {os : ℕ → Submit} {maxEvents : ℕ} {cqe : Cqe}
    (hcqe : cqe ∈ b.cq) (htarget : cqe.target = some .wake)
    (hmissed : .wake ∉ (backendPoll entered os o maxEvents b).1) :
    cqe ∈ (backendPoll entered os o maxEvents b).2.cq := by
  by_cases henter : 0 < maxEvents ∧ entered
  · simp only [backendPoll, if_pos henter] at hmissed ⊢
    rw [(Quieter.submitPending _ _).cq]
    exact pollLoop_wake _ _ _ _ hcqe htarget hmissed
  · simpa only [backendPoll, if_neg henter] using hcqe

theorem Uring.ok_move {l : { l : RingStep // l.Prompt }} (hok : Attentive u.backend none)
    (hmove : u.move l = some u') : Attentive u'.backend none := by
  obtain ⟨-, hstep⟩ := Option.ite_none_right_eq_some.mp hmove
  obtain ⟨b, hb, rfl⟩ := Option.map_eq_some_iff.mp hstep
  exact hok.step l.2 hb

theorem Uring.rung_move {l : { l : RingStep // l.Prompt }} (hmove : u.move l = some u')
    (hrung : u.Rung) : u'.Rung := by
  obtain ⟨hcompletable, hstep⟩ := Option.ite_none_right_eq_some.mp hmove
  obtain ⟨b, hb, rfl⟩ := Option.map_eq_some_iff.mp hstep
  have hother : ∀ maxEvents entered o o', l.1 ≠ .poll maxEvents entered o o' := by
    intro maxEvents entered o o' heq
    rw [heq] at hcompletable
    cases hcompletable
  rcases hrung with hcounter | ⟨cqe, hcqe, htarget⟩
  · exact .inl hcounter
  · exact .inr ⟨cqe, Backend.step_cq hb hother cqe hcqe, htarget⟩

theorem Uring.ok_poll {p : UringPoll} {heard : Bool} (hok : Attentive u.backend none)
    (hpoll : u.poll p = some (heard, u')) : Attentive u'.backend none := by
  cases hpoll
  exact hok.poll p.prompt p.entered p.maxEvents

/-- **A poll that reports no wake** leaves the counter and the completions of the wake watch. -/
theorem Uring.rung_missed {p : UringPoll} (hpoll : u.poll p = some (false, u'))
    (hrung : u.Rung) : u'.Rung := by
  simp only [Uring.poll, Option.some.injEq, Prod.mk.injEq] at hpoll
  obtain ⟨hheard, rfl⟩ := hpoll
  rw [hheard]
  rcases hrung with hcounter | ⟨cqe, hcqe, htarget⟩
  · exact .inl hcounter
  · exact .inr ⟨cqe, backendPoll_wake hcqe htarget (of_decide_eq_false hheard), htarget⟩

/-- **io_uring is a doorbell.** -/
def uringBell : Machine.Doorbell Uring { l : RingStep // l.Prompt } UringPoll where
  ring := Uring.wake
  move := Uring.move
  poll := Uring.poll
  Ok := fun u => Attentive u.backend none
  Rung := Uring.Rung
  Silent := Uring.Silent
  ok_ring := id
  ok_move := Uring.ok_move
  ok_poll := Uring.ok_poll
  rung_ring := fun _ => Uring.rung_wake _
  rung_move := fun _ => Uring.rung_move
  rung_missed := fun _ => Uring.rung_missed
  not_silent := Uring.not_silent

end Uring

/-! ## kqueue -/

namespace Kqueue

/-- The other calls of the backend, with what the kernel grants. -/
inductive Move (α : Type) where
  | register (granted : Filter → Bool) (fd : ℤ) (events : UInt32) (user : α)
  | remove (granted : Filter → Bool) (fd : ℤ)

/-- A call, whether it fails or not. -/
def Queue.move {α : Type} (q : Queue α) : Move α → Option (Queue α)
  | .register granted fd events user => some (register granted q fd events user).2
  | .remove granted fd => some (remove granted q fd).2

/-- A poll with the notes that `kevent` answers. -/
def Queue.pollNotes {α : Type} (q : Queue α) (p : ℕ × List Knote) : Option (Bool × Queue α) :=
  (poll p.1 q p.2).map fun r => (decide (.user ∈ p.2), r.2)

section Bell

variable {α : Type} {q q' : Queue α}

theorem Queue.move_triggered {m : Move α} (hmove : q.move m = some q') :
    q'.triggered = q.triggered := by
  cases m with
  | register granted fd events user =>
    cases hmove
    exact register_triggered granted q fd events user
  | remove granted fd =>
    cases hmove
    exact remove_triggered granted q fd

/-- **Only the poll that reports the wake filter clears it.** -/
theorem poll_wake {limit : ℕ} {notes : List Knote} {events : List (Event α)}
    (hpoll : poll limit q notes = some (events, q')) :
    q'.triggered = (q.triggered && decide (.user ∉ notes)) := by
  obtain ⟨-, hsome⟩ := Option.ite_none_right_eq_some.mp hpoll
  simp only [Option.some.injEq, Prod.mk.injEq] at hsome
  obtain ⟨-, rfl⟩ := hsome
  by_cases huser : .user ∈ notes
  · simp [huser]
  · simp [huser]

theorem Queue.triggered_missed {p : ℕ × List Knote} (hpoll : q.pollNotes p = some (false, q'))
    (h : q.triggered = true) : q'.triggered = true := by
  obtain ⟨⟨events, q''⟩, hq, heq⟩ := Option.map_eq_some_iff.mp hpoll
  obtain ⟨huser, rfl⟩ := Prod.mk.injEq .. ▸ heq
  rw [poll_wake hq, h, Bool.true_and]
  exact decide_eq_true (of_decide_eq_false huser)

end Bell

end Kqueue

/-- **kqueue is a doorbell.** -/
def kqueueBell (α : Type) :
    Machine.Doorbell (Kqueue.Queue α) (Kqueue.Move α) (ℕ × List Kqueue.Knote) where
  ring := Kqueue.wake
  move := Kqueue.Queue.move
  poll := Kqueue.Queue.pollNotes
  Ok := fun _ => True
  Rung := fun q => q.triggered = true
  Silent := fun q => q.triggered = false
  ok_ring := id
  ok_move := fun h _ => h
  ok_poll := fun h _ => h
  rung_ring := fun _ => rfl
  rung_move := fun _ hmove h => (Kqueue.Queue.move_triggered hmove).trans h
  rung_missed := fun _ => Kqueue.Queue.triggered_missed
  not_silent := fun _ h => ne_false_of_eq_true h

/-! ## Windows -/

namespace Windows

/-- The backend with the state of its wake event, which is reset by hand. -/
structure Waking where
  backend : Backend
  set : Bool

/-- `wirecall_backend_wake`. -/
def Waking.wake (b : Waking) : Waking := { b with set := true }

/-- A call of the backend that succeeds. -/
def Waking.move (b : Waking) (call : Call) : Option Waking :=
  (b.backend.step call).map fun backend => { b with backend := backend }

/-- A poll with the room for events and what the system says; the state of the wake event is not
for the system to choose. -/
structure PollArgs where
  os : Os
  maxEvents : ℤ

/-- The system, with the wake event as it is. -/
def Waking.os (b : Waking) (os : Os) : Os :=
  { os with signalled := Function.update os.signalled b.backend.wakeEvent b.set }

/-- `wirecall_backend_poll` without a timeout: the wait returns with the first event object that is
set. The wake event is reset when it is reported. -/
def Waking.poll (b : Waking) (p : PollArgs) : Option (Bool × Waking) :=
  let os := b.os p.os
  match (pollHandles b.backend).findIdx? fun handle => os.signalled handle.1 with
  | none => none
  | some start =>
    (Windows.poll os (.event start) b.backend p.maxEvents).map fun events =>
      let heard := events.any fun event => event.events = backendWake
      (heard, { b with set := b.set && !heard })

section Bell

variable {b b' : Waking}

/-- **The wake event is first in line**: if it is set, the poll reports it. -/
theorem Waking.poll_set {p : PollArgs} {heard : Bool} (hset : b.set = true)
    (hpoll : b.poll p = some (heard, b')) : heard = true := by
  have hsignalled : (b.os p.os).signalled b.backend.wakeEvent = true := by
    simp only [Waking.os, Function.update_self, hset]
  have hfirst : (pollHandles b.backend).findIdx? (fun handle => (b.os p.os).signalled handle.1) =
      some 0 := by
    simp only [pollHandles, List.findIdx?_cons, hsignalled, if_true]
  simp only [Waking.poll, hfirst] at hpoll
  obtain ⟨events, hevents, heq⟩ := Option.map_eq_some_iff.mp hpoll
  obtain ⟨rfl, -⟩ := Prod.mk.injEq .. ▸ heq
  by_cases hroom : p.maxEvents ≤ 0
  · simp only [Windows.poll, if_pos hroom] at hevents
    cases hevents
  · obtain ⟨room, hroom'⟩ : ∃ room, p.maxEvents.toNat = room + 1 :=
      Nat.exists_eq_succ_of_ne_zero (by omega)
    simp only [Windows.poll, if_neg hroom, hroom', List.drop_zero, pollHandles, report,
      hsignalled, Bool.true_eq_false, if_false, Option.some.injEq] at hevents
    rw [← hevents, List.any_cons]
    rfl

theorem Waking.set_missed {p : PollArgs} (hpoll : b.poll p = some (false, b'))
    (hset : b.set = true) : b'.set = true := by
  cases Waking.poll_set hset hpoll

theorem Waking.move_set {call : Call} (hmove : b.move call = some b') (hset : b.set = true) :
    b'.set = true := by
  obtain ⟨backend, -, rfl⟩ := Option.map_eq_some_iff.mp hmove
  exact hset

end Bell

end Windows

/-- **Windows is a doorbell.** -/
def windowsBell : Machine.Doorbell Windows.Waking Windows.Call Windows.PollArgs where
  ring := Windows.Waking.wake
  move := Windows.Waking.move
  poll := Windows.Waking.poll
  Ok := fun _ => True
  Rung := fun b => b.set = true
  Silent := fun b => b.set = false
  ok_ring := id
  ok_move := fun h _ => h
  ok_poll := fun h _ => h
  rung_ring := fun _ => rfl
  rung_move := fun _ => Windows.Waking.move_set
  rung_missed := fun _ => Windows.Waking.set_missed
  not_silent := fun _ h => ne_false_of_eq_true h

end Wirecall

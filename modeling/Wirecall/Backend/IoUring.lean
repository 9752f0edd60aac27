import Wirecall.Backend.Interests
import Wirecall.Memory.Growth

/-!
# The io_uring backend

`io_uring.c`: one watch for each descriptor, and one-shot polls that the kernel completes. A watch
is found by its descriptor and never freed, so the descriptor names it. `register` cancels the poll
of the watch and arms a new one; `wirecall_backend_poll` reaps completions, and arms the watch of
each one that is ready again.

The kernel is part of the model: it takes entries from the submission queue when it is entered,
catches a poll with a `POLL_REMOVE` or does not, and completes a poll at any time. What it decides
is given with each call. Every `POLL_ADD` carries the number of the `register`, `modify` or
`remove` call on its descriptor that came last when it was armed.

## Main definitions

* `Watch`, `Sqe`, `Poll`, `Cqe`, `Backend`: the watches, the two rings and the polls in flight
* `armWatch`, `cancelWatch`, `backendRegister`, `backendRemove`, `backendPoll`: the functions
* `RingStep`, `Backend.step`: calls and completions as a labelled machine
-/

namespace Wirecall

/-! ## The rings -/

/-- The watch that `user_data` points to. -/
inductive Target where
  | wake
  | watch (fd : ℕ)
  deriving DecidableEq, Repr

/-- `wirecall_backend_watch`. -/
structure Watch where
  events : UInt32
  user : ℕ
  active : Bool
  armed : Bool
  deriving DecidableEq, Repr

/-- An entry of the submission queue. -/
inductive Sqe where
  | pollAdd (target : Target) (mask : UInt32) (epoch : ℕ)
  | pollRemove (target : Target)
  deriving DecidableEq, Repr

/-- A poll that the kernel has not completed. -/
structure Poll where
  target : Target
  mask : UInt32
  epoch : ℕ
  cancelled : Bool
  deriving DecidableEq, Repr

/-- A completion. That of a `POLL_REMOVE` points to no watch. -/
structure Cqe where
  target : Option Target
  res : Int
  epoch : ℕ
  deriving DecidableEq, Repr

/-- `wirecall_backend`, with the kernel's side: the polls in flight, the number of `POLL_REMOVE`
requests that were taken and not completed, and the number of the last call on each descriptor. -/
structure Backend where
  wakeWatch : Watch
  watches : ℕ → Option Watch
  sq : List Sqe
  polls : List Poll
  removals : ℕ
  cq : List Cqe
  epoch : ℕ → ℕ

/-- `WIRECALL_URING_ENTRIES`. -/
def uringEntries : ℕ := 1024

def pollIn : UInt32 := 0x1

def pollOut : UInt32 := 0x4

def pollErr : UInt32 := 0x8

def pollHup : UInt32 := 0x10

def pollRdhup : UInt32 := 0x2000

/-- `-ECANCELED`. -/
def canceled : Int := -125

/-- What the kernel does when it is entered to submit: how many entries it takes, unless it fails,
and which poll in flight the `k`th of them catches if it is a `POLL_REMOVE`. -/
structure Submit where
  taken : Option ℕ
  caught : ℕ → Option ℕ

namespace Backend

def setWatch (b : Backend) (target : Target) (w : Watch) : Backend :=
  match target with
  | .wake => { b with wakeWatch := w }
  | .watch fd => { b with watches := Function.update b.watches fd (some w) }

/-- The number of the last call on the descriptor. -/
def epochOf (b : Backend) : Target → ℕ
  | .wake => 0
  | .watch fd => b.epoch fd

/-- A call on the descriptor is counted. -/
def bump (b : Backend) (fd : ℕ) : Backend :=
  { b with epoch := Function.update b.epoch fd (b.epoch fd + 1) }

end Backend

/-! ## The kernel -/

/-- A `POLL_REMOVE` reaches a poll in flight. -/
def Poll.cancel (target : Target) (p : Poll) : Poll :=
  if p.target = target then { p with cancelled := true } else p

/-- The kernel takes an entry. -/
def takeSqe (b : Backend) (caught : Option ℕ) : Sqe → Backend
  | .pollAdd target mask epoch => { b with polls := b.polls ++ [⟨target, mask, epoch, false⟩] }
  | .pollRemove target =>
    { b with
      polls := caught.elim b.polls fun i => b.polls.modify i (Poll.cancel target)
      removals := b.removals + 1 }

/-- The kernel takes a list of entries. -/
def takeSqes (caught : ℕ → Option ℕ) : List Sqe → Backend → Backend
  | [], b => b
  | sqe :: rest, b => takeSqes (fun k => caught (k + 1)) rest (takeSqe b (caught 0) sqe)

/-- A poll in flight is completed: with `-ECANCELED` if it was caught, with any result if not. -/
def completePoll (b : Backend) (i : ℕ) (res : Int) : Option Backend :=
  match b.polls[i]? with
  | none => none
  | some p =>
    some { b with
      polls := b.polls.eraseIdx i
      cq := b.cq ++ [⟨some p.target, if p.cancelled then canceled else res, p.epoch⟩] }

/-- A `POLL_REMOVE` is completed. -/
def completeRemoval (b : Backend) (res : Int) : Option Backend :=
  if b.removals = 0 then none
  else some { b with removals := b.removals - 1, cq := b.cq ++ [⟨none, res, 0⟩] }

/-! ## The functions -/

/-- `poll_mask`. -/
def pollMask (events : UInt32) : UInt32 :=
  (if events &&& backendRead ≠ 0 then pollIn ||| pollRdhup else 0) |||
    (if events &&& backendWrite ≠ 0 then pollOut else 0)

/-- `sqe_push`. Entering the kernel with nothing to submit makes no room. -/
def sqePush (b : Backend) (sqe : Sqe) : Option Backend :=
  if b.sq.length < uringEntries then some { b with sq := b.sq ++ [sqe] } else none

/-- `submit_pending`. -/
def submitPending (o : Submit) (b : Backend) : Rc × Backend :=
  if b.sq = [] then (.ok, b)
  else match o.taken with
    | none => (.err, b)
    | some n => (.ok, takeSqes o.caught (b.sq.take n) { b with sq := b.sq.drop n })

/-- `arm_watch`. -/
def armWatch (o : Submit) (b : Backend) (target : Target) (w : Watch) : Rc × Backend :=
  if w.active = false ∨ w.armed ∨ w.events = 0 then (.ok, b)
  else match sqePush b (.pollAdd target (pollMask w.events) (b.epochOf target)) with
    | none => (.err, b)
    | some b => submitPending o (b.setWatch target { w with armed := true })

/-- `cancel_watch`, with the watch it leaves. -/
def cancelWatch (o : Submit) (b : Backend) (target : Target) (w : Watch) : Watch × Backend :=
  if w.armed = false then (w, b)
  else match sqePush b (.pollRemove target) with
    | none => (w, b)
    | some b =>
      let w := { w with armed := false }
      (w, (submitPending o b).2.setWatch target w)

/-- The backend that `wirecall_backend_create` starts from. -/
def Backend.zero : Backend where
  wakeWatch := ⟨backendRead, 0, true, false⟩
  watches := fun _ => none
  sq := []
  polls := []
  removals := 0
  cq := []
  epoch := fun _ => 0

/-- `wirecall_backend_create`: the wake descriptor is watched. -/
def backendCreate (o : Submit) : Rc × Backend :=
  armWatch o .zero .wake Backend.zero.wakeWatch

/-- The end of `wirecall_backend_register`. -/
def activate (o : Submit) (b : Backend) (fd : ℕ) (events : UInt32) (user : ℕ) (w : Watch) :
    Rc × Backend :=
  let w := { w with events := events, user := user, active := true }
  armWatch o (b.setWatch (.watch fd) w) (.watch fd) w

/-- `wirecall_backend_register`. The kernel is entered for the `POLL_REMOVE` and for the
`POLL_ADD`. -/
def backendRegister (mem : Bool) (o o' : Submit) (b : Backend) (fd : ℕ) (events : UInt32)
    (user : ℕ) : Rc × Backend :=
  match b.watches fd with
  | none => if mem then activate o' (b.bump fd) fd events user ⟨0, 0, false, false⟩ else (.err, b)
  | some w =>
    let (w, b) := cancelWatch o b (.watch fd) w
    activate o' (b.bump fd) fd events user w

/-- `wirecall_backend_modify`. -/
def backendModify (mem : Bool) (o o' : Submit) (b : Backend) (fd : ℕ) (events : UInt32)
    (user : ℕ) : Rc × Backend :=
  backendRegister mem o o' b fd events user

/-- `wirecall_backend_remove`. -/
def backendRemove (o : Submit) (b : Backend) (fd : ℕ) : Rc × Backend :=
  match b.watches fd with
  | none => (.ok, b)
  | some w =>
    let w := { w with active := false }
    (.ok, (cancelWatch o (b.setWatch (.watch fd) w) (.watch fd) w).2.bump fd)

/-- An event of a batch, with the number its poll was armed under. -/
inductive PollEvent where
  | wake
  | ready (fd : ℕ) (events : UInt32) (user : ℕ) (epoch : ℕ)
  deriving DecidableEq, Repr

/-- The readiness that a result says. -/
def readiness (res : Int) : UInt32 :=
  let mask := UInt32.ofNat res.toNat
  (if mask &&& (pollIn ||| pollRdhup ||| pollHup ||| pollErr) ≠ 0 then backendRead else 0) |||
    (if mask &&& (pollOut ||| pollHup ||| pollErr) ≠ 0 then backendWrite else 0)

/-- A turn of the loop of `wirecall_backend_poll`, on the ring without the completion. -/
def reap (o : Submit) (b : Backend) (cqe : Cqe) : List PollEvent × Backend :=
  match cqe.target with
  | none => ([], b)
  | some .wake =>
    let w := { b.wakeWatch with armed := false }
    ([.wake], (armWatch o (b.setWatch .wake w) .wake w).2)
  | some (.watch fd) =>
    match b.watches fd with
    | none => ([], b)
    | some w =>
      let w := { w with armed := false }
      let b := b.setWatch (.watch fd) w
      if w.active ∧ 0 ≤ cqe.res then
        (if readiness cqe.res ≠ 0 then [.ready fd (readiness cqe.res) w.user cqe.epoch] else [],
          (armWatch o b (.watch fd) w).2)
      else ([], b)

/-- The loop of `wirecall_backend_poll` over `n` completions: the tail is read once. -/
def pollLoop (o : ℕ → Submit) (maxEvents : ℕ) :
    ℕ → List PollEvent → Backend → List PollEvent × Backend
  | 0, events, b => (events, b)
  | n + 1, events, b =>
    if events.length < maxEvents then
      match b.cq with
      | [] => (events, b)
      | cqe :: rest =>
        let r := reap (o n) { b with cq := rest } cqe
        pollLoop o maxEvents n (events ++ r.1) r.2
    else (events, b)

/-- `wirecall_backend_poll`. Nothing is reaped without room for an event, or when the kernel cannot
be entered. -/
def backendPoll (entered : Bool) (o : ℕ → Submit) (o' : Submit) (maxEvents : ℕ) (b : Backend) :
    List PollEvent × Backend :=
  if 0 < maxEvents ∧ entered then
    let r := pollLoop o maxEvents b.cq.length [] b
    (r.1, (submitPending o' r.2).2)
  else ([], b)

/-! ## Runs -/

/-- A call of the backend, or a completion by the kernel. -/
inductive RingStep where
  | register (fd : ℕ) (events : UInt32) (user : ℕ) (mem : Bool) (o o' : Submit)
  | modify (fd : ℕ) (events : UInt32) (user : ℕ) (mem : Bool) (o o' : Submit)
  | remove (fd : ℕ) (o : Submit)
  | poll (maxEvents : ℕ) (entered : Bool) (o : ℕ → Submit) (o' : Submit)
  | complete (i : ℕ) (res : Int)
  | completeRemoval (res : Int)

/-- The steps of the backend and of the kernel. -/
def Backend.step (b : Backend) : RingStep → Option Backend
  | .register fd events user mem o o' => some (backendRegister mem o o' b fd events user).2
  | .modify fd events user mem o o' => some (backendModify mem o o' b fd events user).2
  | .remove fd o => some (backendRemove o b fd).2
  | .poll maxEvents entered o o' => some (backendPoll entered o o' maxEvents b).2
  | .complete i res => completePoll b i res
  | .completeRemoval res => Wirecall.completeRemoval b res

end Wirecall

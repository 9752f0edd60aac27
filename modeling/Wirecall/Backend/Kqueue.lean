import Wirecall.Backend.IoUring

/-!
# The kqueue backend

`kqueue.c`: the kernel keeps a filter for each descriptor and kind of readiness, with the pointer
that was given for it. `register` adds or deletes both filters of a descriptor one after the other,
so it can fail half way. A poll takes what the kernel reports, one event for each filter that is
ready; the wake filter is cleared when it is reported.

## Main definitions

* `Kqueue.Queue`: the filters, and the state of the wake filter
* `Kqueue.applyFilter`, `setInterest`, `register`, `remove`, `wake`, `poll`: the functions

## Main results

* `setInterest_granted`, `remove_granted`: the filters after a call that does not fail
-/

namespace Wirecall

namespace Kqueue

variable {α : Type}

/-- `EVFILT_READ` and `EVFILT_WRITE`. -/
inductive Filter where
  | read
  | write
  deriving DecidableEq, Repr

/-- The kernel's side of a kqueue; `α` is the type of what the pointers point to. -/
structure Queue (α : Type) where
  filters : ℕ → Filter → Option α
  /-- `NOTE_TRIGGER` was set on the wake filter since it was reported last. -/
  triggered : Bool

/-- The queue that `wirecall_backend_create` makes: it has the wake filter only. -/
def Queue.empty (α : Type) : Queue α := ⟨fun _ _ => none, false⟩

def Queue.setFilter (q : Queue α) (fd : ℕ) (filter : Filter) (user : Option α) : Queue α :=
  { q with filters := Function.update q.filters fd (Function.update (q.filters fd) filter user) }

/-- The flags of a change: `EV_ADD | EV_ENABLE` or `EV_DELETE`. -/
inductive Change (α : Type) where
  | add (user : α)
  | delete

/-- `apply_filter`; `granted` says whether the kernel makes the change. A filter that is to be
deleted may be missing. -/
def applyFilter (granted : Bool) (q : Queue α) (fd : ℕ) (filter : Filter) :
    Change α → Rc × Queue α
  | .add user => if granted then (.ok, q.setFilter fd filter (some user)) else (.err, q)
  | .delete =>
    if q.filters fd filter = none then (.ok, q)
    else if granted then (.ok, q.setFilter fd filter none)
    else (.err, q)

/-- `set_interest`. The second change is made also when the first one fails. -/
def setInterest (granted : Filter → Bool) (q : Queue α) (fd : ℕ) (events : UInt32) (user : α) :
    Rc × Queue α :=
  let (rc, q) := applyFilter (granted .read) q fd .read
    (if events &&& backendRead ≠ 0 then .add user else .delete)
  let (rc', q) := applyFilter (granted .write) q fd .write
    (if events &&& backendWrite ≠ 0 then .add user else .delete)
  (if rc = .ok ∧ rc' = .ok then .ok else .err, q)

/-- `wirecall_backend_register`. -/
def register (granted : Filter → Bool) (q : Queue α) (fd : ℤ) (events : UInt32) (user : α) :
    Rc × Queue α :=
  if fd < 0 then (.err, q) else setInterest granted q fd.toNat events user

/-- `wirecall_backend_modify`. -/
def modify (granted : Filter → Bool) (q : Queue α) (fd : ℤ) (events : UInt32) (user : α) :
    Rc × Queue α :=
  register granted q fd events user

/-- `wirecall_backend_remove`. -/
def remove (granted : Filter → Bool) (q : Queue α) (fd : ℤ) : Rc × Queue α :=
  if fd < 0 then (.err, q)
  else
    let q := (applyFilter (granted .read) q fd.toNat .read .delete).2
    (.ok, (applyFilter (granted .write) q fd.toNat .write .delete).2)

/-- `wirecall_backend_wake`. -/
def wake (q : Queue α) : Queue α := { q with triggered := true }

/-- What the kernel reports on: the wake filter, or a filter of a descriptor. -/
inductive Knote where
  | user
  | filter (fd : ℕ) (filter : Filter)
  deriving DecidableEq, Repr

/-- The kernel may report on it: a filter that is there, or the wake filter if it was triggered. -/
def Queue.reports (q : Queue α) : Knote → Bool
  | .user => q.triggered
  | .filter fd filter => (q.filters fd filter).isSome

/-- `wirecall_backend_event`; the pointer of a wake is `NULL`. -/
structure Event (α : Type) where
  fd : ℕ
  events : UInt32
  user : Option α

/-- A turn of the loop of `wirecall_backend_poll`. The wake filter has the number 1. -/
def Queue.event (q : Queue α) : Knote → Event α
  | .user => ⟨1, backendWake, none⟩
  | .filter fd .read => ⟨fd, backendRead, q.filters fd .read⟩
  | .filter fd .write => ⟨fd, backendWrite, q.filters fd .write⟩

/-- `WIRECALL_KQUEUE_MAX_EVENTS`. -/
def maxEvents : ℕ := 1024

/-- What `kevent` may answer: filters that are there, each once, and no more than asked for. -/
def Queue.Answers (q : Queue α) (limit : ℕ) (notes : List Knote) : Prop :=
  notes.length ≤ limit ∧ notes.Nodup ∧ ∀ note ∈ notes, q.reports note = true

instance (q : Queue α) (limit : ℕ) (notes : List Knote) : Decidable (q.Answers limit notes) :=
  inferInstanceAs (Decidable (_ ∧ _ ∧ _))

/-- `wirecall_backend_poll`, when `kevent` answers `notes`. -/
def poll (limit : ℕ) (q : Queue α) (notes : List Knote) : Option (List (Event α) × Queue α) :=
  if 0 < limit ∧ q.Answers (min limit maxEvents) notes then
    some (notes.map q.event, if .user ∈ notes then { q with triggered := false } else q)
  else none

/-! ## What the calls do -/

section Filters

variable {q : Queue α} {fd fd' : ℕ} {filter filter' : Filter} {user : α} {granted : Filter → Bool}

theorem setFilter_self (q : Queue α) (fd : ℕ) (filter : Filter) (user : Option α) :
    (q.setFilter fd filter user).filters fd filter = user := by
  simp only [Queue.setFilter, Function.update_self]

theorem setFilter_of_ne (q : Queue α) (user : Option α) (h : fd' ≠ fd ∨ filter' ≠ filter) :
    (q.setFilter fd filter user).filters fd' filter' = q.filters fd' filter' := by
  by_cases hfd : fd' = fd
  · subst hfd
    simp only [Queue.setFilter, Function.update_self]
    exact Function.update_of_ne (h.resolve_left fun hne => hne rfl) _ _
  · simp only [Queue.setFilter, Function.update_of_ne hfd]

/-- The pointer that a change leaves at its filter. -/
def Change.result : Change α → Option α
  | .add user => some user
  | .delete => none

/-- A change is made, or it is not. -/
theorem applyFilter_cases (g : Bool) (q : Queue α) (fd : ℕ) (filter : Filter) (change : Change α) :
    (applyFilter g q fd filter change).2 = q ∨
      (applyFilter g q fd filter change).2 = q.setFilter fd filter change.result := by
  cases change with
  | add user =>
    simp only [applyFilter]
    split_ifs
    · exact .inr rfl
    · exact .inl rfl
  | delete =>
    simp only [applyFilter]
    split_ifs
    · exact .inl rfl
    · exact .inr rfl
    · exact .inl rfl

/-- A change that is granted. -/
theorem applyFilter_granted (q : Queue α) (fd : ℕ) (filter : Filter) (change : Change α) :
    applyFilter true q fd filter change = (.ok, q.setFilter fd filter change.result) := by
  cases change with
  | add user => rfl
  | delete =>
    by_cases hnone : q.filters fd filter = none
    · -- a filter that is missing stays so
      have hsame : Function.update (q.filters fd) filter none = q.filters fd :=
        Function.update_eq_self_iff.mpr hnone.symm
      simp only [applyFilter, if_pos hnone, Queue.setFilter, Change.result, hsame,
        Function.update_eq_self]
    · simp only [applyFilter, if_neg hnone]
      rfl

theorem applyFilter_triggered (g : Bool) (q : Queue α) (fd : ℕ) (filter : Filter)
    (change : Change α) : (applyFilter g q fd filter change).2.triggered = q.triggered := by
  rcases applyFilter_cases g q fd filter change with heq | heq
  · rw [heq]
  · rw [heq]
    rfl

/-- The filters of a descriptor with these interests. -/
def filterFor (events : UInt32) (user : α) : Filter → Option α
  | .read => if events &&& backendRead ≠ 0 then some user else none
  | .write => if events &&& backendWrite ≠ 0 then some user else none

/-- **A call that the kernel grants** sets both filters of its descriptor. -/
theorem setInterest_granted (q : Queue α) (fd : ℕ) (events : UInt32) (user : α) :
    (setInterest (fun _ => true) q fd events user).1 = .ok ∧
      (setInterest (fun _ => true) q fd events user).2.filters =
        Function.update q.filters fd (filterFor events user) := by
  have hread : (if events &&& backendRead ≠ 0 then Change.add user else .delete).result =
      filterFor events user .read := by
    unfold filterFor
    split_ifs <;> rfl
  have hwrite : (if events &&& backendWrite ≠ 0 then Change.add user else .delete).result =
      filterFor events user .write := by
    unfold filterFor
    split_ifs <;> rfl
  simp only [setInterest, applyFilter_granted, hread, hwrite, and_self, if_true, true_and]
  funext fd' filter
  by_cases hfd : fd' = fd
  · subst hfd
    rw [Function.update_self]
    cases filter with
    | read =>
      rw [setFilter_of_ne _ _ (.inr fun h => by cases h), setFilter_self]
    | write => rw [setFilter_self]
  · rw [Function.update_of_ne hfd, setFilter_of_ne _ _ (.inl hfd), setFilter_of_ne _ _ (.inl hfd)]

/-- **A descriptor that is removed** has no filter. -/
theorem remove_granted (q : Queue α) {fd : ℤ} (hfd : 0 ≤ fd) :
    (remove (fun _ => true) q fd).2.filters = Function.update q.filters fd.toNat fun _ => none := by
  simp only [remove, if_neg (not_lt.mpr hfd), applyFilter_granted]
  funext fd' filter
  by_cases hfd' : fd' = fd.toNat
  · subst hfd'
    rw [Function.update_self]
    cases filter with
    | read => rw [setFilter_of_ne _ _ (.inr fun h => by cases h), setFilter_self]; rfl
    | write => rw [setFilter_self]; rfl
  · rw [Function.update_of_ne hfd', setFilter_of_ne _ _ (.inl hfd'), setFilter_of_ne _ _ (.inl hfd')]

theorem register_triggered (granted : Filter → Bool) (q : Queue α) (fd : ℤ) (events : UInt32)
    (user : α) : (register granted q fd events user).2.triggered = q.triggered := by
  unfold register
  split_ifs
  · rfl
  · exact (applyFilter_triggered _ _ _ _ _).trans (applyFilter_triggered _ _ _ _ _)

theorem remove_triggered (granted : Filter → Bool) (q : Queue α) (fd : ℤ) :
    (remove granted q fd).2.triggered = q.triggered := by
  unfold remove
  split_ifs
  · rfl
  · exact (applyFilter_triggered _ _ _ _ _).trans (applyFilter_triggered _ _ _ _ _)

end Filters

end Kqueue

end Wirecall

import Wirecall.Machine.Run
import Wirecall.Memory.Growth
import Wirecall.Protocol.Integrity

/-!
# Setting up a server

The array of workers is made by the first `wirecall_server_bind` that can make it, with
`worker_count` elements, and `worker_count` is the bound of every loop over it. Until then the pointer
is `NULL`. `wirecall_server_stop` and `wirecall_server_destroy` look at the pointer first;
`wirecall_server_listen` does not, so it must not be called before the workers are there.

Every access to `server->workers[i]` is kept in a log, with the length of the array at that time.

## Main definitions

* `Setup.Server`, `setWorkers`, `bind`, `listen`, `stop`, `destroy`: the functions of `server.c`
* `Server.Safe`: every access so far was to an element of the array
* `Consistent`: between two calls the array is there, with `worker_count` elements, exactly when
  `workers_ready` is set

## Main results

* `Consistent.step`: every call keeps it, `wirecall_server_listen` only with the workers there
* `setup_accesses_safe`: **every access is to an element of the array** in runs of such calls
* `listen_before_bind`: otherwise the first access may be through `NULL`
-/

namespace Wirecall

namespace Setup

/-! ## The server -/

/-- `WIRECALL_MAX_WORKERS`. -/
def maxWorkers : ℕ := 128

/-- `WIRECALL_MAX_LISTENERS`. -/
def maxListeners : ℕ := 8

/-- What the setup calls read of `wirecall_worker`: the descriptors of its listeners, whether it has a
backend, and whether its thread runs. -/
structure Worker where
  listeners : List ℕ
  backend : Bool
  threadStarted : Bool
  deriving DecidableEq, Repr

/-- A worker full of zeros. -/
def Worker.zero : Worker := ⟨[], false, false⟩

/-- A worker after `worker_init`. -/
def Worker.ready : Worker := ⟨[], true, false⟩

/-- An access to `server->workers[index]`, with the length of the array; there is none at `NULL`. -/
structure Access where
  index : ℕ
  length : Option ℕ
  deriving DecidableEq, Repr

/-- `wirecall_server`; `freed` is set by `wirecall_server_destroy`. -/
structure Server (ρ : Type) where
  workerCount : ℕ
  workers : Option (List Worker)
  workersReady : Bool
  listening : Bool
  stopping : Bool
  integrity : UInt32
  macKey : List UInt8
  port : UInt16
  routes : ρ
  freed : Bool
  accesses : List Access

variable {ρ : Type}

/-- `cpu_count`. -/
def cpuCount (cpus : ℕ) : ℕ := if cpus = 0 then 1 else if cpus > maxWorkers then maxWorkers else cpus

/-- `wirecall_server_init`, when nothing is refused. -/
def init (cpus : ℕ) (routes : ρ) : Server ρ where
  workerCount := cpuCount cpus
  workers := none
  workersReady := false
  listening := false
  stopping := false
  integrity := integrityChecksum
  macKey := List.replicate 16 0
  port := 0
  routes := routes
  freed := false
  accesses := []

/-- An access to an element is logged. -/
def Server.touch (s : Server ρ) (i : ℕ) : Server ρ :=
  { s with accesses := s.accesses ++ [⟨i, s.workers.map List.length⟩] }

/-- What is read at an element. -/
def Server.worker (s : Server ρ) (i : ℕ) : Worker := (s.workers.getD []).getD i Worker.zero

/-- An element is written. -/
def Server.setWorker (s : Server ρ) (i : ℕ) (w : Worker) : Server ρ :=
  { s with workers := s.workers.map fun ws => ws.set i w }

/-- A loop over the elements with numbers `i`, …, `i + n - 1`, each of which is accessed. -/
def Server.each (f : Server ρ → ℕ → Server ρ) : ℕ → ℕ → Server ρ → Server ρ
  | 0, _, s => s
  | n + 1, i, s => Server.each f n (i + 1) (f (s.touch i) i)

/-! ## The calls -/

/-- What `server_ensure_workers` meets: the processors, whether the array is granted, and which
workers can be initialised. -/
structure WorkersEnv where
  cpus : ℕ
  granted : Bool
  initialised : ℕ → Bool

/-- `worker_destroy`. -/
def workerDestroy (s : Server ρ) (i : ℕ) : Server ρ := s.setWorker i Worker.zero

/-- The loop of `server_ensure_workers` from worker `i` on, with the number of turns left. -/
def initWorkers (env : WorkersEnv) : ℕ → ℕ → Server ρ → Rc × Server ρ
  | 0, _, s => (.ok, { s with workersReady := true })
  | n + 1, i, s =>
    let s := s.touch i
    if env.initialised i then initWorkers env n (i + 1) (s.setWorker i Worker.ready)
    else (.err, { Server.each workerDestroy (i + 1) 0 s with workers := none })

/-- `server_ensure_workers`. -/
def ensureWorkers (env : WorkersEnv) (s : Server ρ) : Rc × Server ρ :=
  if s.workersReady then (.ok, s)
  else
    let s := if s.workerCount = 0 then { s with workerCount := cpuCount env.cpus } else s
    if env.granted then
      initWorkers env s.workerCount 0
        { s with workers := some (List.replicate s.workerCount Worker.zero) }
    else (.err, { s with workers := none })

/-- `wirecall_server_set_workers`. -/
def setWorkers (s : Server ρ) (workerCount : ℕ) : Rc × Server ρ :=
  if s.workersReady || s.listening || workerCount = 0 || workerCount > maxWorkers then (.err, s)
  else (.ok, { s with workerCount := workerCount })

/-- `wirecall_server_set_integrity`. -/
def setIntegrity (s : Server ρ) (integrity : UInt32) (macKey : Option (List UInt8)) :
    Rc × Server ρ :=
  if s.workersReady || s.listening || integrity &&& ~~~(integrityChecksum ||| integrityMac) ≠ 0 ||
      (integrity &&& integrityMac ≠ 0 && macKey.isNone) then (.err, s)
  else (.ok, { s with integrity := integrity, macKey := macKey.getD s.macKey })

/-- What becomes of an address: the socket that is made, whether it can be bound, and the port that
`getsockname` gives. -/
structure Address where
  fd : Option ℕ
  bound : Bool
  port : Option UInt16

/-- The first port that is bound is the port of the server. -/
def Server.notePort (s : Server ρ) (port : Option UInt16) : Server ρ :=
  if s.port = 0 then { s with port := port.getD s.port } else s

/-- The loop of `wirecall_server_bind` over the addresses. -/
def bindAddresses : List Address → Rc → Server ρ → Rc × Server ρ
  | [], rc, s => (rc, s)
  | address :: rest, rc, s =>
    let s := s.touch 0
    if (s.worker 0).listeners.length ≥ maxListeners then (rc, s)
    else
      let s := s.touch 0
      match address.fd with
      | none => bindAddresses rest rc s
      | some fd =>
        if address.bound then
          let s := s.notePort address.port
          let worker := s.worker 0
          bindAddresses rest .ok
            (s.setWorker 0 { worker with listeners := worker.listeners ++ [fd] })
        else bindAddresses rest rc s

/-- `wirecall_server_bind`; `addresses` is the answer of `getaddrinfo`. -/
def bind (env : WorkersEnv) (hasPort : Bool) (addresses : Option (List Address)) (s : Server ρ) :
    Rc × Server ρ :=
  if hasPort = false then (.err, s)
  else
    match ensureWorkers env s with
    | (.err, s) => (.err, s)
    | (.ok, s) =>
      match addresses with
      | none => (.err, s)
      | some addresses => bindAddresses addresses .err s

/-- The loop of `wirecall_server_listen` from worker `i` on; `listens` says which sockets can listen
and be registered. -/
def listenWorkers (listens : ℕ → Bool) : ℕ → ℕ → Server ρ → Rc × Server ρ
  | 0, _, s => (.ok, { s with listening := true })
  | n + 1, i, s =>
    let s := s.touch i
    if (s.worker i).listeners.all listens then listenWorkers listens n (i + 1) s else (.err, s)

/-- `wirecall_server_listen`. -/
def listen (listens : ℕ → Bool) (s : Server ρ) : Rc × Server ρ :=
  listenWorkers listens s.workerCount 0 s

/-- A turn of the loop of `wirecall_server_stop`: a backend is accessed once more to be woken. -/
def wakeBackend (s : Server ρ) (i : ℕ) : Server ρ := if (s.worker i).backend then s.touch i else s

/-- `wirecall_server_stop`. -/
def stop (s : Server ρ) : Server ρ :=
  let s := { s with stopping := true }
  if s.workers.isSome then Server.each wakeBackend s.workerCount 0 s else s

/-- A turn of the loop of `wirecall_server_destroy`. -/
def joinAndDestroy (s : Server ρ) (i : ℕ) : Server ρ :=
  let s :=
    if (s.worker i).threadStarted then
      -- joined, and then marked as not started
      ((s.touch i).touch i).setWorker i { s.worker i with threadStarted := false }
    else s
  workerDestroy (s.touch i) i

/-- `wirecall_server_destroy`. -/
def destroy (s : Server ρ) : Server ρ :=
  let s :=
    if s.workers.isSome then
      let s := stop s
      { Server.each joinAndDestroy s.workerCount 0 s with workers := none }
    else s
  { s with freed := true }

/-- A call, with what it meets. Routes are added and removed in the table only. -/
inductive Op (ρ : Type) where
  | setWorkers (workerCount : ℕ)
  | setIntegrity (integrity : UInt32) (macKey : Option (List UInt8))
  | route (change : ρ → ρ)
  | bind (env : WorkersEnv) (hasPort : Bool) (addresses : Option (List Address))
  | listen (listens : ℕ → Bool)
  | stop
  | destroy

/-- A call on a server that was not destroyed, whatever it returns. -/
def Server.step (s : Server ρ) (op : Op ρ) : Option (Server ρ) :=
  if s.freed then none
  else
    match op with
    | .setWorkers workerCount => some (setWorkers s workerCount).2
    | .setIntegrity integrity macKey => some (setIntegrity s integrity macKey).2
    | .route change => some { s with routes := change s.routes }
    | .bind env hasPort addresses => some (bind env hasPort addresses s).2
    | .listen listens => some (listen listens s).2
    | .stop => some (Setup.stop s)
    | .destroy => some (Setup.destroy s)

/-! ## Safe accesses -/

/-- The access is to an element of an array that is there. -/
def Access.Safe (a : Access) : Prop := ∃ n, a.length = some n ∧ a.index < n

/-- **Every access so far was safe.** -/
def Server.Safe (s : Server ρ) : Prop := ∀ a ∈ s.accesses, a.Safe

/-- From `s` to `s'` the array keeps its `n` elements, nothing else that the calls look at changes,
and the accesses are safe. -/
structure Keeps (n : ℕ) (s s' : Server ρ) : Prop where
  length : s'.workers.map List.length = some n
  workerCount : s'.workerCount = s.workerCount
  workersReady : s'.workersReady = s.workersReady
  safe : s.Safe → s'.Safe

section Keeps

variable {n i : ℕ} {s s' s'' : Server ρ}

theorem Keeps.refl (h : s.workers.map List.length = some n) : Keeps n s s := ⟨h, rfl, rfl, id⟩

theorem Keeps.trans (h : Keeps n s s') (h' : Keeps n s' s'') : Keeps n s s'' :=
  ⟨h'.length, h'.workerCount.trans h.workerCount, h'.workersReady.trans h.workersReady,
    h'.safe ∘ h.safe⟩

theorem Keeps.touch (h : Keeps n s s') (hi : i < n) : Keeps n s (s'.touch i) := by
  refine h.trans ⟨h.length, rfl, rfl, fun hsafe a ha => ?_⟩
  rcases List.mem_append.mp ha with hold | hnew
  · exact hsafe a hold
  · rw [List.mem_singleton.mp hnew]
    exact ⟨n, h.length, hi⟩

theorem Keeps.setWorker (h : Keeps n s s') (i : ℕ) (w : Worker) : Keeps n s (s'.setWorker i w) := by
  refine h.trans ⟨?_, rfl, rfl, id⟩
  have hlength := h.length
  show Option.map List.length (s'.workers.map fun ws => ws.set i w) = some n
  rw [Option.map_map, ← hlength]
  congr 1
  funext ws
  exact List.length_set

/-- A loop over elements of the array. -/
theorem Keeps.each {f : Server ρ → ℕ → Server ρ} {k : ℕ}
    (hf : ∀ s' i, i < n → Keeps n s s' → Keeps n s (f s' i)) (h : Keeps n s s') (hk : i + k ≤ n) :
    Keeps n s (Server.each f k i s') := by
  induction k generalizing i s' with
  | zero => exact h
  | succ k ih =>
    have hi : i < n := by omega
    exact ih (hf _ i hi (h.touch hi)) (by omega)

theorem Keeps.wakeBackend (h : Keeps n s s') (hi : i < n) : Keeps n s (wakeBackend s' i) := by
  unfold Setup.wakeBackend
  split_ifs
  · exact h.touch hi
  · exact h

theorem Keeps.workerDestroy (h : Keeps n s s') (i : ℕ) : Keeps n s (workerDestroy s' i) :=
  h.setWorker i _

theorem Keeps.joinAndDestroy (h : Keeps n s s') (hi : i < n) : Keeps n s (joinAndDestroy s' i) := by
  unfold Setup.joinAndDestroy
  apply Keeps.workerDestroy
  split_ifs
  · exact (((h.touch hi).touch hi).setWorker i _).touch hi
  · exact h.touch hi

theorem Keeps.notePort (h : Keeps n s s') (port : Option UInt16) : Keeps n s (s'.notePort port) := by
  unfold Server.notePort
  split_ifs
  · exact h.trans ⟨h.length, rfl, rfl, id⟩
  · exact h

/-- The loop over the addresses is about the first worker. -/
theorem Keeps.bindAddresses (h : Keeps n s s') (hn : 0 < n) (addresses : List Address) (rc : Rc) :
    Keeps n s (bindAddresses addresses rc s').2 := by
  induction addresses generalizing s' rc with
  | nil => exact h
  | cons address rest ih =>
    have hfirst := h.touch hn
    have hsecond := hfirst.touch hn
    unfold Setup.bindAddresses
    dsimp only
    by_cases hfull : ((s'.touch 0).worker 0).listeners.length ≥ maxListeners
    · rw [if_pos hfull]
      exact hfirst
    · rw [if_neg hfull]
      cases address.fd with
      | none => exact ih hsecond rc
      | some fd =>
        dsimp only
        split_ifs
        · exact ih ((hsecond.notePort _).setWorker 0 _) .ok
        · exact ih hsecond rc

theorem Keeps.listenWorkers {listens : ℕ → Bool} {k : ℕ} (h : Keeps n s s') (hk : i + k ≤ n) :
    Keeps n s (listenWorkers listens k i s').2 := by
  induction k generalizing i s' with
  | zero => exact h.trans ⟨h.length, rfl, rfl, id⟩
  | succ k ih =>
    have hnext := h.touch (show i < n by omega)
    unfold Setup.listenWorkers
    dsimp only
    split_ifs
    · exact ih hnext (by omega)
    · exact hnext

end Keeps

/-! ## Between two calls -/

/-- **The array is there, with `worker_count` elements, exactly when `workers_ready` is set**, and no
access was unsafe. -/
structure Consistent (s : Server ρ) : Prop where
  count_pos : 0 < s.workerCount
  length : s.workers.map List.length = if s.workersReady then some s.workerCount else none
  safe : s.Safe

section Consistent

variable {s s' : Server ρ}

theorem cpuCount_pos (cpus : ℕ) : 0 < cpuCount cpus := by
  unfold cpuCount maxWorkers
  split_ifs <;> omega

theorem consistent_init (cpus : ℕ) (routes : ρ) : Consistent (init cpus routes) :=
  ⟨cpuCount_pos cpus, rfl, fun _ h => by cases h⟩

theorem Consistent.length_ready (h : Consistent s) (hready : s.workersReady = true) :
    s.workers.map List.length = some s.workerCount := by
  rw [h.length, if_pos hready]

/-- The calls that find the array and leave it. -/
theorem Consistent.keeps (h : Consistent s) (hready : s.workersReady = true)
    (hkeeps : Keeps s.workerCount s s') : Consistent s' := by
  refine ⟨hkeeps.workerCount ▸ h.count_pos, ?_, hkeeps.safe h.safe⟩
  rw [hkeeps.length, hkeeps.workersReady, hkeeps.workerCount, if_pos hready]

/-- The loop of `server_ensure_workers`: all workers are there at its end, or the array is not. -/
theorem initWorkers_cases {env : WorkersEnv} {n k i : ℕ} (hkeeps : Keeps n s s') (hk : i + k = n) :
    ((initWorkers env k i s').2.workersReady = true ∧
        (initWorkers env k i s').2.workers.map List.length = some n ∨
      (initWorkers env k i s').1 = .err ∧
        (initWorkers env k i s').2.workersReady = s.workersReady ∧
        (initWorkers env k i s').2.workers = none) ∧
      (initWorkers env k i s').2.workerCount = s.workerCount ∧
      (s.Safe → (initWorkers env k i s').2.Safe) := by
  induction k generalizing i s' with
  | zero => exact ⟨.inl ⟨rfl, hkeeps.length⟩, hkeeps.workerCount, hkeeps.safe⟩
  | succ k ih =>
    have hnext := hkeeps.touch (show i < n by omega)
    unfold initWorkers
    dsimp only
    split_ifs with hinit
    · exact ih (hnext.setWorker i _) (by omega)
    · -- the workers so far are destroyed, with the one that failed
      have hall : Keeps n s (Server.each workerDestroy (i + 1) 0 (s'.touch i)) :=
        hnext.each (fun _ j _ h => h.workerDestroy j) (by omega)
      exact ⟨.inr ⟨rfl, hall.workersReady, rfl⟩, hall.workerCount, hall.safe⟩

theorem Consistent.ensureWorkers (h : Consistent s) (env : WorkersEnv) :
    Consistent (ensureWorkers env s).2 ∧
      ((ensureWorkers env s).1 = .ok → (ensureWorkers env s).2.workersReady = true) := by
  unfold Setup.ensureWorkers
  have hcount : s.workerCount ≠ 0 := h.count_pos.ne'
  cases hready : s.workersReady with
  | true => exact ⟨h, fun _ => hready⟩
  | false =>
    simp only [Bool.false_eq_true, if_false, if_neg hcount]
    cases env.granted with
    | false =>
      refine ⟨⟨h.count_pos, ?_, h.safe⟩, fun hok => ?_⟩
      · simp [hready]
      · cases hok
    | true =>
      rw [if_pos rfl]
      have hkeeps : Keeps s.workerCount
          { s with workers := some (List.replicate s.workerCount Worker.zero) }
          { s with workers := some (List.replicate s.workerCount Worker.zero) } :=
        .refl (by simp)
      obtain ⟨hcases, hsame, hsafe⟩ := @initWorkers_cases _ _ _ env _ _ _ hkeeps (Nat.zero_add _)
      have hpos := hsame.trans_gt h.count_pos
      rcases hcases with ⟨hthere, hlength⟩ | ⟨hrc, hnot, hnone⟩
      · refine ⟨⟨hpos, ?_, hsafe h.safe⟩, fun _ => hthere⟩
        rw [hlength, if_pos hthere, hsame]
      · refine ⟨⟨hpos, ?_, hsafe h.safe⟩, fun hok => ?_⟩
        · rw [hnone, hnot, if_neg (by simp [hready])]
          rfl
        · rw [hrc] at hok
          cases hok

theorem Consistent.bind (h : Consistent s) (env : WorkersEnv) (hasPort : Bool)
    (addresses : Option (List Address)) : Consistent (bind env hasPort addresses s).2 := by
  unfold Setup.bind
  split_ifs
  · exact h
  · obtain ⟨hensured, hready⟩ := h.ensureWorkers env
    generalize Setup.ensureWorkers env s = r at hensured hready
    obtain ⟨rc, s'⟩ := r
    cases rc with
    | err => exact hensured
    | ok =>
      cases addresses with
      | none => exact hensured
      | some addresses =>
        have hready := hready rfl
        exact hensured.keeps hready ((Keeps.refl (hensured.length_ready hready)).bindAddresses
          hensured.count_pos addresses .err)

theorem Consistent.listen (h : Consistent s) (hready : s.workersReady = true) (listens : ℕ → Bool) :
    Consistent (listen listens s).2 :=
  h.keeps hready ((Keeps.refl (h.length_ready hready)).listenWorkers (Nat.zero_add _).le)

/-- The array is there whenever the pointer is not `NULL`. -/
theorem Consistent.ready_of_isSome (h : Consistent s) (hsome : s.workers.isSome = true) :
    s.workersReady = true := by
  by_contra hnot
  have hlength := h.length
  rw [if_neg hnot, Option.map_eq_none_iff] at hlength
  rw [hlength] at hsome
  cases hsome

theorem Consistent.keeps_stop (h : Consistent s) (hready : s.workersReady = true) :
    Keeps s.workerCount s (stop s) := by
  have hstopping : Keeps s.workerCount s { s with stopping := true } :=
    ⟨h.length_ready hready, rfl, rfl, id⟩
  unfold Setup.stop
  dsimp only
  split_ifs
  · exact hstopping.each (fun _ _ hi hk => hk.wakeBackend hi) (Nat.zero_add _).le
  · exact hstopping

theorem Consistent.stop (h : Consistent s) : Consistent (stop s) := by
  by_cases hsome : s.workers.isSome = true
  · exact h.keeps (h.ready_of_isSome hsome) (h.keeps_stop (h.ready_of_isSome hsome))
  · unfold Setup.stop
    dsimp only
    rw [if_neg hsome]
    exact ⟨h.count_pos, h.length, h.safe⟩

/-- After the last call the array is gone, and no access to it was unsafe. -/
theorem Consistent.destroy (h : Consistent s) : (destroy s).Safe := by
  unfold Setup.destroy
  dsimp only
  split_ifs with hsome
  · have hkeeps := h.keeps_stop (h.ready_of_isSome hsome)
    have hall := hkeeps.each (fun _ _ hi hk => hk.joinAndDestroy hi) (Nat.zero_add _).le
    rw [← hkeeps.workerCount] at hall
    exact hall.safe h.safe
  · exact h.safe

/-! ## Runs -/

/-- What is asked of a call: the workers are there when the server is to listen. -/
def Op.Meets (s : Server ρ) : Op ρ → Prop
  | .listen _ => s.workersReady = true
  | _ => True

instance (s : Server ρ) : ∀ op : Op ρ, Decidable (op.Meets s)
  | .listen _ => inferInstanceAs (Decidable (s.workersReady = true))
  | .setWorkers _ | .setIntegrity _ _ | .route _ | .bind _ _ _ | .stop | .destroy => .isTrue trivial

/-- **Every such call keeps it.** -/
theorem Consistent.step {op : Op ρ} (h : s.freed = true ∧ s.Safe ∨ Consistent s) (hop : op.Meets s)
    (hstep : s.step op = some s') : s'.freed = true ∧ s'.Safe ∨ Consistent s' := by
  unfold Server.step at hstep
  split_ifs at hstep with hfreed
  replace h : Consistent s := h.resolve_left fun hf => hfreed hf.1
  cases op with
  | setWorkers workerCount =>
    cases hstep
    right
    unfold setWorkers
    split_ifs with hrefused
    · exact h
    · -- the workers are not there yet, so the array is none
      simp only [Bool.or_eq_true, decide_eq_true_eq, not_or] at hrefused
      refine ⟨Nat.pos_of_ne_zero hrefused.1.2, ?_, h.safe⟩
      have hlength := h.length
      rw [if_neg hrefused.1.1.1] at hlength
      exact hlength.trans (if_neg hrefused.1.1.1).symm
  | setIntegrity integrity macKey =>
    cases hstep
    right
    unfold setIntegrity
    split_ifs
    · exact h
    · exact ⟨h.count_pos, h.length, h.safe⟩
  | route change =>
    cases hstep
    exact .inr ⟨h.count_pos, h.length, h.safe⟩
  | bind env hasPort addresses =>
    cases hstep
    exact .inr (h.bind env hasPort addresses)
  | listen listens =>
    cases hstep
    exact .inr (h.listen hop listens)
  | stop =>
    cases hstep
    exact .inr h.stop
  | destroy =>
    cases hstep
    exact .inl ⟨rfl, h.destroy⟩

end Consistent

/-- **Every access is to an element of the array**, in any sequence of calls in which
`wirecall_server_listen` comes only after a `wirecall_server_bind` that made the workers. -/
theorem setup_accesses_safe {cpus : ℕ} {routes : ρ} {ops : List (Op ρ)} {s : Server ρ}
    (hmeets : Machine.Meets Server.step (fun s op => Op.Meets s op) (init cpus routes) ops)
    (hexec : Machine.exec Server.step (init cpus routes) ops = some s) : s.Safe := by
  have h := Machine.exec_invariant (P := fun s : Server ρ => s.freed = true ∧ s.Safe ∨ Consistent s)
    (fun _ _ _ h hop hstep => Consistent.step h hop hstep) (.inr (consistent_init cpus routes)) hmeets
    hexec
  rcases h with h | h
  · exact h.2
  · exact h.safe

/-- Everything is granted, on a machine with two processors. -/
def WorkersEnv.granting : WorkersEnv := ⟨2, true, fun _ => true⟩

/-- A server whose second worker cannot be initialised at first: it is bound again with success, and
then it listens and is destroyed. -/
theorem setup_accesses_safe_rebound : ∃ s : Server Unit,
    Machine.exec Server.step (init 2 ())
      [.bind ⟨2, true, fun i => i = 0⟩ true none, .stop, .setWorkers 3,
        .bind .granting true (some [⟨some 4, true, some 80⟩]), .setWorkers 5,
        .listen fun _ => true, .destroy] = some s ∧ s.accesses.length = 24 ∧ s.Safe := by
  obtain ⟨s, hexec, hlength⟩ := Machine.exists_of_any
    (p := fun s : Server Unit => decide (s.accesses.length = 24))
    (show (Machine.exec Server.step (init 2 ())
      [.bind ⟨2, true, fun i => i = 0⟩ true none, .stop, .setWorkers 3,
        .bind .granting true (some [⟨some 4, true, some 80⟩]), .setWorkers 5,
        .listen fun _ => true, .destroy]).any _ = true by decide +kernel)
  refine ⟨s, hexec, of_decide_eq_true hlength, setup_accesses_safe ?_ hexec⟩
  decide +kernel

/-- **A server that listens before it was bound** accesses the first worker through `NULL`. -/
theorem listen_before_bind : ∃ s : Server Unit,
    Machine.exec Server.step (init 2 ()) [.listen fun _ => true] = some s ∧
      ⟨0, none⟩ ∈ s.accesses ∧ ¬ s.Safe := by
  refine ⟨_, rfl, by decide, fun hsafe => ?_⟩
  obtain ⟨n, hn, -⟩ := hsafe ⟨0, none⟩ (by decide)
  cases hn

end Setup

end Wirecall

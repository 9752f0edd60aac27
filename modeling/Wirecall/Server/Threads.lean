import Wirecall.Server.Setup

/-!
# The threads of a server

`wirecall_server_run` makes a thread for each worker and joins them all. If a thread cannot be made
it stops the server and joins those it has made. The threads end on their own, in any order, and any
thread may stop the server meanwhile. A thread must not be joined twice, nor one that was never
made, and none may be left behind: after `wirecall_server_run` the workers are destroyed.

## Main definitions

* `RunPc`: where `wirecall_server_run` is
* `Running.step`: one action of it, the end of a thread, or a call of `wirecall_server_stop`
* `RunInv`: the threads that were made and not joined are an interval of the workers

## Main results

* `RunInv.step`: every step keeps it
* `RunInv.returns`: once the threads end, `wirecall_server_run` returns
* `run_joins_threads`: **every thread that was made is joined exactly once**
-/

namespace Wirecall

namespace Setup

open Machine

variable {ρ : Type}

/-! ## `wirecall_server_run` -/

inductive WorkerThread where
  | absent
  | running
  | ended
  | joined
  deriving DecidableEq, Repr

/-- The thread was made and not joined. -/
def WorkerThread.Live (t : WorkerThread) : Prop := t = .running ∨ t = .ended

/-- Where `wirecall_server_run` is, with its loop variables. -/
inductive RunPc where
  | start
  /-- In `worker_run`, on the calling thread. -/
  | inline
  | create (i : ℕ)
  /-- The thread of worker `i` could not be made; worker `j` is next to be joined. -/
  | undo (i j : ℕ)
  | join (i : ℕ)
  | returned (rc : Rc)
  deriving DecidableEq, Repr

structure Running (ρ : Type) where
  server : Server ρ
  pc : RunPc
  threads : ℕ → WorkerThread
  /-- The threads that were joined so far. -/
  joins : List ℕ

inductive RunLabel where
  /-- The next action of `wirecall_server_run`; `granted` is the answer of `wirecall_thread_create`,
  or whether `worker_run` ended without an error. -/
  | act (granted : Bool)
  /-- A worker leaves its loop. -/
  | ends (i : ℕ)
  /-- Some thread calls `wirecall_server_stop`. -/
  | stop
  deriving DecidableEq, Repr

/-- `server->workers[i].thread_started = started`. -/
def Server.mark (s : Server ρ) (i : ℕ) (started : Bool) : Server ρ :=
  (s.touch i).setWorker i { s.worker i with threadStarted := started }

namespace Running

def setThread (s : Running ρ) (i : ℕ) (t : WorkerThread) : Running ρ :=
  { s with threads := Function.update s.threads i t }

/-- `wirecall_thread_join`, which waits for the end of the thread, and the mark after it. -/
def joinThread (s : Running ρ) (i : ℕ) (pc : RunPc) : Option (Running ρ) :=
  if s.threads i = .ended then
    some { s.setThread i .joined with
      server := (s.server.touch i).mark i false, pc := pc, joins := s.joins ++ [i] }
  else none

/-- The next action of `wirecall_server_run`. -/
def act (s : Running ρ) (granted : Bool) : Option (Running ρ) :=
  match s.pc with
  | .start =>
    if s.server.listening then
      if s.server.workerCount = 1 then some { s with server := s.server.touch 0, pc := .inline }
      else some { s with pc := .create 0 }
    else some { s with pc := .returned .err }
  | .inline => some { s with pc := .returned (if granted then .ok else .err) }
  | .create i =>
    if i < s.server.workerCount then
      if granted then
        some { s.setThread i .running with
          server := (s.server.touch i).mark i true, pc := .create (i + 1) }
      else some { s with server := Setup.stop (s.server.touch i), pc := .undo i 0 }
    else some { s with pc := .join 0 }
  | .undo i j =>
    if j < i then s.joinThread j (.undo i (j + 1)) else some { s with pc := .returned .err }
  | .join i =>
    if i < s.server.workerCount then s.joinThread i (.join (i + 1))
    else some { s with pc := .returned .ok }
  | .returned _ => none

def step (s : Running ρ) : RunLabel → Option (Running ρ)
  | .act granted => s.act granted
  | .ends i => if s.threads i = .running then some (s.setThread i .ended) else none
  | .stop => some { s with server := Setup.stop s.server }

/-- `wirecall_server_run` is called. -/
def init (server : Server ρ) : Running ρ := ⟨server, .start, fun _ => .absent, []⟩

/-- The thread that is to be joined next. -/
def joinsNext (s : Running ρ) : Option ℕ :=
  match s.pc with
  | .undo i j => if j < i then some j else none
  | .join i => if i < s.server.workerCount then some i else none
  | _ => none

end Running

/-! ## What the calls do to the workers -/

section Workers

variable {s : Server ρ} {i j : ℕ}

theorem each_wakeBackend_workers (k i : ℕ) (s : Server ρ) :
    (Server.each wakeBackend k i s).workers = s.workers := by
  induction k generalizing i s with
  | zero => rfl
  | succ k ih =>
    rw [Server.each, ih]
    unfold wakeBackend
    split_ifs <;> rfl

theorem each_wakeBackend_stopping (k i : ℕ) (s : Server ρ) :
    (Server.each wakeBackend k i s).stopping = s.stopping := by
  induction k generalizing i s with
  | zero => rfl
  | succ k ih =>
    rw [Server.each, ih]
    unfold wakeBackend
    split_ifs <;> rfl

theorem stop_workers (s : Server ρ) : (stop s).workers = s.workers := by
  unfold stop
  dsimp only
  split_ifs
  · exact each_wakeBackend_workers _ _ _
  · rfl

theorem stop_stopping (s : Server ρ) : (stop s).stopping = true := by
  unfold stop
  dsimp only
  split_ifs
  · exact each_wakeBackend_stopping _ _ _
  · rfl

/-- `wirecall_server_stop` changes no worker. -/
theorem stop_worker (s : Server ρ) (i : ℕ) : (stop s).worker i = s.worker i := by
  rw [Server.worker, Server.worker, stop_workers]

theorem mark_worker {n : ℕ} (hlength : s.workers.map List.length = some n) (hi : i < n)
    (started : Bool) : (((s.touch i).mark i started).worker j).threadStarted =
      if j = i then started else (s.worker j).threadStarted := by
  obtain ⟨ws, hws, hlen⟩ := Option.map_eq_some_iff.mp hlength
  simp only [Server.mark, Server.setWorker, Server.touch, Server.worker, hws, Option.map_some,
    Option.getD_some, List.getD_eq_getElem?_getD, List.getElem?_set]
  by_cases heq : j = i
  · subst heq
    simp [hlen, hi]
  · simp [heq, Ne.symm heq]

end Workers

/-! ## The threads that are made and not joined -/

/-- Workers below `joined` have been joined, those up to `made` have a thread, the others none. -/
structure Window (threads : ℕ → WorkerThread) (joined made : ℕ) : Prop where
  before : ∀ i < joined, threads i = .joined
  live : ∀ i, joined ≤ i → i < made → (threads i).Live
  after : ∀ i, made ≤ i → threads i = .absent

/-- What the position of `wirecall_server_run` means for the threads. -/
def RunPc.At (n made joined : ℕ) : RunPc → Prop
  | .start => made = 0 ∧ joined = 0
  | .inline => n = 1 ∧ made = 0 ∧ joined = 0
  | .create i => made = i ∧ joined = 0
  | .undo i j => made = i ∧ joined = j
  | .join i => made = n ∧ joined = i
  | .returned rc => joined = made ∧ (rc = .ok → n = 1 ∨ made = n)

/-- **The threads that are made and not joined are an interval of the workers**, and their marks say
so. -/
structure RunInv (n : ℕ) (s : Running ρ) (made joined : ℕ) : Prop where
  consistent : Consistent s.server
  ready : s.server.workersReady = true
  count : s.server.workerCount = n
  joined_le : joined ≤ made
  made_le : made ≤ n
  window : Window s.threads joined made
  marks : ∀ i, (s.server.worker i).threadStarted = true ↔ joined ≤ i ∧ i < made
  joins : s.joins = List.range joined
  pos : s.pc.At n made joined
  stopping : ∀ i j, s.pc = .undo i j → s.server.stopping = true

section Steps

variable {n made joined i : ℕ} {s s' : Running ρ}

theorem Keeps.mark {t t' : Server ρ} (h : Keeps n t t') (hi : i < n) (started : Bool) :
    Keeps n t (t'.mark i started) :=
  (h.touch hi).setWorker i _

theorem RunInv.length (h : RunInv n s made joined) : s.server.workers.map List.length = some n := by
  rw [h.consistent.length_ready h.ready, h.count]

/-- `wirecall_server_run` goes to another place. -/
theorem RunInv.goto (h : RunInv n s made joined) {pc : RunPc} (hpos : pc.At n made joined)
    (hstop : ∀ i j, pc = .undo i j → s.server.stopping = true) :
    RunInv n { s with pc := pc } made joined :=
  ⟨h.consistent, h.ready, h.count, h.joined_le, h.made_le, h.window, h.marks, h.joins, hpos, hstop⟩

/-- The server changes, but no mark of a worker does. -/
theorem RunInv.setServer (h : RunInv n s made joined) {server : Server ρ}
    (hkeeps : Keeps n s.server server) (hworker : ∀ i, server.worker i = s.server.worker i)
    (hstop : s.server.stopping = true → server.stopping = true) :
    RunInv n { s with server := server } made joined := by
  have hkeeps' : Keeps s.server.workerCount s.server server := h.count.symm ▸ hkeeps
  refine ⟨h.consistent.keeps h.ready hkeeps', hkeeps.workersReady.trans h.ready,
    hkeeps.workerCount.trans h.count, h.joined_le, h.made_le, h.window, fun i => ?_, h.joins, h.pos,
    fun i j hpc => hstop (h.stopping i j hpc)⟩
  dsimp only
  rw [hworker]
  exact h.marks i

theorem RunInv.touch (h : RunInv n s made joined) (hi : i < n) :
    RunInv n { s with server := s.server.touch i } made joined :=
  h.setServer ((Keeps.refl h.length).touch hi) (fun _ => rfl) id

theorem RunInv.stop (h : RunInv n s made joined) :
    RunInv n { s with server := Setup.stop s.server } made joined := by
  refine h.setServer ?_ (stop_worker s.server) fun _ => stop_stopping s.server
  rw [← h.count]
  exact h.consistent.keeps_stop h.ready

theorem RunInv.ends (h : RunInv n s made joined) (hi : s.threads i = .running) :
    RunInv n (s.setThread i .ended) made joined := by
  -- a thread that runs is in the interval, and stays there
  have hin : joined ≤ i ∧ i < made := by
    constructor
    · by_contra hlt
      rw [h.window.before i (by omega)] at hi
      cases hi
    · by_contra hge
      rw [h.window.after i (by omega)] at hi
      cases hi
  refine ⟨h.consistent, h.ready, h.count, h.joined_le, h.made_le,
    ⟨fun k hk => ?_, fun k hk hk' => ?_, fun k hk => ?_⟩, h.marks, h.joins, h.pos, h.stopping⟩
  · exact (Function.update_of_ne (by omega) _ _).trans (h.window.before k hk)
  · by_cases heq : k = i
    · subst heq
      exact .inr (Function.update_self _ _ _)
    · have hsame : (s.setThread i .ended).threads k = s.threads k := Function.update_of_ne heq _ _
      rw [hsame]
      exact h.window.live k hk hk'
  · exact (Function.update_of_ne (by omega) _ _).trans (h.window.after k hk)

/-- A thread is made. -/
theorem RunInv.create (h : RunInv n s made joined) (hmade : made < n) (hjoined : joined = 0) :
    RunInv n { s.setThread made .running with
        server := (s.server.touch made).mark made true, pc := .create (made + 1) }
      (made + 1) joined := by
  have hkeeps : Keeps s.server.workerCount s.server ((s.server.touch made).mark made true) := by
    rw [h.count]
    exact ((Keeps.refl h.length).touch hmade).mark hmade true
  refine ⟨h.consistent.keeps h.ready hkeeps, hkeeps.workersReady.trans h.ready,
    hkeeps.workerCount.trans h.count, by omega, hmade, ⟨fun k hk => ?_, fun k hk hk' => ?_,
    fun k hk => ?_⟩, fun k => ?_, h.joins, ⟨rfl, hjoined⟩, fun i j hpc => ?_⟩
  · omega
  · by_cases heq : k = made
    · subst heq
      exact .inl (Function.update_self _ _ _)
    · have hsame : (s.setThread made .running).threads k = s.threads k :=
        Function.update_of_ne heq _ _
      change ((s.setThread made .running).threads k).Live
      rw [hsame]
      exact h.window.live k hk (by omega)
  · exact (Function.update_of_ne (by omega) _ _).trans (h.window.after k (by omega))
  · dsimp only
    rw [mark_worker h.length hmade]
    by_cases heq : k = made
    · rw [if_pos heq]
      simp only [true_iff]
      omega
    · rw [if_neg heq, h.marks k]
      omega
  · cases hpc

/-- A thread is joined: it is the first one of the interval. -/
theorem RunInv.joinThread {pc : RunPc} (h : RunInv n s made joined) (hlt : joined < made)
    (hpos : pc.At n made (joined + 1)) (hstop : ∀ i j, pc = .undo i j → s.server.stopping = true)
    (hjoin : s.joinThread joined pc = some s') : RunInv n s' made (joined + 1) := by
  unfold Running.joinThread at hjoin
  split_ifs at hjoin with hended
  cases hjoin
  have hn : joined < n := lt_of_lt_of_le hlt h.made_le
  have hkeeps : Keeps s.server.workerCount s.server
      ((s.server.touch joined).mark joined false) := by
    rw [h.count]
    exact ((Keeps.refl h.length).touch hn).mark hn false
  refine ⟨h.consistent.keeps h.ready hkeeps, hkeeps.workersReady.trans h.ready,
    hkeeps.workerCount.trans h.count, hlt, h.made_le, ⟨fun k hk => ?_, fun k hk hk' => ?_,
    fun k hk => ?_⟩, fun k => ?_, ?_, hpos, hstop⟩
  · by_cases heq : k = joined
    · subst heq
      exact Function.update_self _ _ _
    · exact (Function.update_of_ne heq _ _).trans (h.window.before k (by omega))
  · have hsame : (s.setThread joined .joined).threads k = s.threads k :=
      Function.update_of_ne (by omega) _ _
    change ((s.setThread joined .joined).threads k).Live
    rw [hsame]
    exact h.window.live k (by omega) hk'
  · exact (Function.update_of_ne (by omega) _ _).trans (h.window.after k hk)
  · dsimp only
    rw [mark_worker h.length hn]
    by_cases heq : k = joined
    · rw [if_pos heq]
      simp only [Bool.false_eq_true, false_iff]
      omega
    · rw [if_neg heq, h.marks k]
      omega
  · change s.joins ++ [joined] = _
    rw [h.joins, List.range_succ]

/-- The next action of `wirecall_server_run`. -/
theorem RunInv.act {granted : Bool} (h : RunInv n s made joined) (hact : s.act granted = some s') :
    ∃ made' joined', RunInv n s' made' joined' := by
  have hpos := h.pos
  unfold Running.act at hact
  cases hpc : s.pc with
  | start =>
    rw [hpc] at hact hpos
    dsimp only at hact
    split_ifs at hact with hlistening hone
    · cases hact
      have hn : n = 1 := h.count.symm.trans hone
      refine ⟨made, joined, (h.touch (by omega)).goto ⟨hn, hpos⟩ ?_⟩
      exact fun i j heq => by cases heq
    · cases hact
      exact ⟨made, joined, h.goto hpos fun i j heq => by cases heq⟩
    · cases hact
      refine ⟨made, joined, h.goto ⟨hpos.2.trans hpos.1.symm, fun hrc => by cases hrc⟩ ?_⟩
      exact fun i j heq => by cases heq
  | inline =>
    rw [hpc] at hact hpos
    cases hact
    refine ⟨made, joined, h.goto ⟨hpos.2.2.trans hpos.2.1.symm, fun _ => .inl hpos.1⟩ ?_⟩
    exact fun i j heq => by cases heq
  | create i =>
    rw [hpc] at hact hpos
    obtain ⟨rfl, hjoined⟩ := hpos
    dsimp only at hact
    rw [h.count] at hact
    split_ifs at hact with hlt hgranted
    · cases hact
      exact ⟨_, _, h.create hlt hjoined⟩
    · cases hact
      exact ⟨made, joined, (h.touch hlt).stop.goto ⟨rfl, hjoined⟩ fun _ _ _ => stop_stopping _⟩
    · cases hact
      refine ⟨made, joined, h.goto ⟨?_, hjoined⟩ fun i j heq => by cases heq⟩
      have := h.made_le
      omega
  | undo i j =>
    rw [hpc] at hact hpos
    obtain ⟨rfl, rfl⟩ := hpos
    dsimp only at hact
    split_ifs at hact with hlt
    · have hnext : (RunPc.undo made (joined + 1)).At n made (joined + 1) := ⟨rfl, rfl⟩
      exact ⟨_, _, h.joinThread hlt hnext (fun _ _ _ => h.stopping _ _ hpc) hact⟩
    · cases hact
      refine ⟨made, joined, h.goto ⟨?_, fun hrc => by cases hrc⟩ fun i j heq => by cases heq⟩
      have := h.joined_le
      omega
  | join i =>
    rw [hpc] at hact hpos
    obtain ⟨hmade, rfl⟩ := hpos
    dsimp only at hact
    rw [h.count] at hact
    split_ifs at hact with hlt
    · have hnext : (RunPc.join (joined + 1)).At n made (joined + 1) := ⟨hmade, rfl⟩
      exact ⟨_, _, h.joinThread (by omega) hnext (fun i j heq => by cases heq) hact⟩
    · cases hact
      refine ⟨made, joined, h.goto ⟨?_, fun _ => .inr hmade⟩ fun i j heq => by cases heq⟩
      have := h.joined_le
      omega
  | returned rc =>
    rw [hpc] at hact
    cases hact

theorem RunInv.step {l : RunLabel} (h : RunInv n s made joined) (hstep : s.step l = some s') :
    ∃ made' joined', RunInv n s' made' joined' := by
  cases l with
  | act granted => exact h.act hstep
  | ends i =>
    simp only [Running.step] at hstep
    split_ifs at hstep with hrunning
    cases hstep
    exact ⟨made, joined, h.ends hrunning⟩
  | stop =>
    cases hstep
    exact ⟨made, joined, h.stop⟩

/-! ## The return -/

/-- How far `wirecall_server_run` is from its return, if every thread can be made. -/
def RunPc.rank (n : ℕ) : RunPc → ℕ
  | .start => 2 * n + 3
  | .inline => 1
  | .create i => (n - i) + n + 2
  | .undo i j => i - j + 1
  | .join i => n - i + 1
  | .returned _ => 0

theorem joinThread_of_ended (pc : RunPc) (hended : s.threads i = .ended) :
    ∃ s', s.joinThread i pc = some s' ∧ s'.pc = pc :=
  ⟨_, if_pos hended, rfl⟩

/-- A thread that is to be joined ends, and is joined. -/
theorem RunInv.exec_join (h : RunInv n s made joined) (hlt : joined < made) (pc : RunPc)
    (hact : ∀ t : Running ρ, t.pc = s.pc → t.server = s.server →
      t.act true = t.joinThread joined pc) :
    ∃ ls s', exec Running.step s ls = some s' ∧ s'.pc = pc := by
  rcases h.window.live joined le_rfl hlt with hrunning | hended
  · have hends : s.step (.ends joined) = some (s.setThread joined .ended) := if_pos hrunning
    obtain ⟨s', hjoin, hpc⟩ :=
      @joinThread_of_ended _ _ (s.setThread joined .ended) pc (Function.update_self joined _ _)
    rw [← hact (s.setThread joined .ended) rfl rfl] at hjoin
    refine ⟨[.ends joined, .act true], s', exec_cons_eq_some.mpr ⟨_, hends, ?_⟩, hpc⟩
    exact exec_cons_eq_some.mpr ⟨s', hjoin, rfl⟩
  · obtain ⟨s', hjoin, hpc⟩ := joinThread_of_ended pc hended
    rw [← hact s rfl rfl] at hjoin
    exact ⟨[.act true], s', exec_cons_eq_some.mpr ⟨s', hjoin, rfl⟩, hpc⟩

/-- `wirecall_server_run` comes closer to its return. -/
theorem RunInv.advance (h : RunInv n s made joined) (hpc : 0 < s.pc.rank n) :
    ∃ ls s', exec Running.step s ls = some s' ∧ s'.pc.rank n < s.pc.rank n := by
  have hpos := h.pos
  cases hcase : s.pc with
  | start =>
    have hstep : ∃ s', s.step (.act true) = some s' ∧ s'.pc.rank n < 2 * n + 3 := by
      simp only [Running.step, Running.act, hcase]
      split_ifs
      · exact ⟨_, rfl, by simp only [RunPc.rank]; omega⟩
      · exact ⟨_, rfl, by simp only [RunPc.rank]; omega⟩
      · exact ⟨_, rfl, by simp only [RunPc.rank]; omega⟩
    obtain ⟨s', hs', hrank⟩ := hstep
    exact ⟨[.act true], s', exec_cons_eq_some.mpr ⟨s', hs', rfl⟩, hrank⟩
  | inline =>
    refine ⟨[.act true], { s with pc := .returned .ok }, exec_cons_eq_some.mpr ⟨_, ?_, rfl⟩, ?_⟩
    · simp only [Running.step, Running.act, hcase]
      rfl
    · exact Nat.one_pos
  | create i =>
    have hstep : ∃ s', s.step (.act true) = some s' ∧ s'.pc.rank n < (n - i) + n + 2 := by
      simp only [Running.step, Running.act, hcase, h.count]
      split_ifs
      · exact ⟨_, rfl, by simp only [RunPc.rank]; omega⟩
      · exact ⟨_, rfl, by simp only [RunPc.rank]; omega⟩
    obtain ⟨s', hs', hrank⟩ := hstep
    exact ⟨[.act true], s', exec_cons_eq_some.mpr ⟨s', hs', rfl⟩, hrank⟩
  | undo i j =>
    rw [hcase] at hpos
    obtain ⟨rfl, rfl⟩ := hpos
    by_cases hlt : joined < made
    · have hact : ∀ t : Running ρ, t.pc = s.pc → t.server = s.server →
          t.act true = t.joinThread joined (.undo made (joined + 1)) := by
        intro t ht _
        rw [hcase] at ht
        simp only [Running.act, ht, if_pos hlt]
      obtain ⟨ls, s', hexec, hpc'⟩ := h.exec_join hlt _ hact
      exact ⟨ls, s', hexec, by rw [hpc']; simp only [RunPc.rank]; omega⟩
    · refine ⟨[.act true], { s with pc := .returned .err }, exec_cons_eq_some.mpr ⟨_, ?_, rfl⟩, ?_⟩
      · simp only [Running.step, Running.act, hcase, if_neg hlt]
      · exact Nat.succ_pos _
  | join i =>
    rw [hcase] at hpos
    obtain ⟨hmade, rfl⟩ := hpos
    by_cases hlt : joined < n
    · have hact : ∀ t : Running ρ, t.pc = s.pc → t.server = s.server →
          t.act true = t.joinThread joined (.join (joined + 1)) := by
        intro t ht hserver
        rw [hcase] at ht
        simp only [Running.act, ht, hserver, h.count, if_pos hlt]
      obtain ⟨ls, s', hexec, hpc'⟩ := h.exec_join (by omega) _ hact
      exact ⟨ls, s', hexec, by rw [hpc']; simp only [RunPc.rank]; omega⟩
    · refine ⟨[.act true], { s with pc := .returned .ok }, exec_cons_eq_some.mpr ⟨_, ?_, rfl⟩, ?_⟩
      · simp only [Running.step, Running.act, hcase, h.count, if_neg hlt]
      · exact Nat.succ_pos _
  | returned rc =>
    rw [hcase] at hpc
    exact absurd hpc (lt_irrefl 0)

theorem RunInv.exec {ls : List RunLabel} (h : RunInv n s made joined)
    (hexec : exec Running.step s ls = some s') : ∃ made' joined', RunInv n s' made' joined' := by
  have hmeets : Meets Running.step (fun (_ : Running ρ) _ => True) s ls :=
    .of_forall fun _ _ _ => trivial
  refine exec_invariant (P := fun s => ∃ made joined, RunInv n s made joined) ?_ ⟨_, _, h⟩ hmeets
    hexec
  rintro s l s' ⟨made, joined, h⟩ - hstep
  exact h.step hstep

/-- **Once the threads end, `wirecall_server_run` returns.** -/
theorem RunInv.returns (h : RunInv n s made joined) :
    ∃ ls s' rc, Machine.exec Running.step s ls = some s' ∧ s'.pc = .returned rc := by
  -- the induction is on how far it is from its return
  induction hrank : s.pc.rank n using Nat.strong_induction_on generalizing s made joined with
  | h k ih =>
    by_cases hpos : 0 < s.pc.rank n
    · obtain ⟨ls, t, hexec, hlt⟩ := h.advance hpos
      obtain ⟨made', joined', ht⟩ := h.exec hexec
      obtain ⟨ls', s', rc, hexec', hpc⟩ := ih _ (hrank ▸ hlt) ht rfl
      refine ⟨ls ++ ls', s', rc, ?_, hpc⟩
      rw [exec_append, hexec]
      exact hexec'
    · cases hpc : s.pc with
      | returned rc => exact ⟨[], s, rc, rfl, hpc⟩
      | _ =>
        rw [hpc] at hpos
        simp [RunPc.rank] at hpos

theorem runInv_init {server : Server ρ} (hserver : Consistent server)
    (hready : server.workersReady = true)
    (hmarks : ∀ i, (server.worker i).threadStarted = false) :
    RunInv server.workerCount (Running.init server) 0 0 := by
  refine ⟨hserver, hready, rfl, le_rfl, Nat.zero_le _, ⟨?_, ?_, ?_⟩, fun i => ?_, rfl, ⟨rfl, rfl⟩,
    ?_⟩
  · exact fun i hi => absurd hi (Nat.not_lt_zero i)
  · exact fun i _ hi => absurd hi (Nat.not_lt_zero i)
  · exact fun i _ => rfl
  · change (server.worker i).threadStarted = true ↔ _
    rw [hmarks i]
    simp
  · exact fun i j hpc => by cases hpc

end Steps

/-! ## Every thread is joined -/

/-- **Every thread that was made is joined exactly once.** `wirecall_server_run` is called on a
server whose workers are there; threads end and the server is stopped at any time, and any thread
may fail to be made. Every access is to an element of the array, the next thread to be joined is one
that was made and not joined, and the call can still return. When it has returned, no thread is
left, no worker is marked as started, each thread was joined once, and all workers had one if it
returned 0. -/
theorem run_joins_threads (server : Server ρ) (hserver : Consistent server)
    (hready : server.workersReady = true)
    (hmarks : ∀ i, (server.worker i).threadStarted = false) (ls : List RunLabel) (s : Running ρ)
    (hexec : Machine.exec Running.step (Running.init server) ls = some s) :
    s.server.Safe ∧ (∀ i, s.joinsNext = some i → (s.threads i).Live) ∧
    (∃ ls' s' rc, Machine.exec Running.step s ls' = some s' ∧ s'.pc = .returned rc) ∧
    ∀ rc, s.pc = .returned rc →
      (∀ i, ¬ (s.threads i).Live ∧ (s.server.worker i).threadStarted = false ∧
        s.joins.count i = if s.threads i = .joined then 1 else 0) ∧
      (rc = .ok → server.workerCount = 1 ∨ ∀ i < server.workerCount, s.threads i = .joined) := by
  obtain ⟨made, joined, h⟩ := (runInv_init hserver hready hmarks).exec hexec
  have hpos := h.pos
  refine ⟨h.consistent.safe, fun i hnext => ?_, h.returns,
    fun rc hpc => ⟨fun i => ?_, fun hrc => ?_⟩⟩
  · -- the first thread of the interval
    unfold Running.joinsNext at hnext
    cases hpc : s.pc with
    | undo a b =>
      rw [hpc] at hnext hpos
      obtain ⟨rfl, rfl⟩ := hpos
      dsimp only at hnext
      split_ifs at hnext with hlt
      cases hnext
      exact h.window.live joined le_rfl hlt
    | join a =>
      rw [hpc] at hnext hpos
      obtain ⟨hmade, rfl⟩ := hpos
      dsimp only at hnext
      rw [h.count] at hnext
      split_ifs at hnext with hlt
      cases hnext
      exact h.window.live joined le_rfl (by omega)
    | _ =>
      rw [hpc] at hnext
      cases hnext
  · -- the interval is empty
    rw [hpc] at hpos
    have hempty : joined = made := hpos.1
    have hmark : (s.server.worker i).threadStarted = false := by
      by_contra hstarted
      have hin := (h.marks i).mp (by simpa using hstarted)
      omega
    by_cases hi : i < joined
    · have hthread : s.threads i = .joined := h.window.before i hi
      refine ⟨?_, hmark, ?_⟩
      · rw [hthread]
        rintro (hlive | hlive) <;> cases hlive
      · rw [if_pos hthread, h.joins]
        exact List.count_eq_one_of_mem List.nodup_range (List.mem_range.mpr hi)
    · have hthread : s.threads i = .absent := h.window.after i (by omega)
      refine ⟨?_, hmark, ?_⟩
      · rw [hthread]
        rintro (hlive | hlive) <;> cases hlive
      · rw [hthread, if_neg (by decide), h.joins]
        exact List.count_eq_zero_of_not_mem fun hmem => hi (List.mem_range.mp hmem)
  · rw [hpc] at hpos
    obtain ⟨hempty, hall⟩ := hpos
    refine (hall hrc).imp_right fun hmade i hi => ?_
    exact h.window.before i (by omega)

/-- A server with three workers that listens. -/
def threeWorkers : Server Unit where
  workerCount := 3
  workers := some (List.replicate 3 Worker.ready)
  workersReady := true
  listening := true
  stopping := false
  integrity := 0
  macKey := []
  port := 0
  routes := ()
  freed := false
  accesses := []

theorem threeWorkers_consistent : Consistent threeWorkers :=
  ⟨by decide, rfl, fun a ha => absurd ha List.not_mem_nil⟩

theorem threeWorkers_marks (i : ℕ) : (threeWorkers.worker i).threadStarted = false := by
  rcases i with _ | _ | _ | i
  · rfl
  · rfl
  · rfl
  · rfl

/-- The third thread cannot be made; the first two end, in the other order, and are joined. -/
theorem run_joins_threads_undo : ∃ s : Running Unit,
    Machine.exec Running.step (Running.init threeWorkers)
      [.act true, .act true, .act true, .act false, .ends 1, .ends 0, .act true, .act true,
        .act true] = some s ∧
      s.pc = .returned .err ∧ s.joins.count 0 = 1 ∧ s.joins.count 2 = 0 := by
  have hrun : (Machine.exec Running.step (Running.init threeWorkers)
      [.act true, .act true, .act true, .act false, .ends 1, .ends 0, .act true, .act true,
        .act true]).any (fun s => decide (s.pc = .returned .err ∧ s.threads 0 = .joined ∧
          s.threads 2 = .absent)) = true := by decide +kernel
  obtain ⟨s, hexec, hend⟩ := exists_of_any hrun
  obtain ⟨hpc, hfirst, hthird⟩ := of_decide_eq_true hend
  obtain ⟨-, -, -, hreturned⟩ := run_joins_threads threeWorkers threeWorkers_consistent rfl
    threeWorkers_marks _ s hexec
  obtain ⟨hthreads, -⟩ := hreturned _ hpc
  refine ⟨s, hexec, hpc, ?_, ?_⟩
  · rw [(hthreads 0).2.2, if_pos hfirst]
  · rw [(hthreads 2).2.2, hthird]
    rfl

end Setup

end Wirecall

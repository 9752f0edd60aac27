import Wirecall.Machine.Run
import Wirecall.Machine.Atomics

/-!
# Trace counters

Every thread of a client or server adds to the same counters, without a lock: an addition is two
relaxed `fetch_add`s, a load and a loop around a compare-exchange that may fail for no reason. The
model takes these actions one by one, in any order of the threads, and lets a load return any value
its cell has held. A reset and a snapshot are sequences of stores and loads as well, so that others
can come in between.

## Main definitions

* `TraceTask`: a thread inside an addition, a reset or a snapshot, and `TraceTask.step`, its next
  atomic action
* `Trace.step`: one call or one action of one thread
* `Tallied`: the counters agree with what was added

## Main results

* `TraceTask.step_moves`: what one action does to a counter
* `Tallied.step`: every call and every action keeps the tally
* `trace_exact`: **no addition is lost, in any order of the threads**
-/

namespace Wirecall

open Machine

/-! ### Counters and their tables -/

abbrev traceCount : ℕ := 19
abbrev traceMaxWorkers : ℕ := 128
abbrev traceWorkerCount : ℕ := 6

/-- The entries of `counters` and of `worker_counters`. -/
inductive TraceCounter where
  | metric (metric : Fin traceCount)
  | worker (worker : Fin traceMaxWorkers) (metric : Fin traceWorkerCount)
  deriving DecidableEq, Repr

/-- The fields of `wirecall_trace_counter`. -/
inductive TraceField where
  | count
  | total
  | max
  deriving DecidableEq, Repr

/-- One atomic variable. -/
abbrev TraceCell := TraceCounter × TraceField

abbrev TraceCells := TraceCell → History UInt64

def traceNames : List String :=
  ["client.call", "client.send", "client.recv", "client.decode", "server.accept",
    "server.poll_wait", "server.poll_events", "server.loop_active", "server.read", "server.parse",
    "server.route", "server.schedule", "server.write", "sched.submit", "sched.decode",
    "sched.coro_create", "sched.resume", "payload.decode", "route.lookup"]

/-- All metrics are times but number 6, `server.poll_events`. -/
def traceIsTime (metric : Fin traceCount) : Bool := metric.val ≠ 6

/-- `wirecall_trace_stat`. -/
structure TraceStat where
  name : String
  count : UInt64
  total : UInt64
  max : UInt64
  isTime : Bool
  deriving DecidableEq, Repr

def fieldCells (k : TraceCounter) : List TraceCell := [(k, .count), (k, .total), (k, .max)]

/-- The cells of `counters`, in the order of the loops. -/
def metricCells : List TraceCell :=
  (List.finRange traceCount).flatMap fun metric => fieldCells (.metric metric)

/-- The cells of `worker_counters`, in the order of the loops. -/
def workerCells : List TraceCell :=
  (List.finRange traceMaxWorkers).flatMap fun worker =>
    (List.finRange traceWorkerCount).flatMap fun metric => fieldCells (.worker worker metric)

theorem mem_fieldCells (k : TraceCounter) (field : TraceField) : (k, field) ∈ fieldCells k := by
  cases field <;> simp [fieldCells]

theorem mem_metricCells (metric : Fin traceCount) (field : TraceField) :
    (.metric metric, field) ∈ metricCells :=
  List.mem_flatMap.mpr ⟨metric, List.mem_finRange metric, mem_fieldCells _ field⟩

theorem mem_workerCells (worker : Fin traceMaxWorkers) (metric : Fin traceWorkerCount)
    (field : TraceField) : (.worker worker metric, field) ∈ workerCells := by
  refine List.mem_flatMap.mpr ⟨worker, List.mem_finRange worker, ?_⟩
  exact List.mem_flatMap.mpr ⟨metric, List.mem_finRange metric, mem_fieldCells _ field⟩

/-- The loops of `wirecall_trace_reset` leave no cell out. -/
theorem mem_all_cells (c : TraceCell) : c ∈ metricCells ++ workerCells := by
  obtain ⟨k, field⟩ := c
  cases k with
  | metric metric => exact List.mem_append_left _ (mem_metricCells metric field)
  | worker worker metric => exact List.mem_append_right _ (mem_workerCells worker metric field)

/-! ### Threads -/

/-- A thread inside a function of the tracer, by the atomic action that comes next. -/
inductive TraceTask where
  | count (k : TraceCounter) (value : UInt64)
  | total (k : TraceCounter) (value : UInt64)
  | load (k : TraceCounter) (value : UInt64)
  /-- In the loop, with the value of `old`. -/
  | swap (k : TraceCounter) (value old : UInt64) (lt : old < value)
  | reset (rest : List TraceCell)
  | snapshot (rest : List TraceCell) (seen : TraceCell → UInt64)

/-- What an action leaves behind. -/
structure TraceOutcome where
  cells : TraceCells
  next : Option TraceTask
  stats : Option (Fin traceCount → TraceStat)

def writeCell (cells : TraceCells) (c : TraceCell) (a : UInt64) : TraceCells :=
  Function.update cells c ((cells c).write a)

def fetchAdd (cells : TraceCells) (c : TraceCell) (a : UInt64) : TraceCells :=
  writeCell cells c ((cells c).newest + a)

/-- The first half of the condition of the loop. -/
def whileBelow (k : TraceCounter) (value old : UInt64) : Option TraceTask :=
  if lt : old < value then some (.swap k value old lt) else none

/-- The entry of `out` for a metric. -/
def traceStat (seen : TraceCell → UInt64) (metric : Fin traceCount) : TraceStat where
  name := traceNames.getD metric ""
  count := seen (.metric metric, .count)
  total := seen (.metric metric, .total)
  max := seen (.metric metric, .max)
  isTime := traceIsTime metric

/-- The next atomic action of a thread. A load sees the value number `r`. -/
def TraceTask.step (cells : TraceCells) (r : ℕ) (spurious : Bool) :
    TraceTask → Option TraceOutcome
  | .count k value => some ⟨fetchAdd cells (k, .count) 1, some (.total k value), none⟩
  | .total k value => some ⟨fetchAdd cells (k, .total) value, some (.load k value), none⟩
  | .load k value =>
    ((cells (k, .max)).read r).map fun old => ⟨cells, whileBelow k value old, none⟩
  | .swap k value old _ =>
    if (cells (k, .max)).newest = old ∧ spurious = false then
      some ⟨writeCell cells (k, .max) value, none, none⟩
    else
      -- a compare-exchange that fails is a load of `old`
      ((cells (k, .max)).read r).map fun old => ⟨cells, whileBelow k value old, none⟩
  | .reset [] => some ⟨cells, none, none⟩
  | .reset (c :: rest) => some ⟨writeCell cells c 0, some (.reset rest), none⟩
  | .snapshot [] seen => some ⟨cells, none, some (traceStat seen)⟩
  | .snapshot (c :: rest) seen =>
    ((cells c).read r).map fun a =>
      ⟨cells, some (.snapshot rest (Function.update seen c a)), none⟩

/-! ### The tracer -/

structure Trace where
  cells : TraceCells
  enabled : History Bool
  tasks : List TraceTask
  /-- The additions begun since the last reset. -/
  added : List (TraceCounter × UInt64)
  snapshots : List (Fin traceCount → TraceStat)

/-- `wirecall_trace_add_slow` up to its first action. -/
def traceAddSlow (metric : UInt32) (value : UInt64) : Option (TraceCounter × UInt64) :=
  if h : metric.toNat < traceCount then some (.metric ⟨metric.toNat, h⟩, value) else none

/-- `wirecall_trace_worker_add_slow` up to the first action of `trace_counter_add`. -/
def traceWorkerAddSlow (worker metric : UInt32) (value : UInt64) :
    Option (TraceCounter × UInt64) :=
  if h : worker.toNat < traceMaxWorkers ∧ metric.toNat < traceWorkerCount then
    some (.worker ⟨worker.toNat, h.1⟩ ⟨metric.toNat, h.2⟩, value)
  else none

/-- What can happen: a call of the tracer, where `read` is what is seen of the flag, an action of a
thread, or that all threads have been waited for. -/
inductive TraceLabel where
  | setEnabled (on : Bool)
  | add (read : ℕ) (metric : UInt32) (value : UInt64)
  | finish (read : ℕ) (metric : UInt32) (start now : UInt64)
  | workerAdd (read : ℕ) (worker metric : UInt32) (value : UInt64)
  | workerFinish (read : ℕ) (worker metric : UInt32) (start now : UInt64)
  | reset
  | snapshot
  | sync
  | act (thread read : ℕ) (spurious : Bool)
  deriving DecidableEq, Repr

namespace Trace

def launch (s : Trace) : Option (TraceCounter × UInt64) → Trace
  | none => s
  | some (k, value) =>
    { s with tasks := .count k value :: s.tasks, added := (k, value) :: s.added }

def step (s : Trace) : TraceLabel → Option Trace
  | .setEnabled on => some { s with enabled := s.enabled.write on }
  | .add read metric value =>
    (s.enabled.read read).map fun on =>
      s.launch (if on then traceAddSlow metric value else none)
  | .finish read metric start now =>
    (s.enabled.read read).map fun on =>
      s.launch (if on = true ∧ start ≠ 0 then traceAddSlow metric (now - start) else none)
  | .workerAdd read worker metric value =>
    (s.enabled.read read).map fun on =>
      s.launch (if on then traceWorkerAddSlow worker metric value else none)
  | .workerFinish read worker metric start now =>
    (s.enabled.read read).map fun on =>
      s.launch
        (if on = true ∧ start ≠ 0 then traceWorkerAddSlow worker metric (now - start) else none)
  | .reset => some { s with tasks := .reset (metricCells ++ workerCells) :: s.tasks, added := [] }
  | .snapshot => some { s with tasks := .snapshot metricCells (fun _ => 0) :: s.tasks }
  | .sync =>
    if s.tasks.isEmpty then
      some { s with cells := fun c => (s.cells c).settle, enabled := s.enabled.settle }
    else none
  | .act thread read spurious =>
    s.tasks[thread]?.bind fun task =>
      (task.step s.cells read spurious).map fun o =>
        { s with
          cells := o.cells
          -- the thread that acted is listed first from now on
          tasks := o.next.toList ++ s.tasks.eraseIdx thread
          snapshots := o.stats.toList ++ s.snapshots }

/-- What a step does: the flag, a new addition, a reset, a snapshot, a wait, or an action. -/
theorem step_cases {s s' : Trace} {l : TraceLabel} (hstep : s.step l = some s') :
    (∃ enabled, s' = { s with enabled := enabled }) ∨ (∃ call, s' = s.launch call) ∨
    (l = .reset ∧
      s' = { s with tasks := .reset (metricCells ++ workerCells) :: s.tasks, added := [] }) ∨
    s' = { s with tasks := .snapshot metricCells (fun _ => 0) :: s.tasks } ∨
    (s.tasks = [] ∧
      s' = { s with cells := fun c => (s.cells c).settle, enabled := s.enabled.settle }) ∨
    ∃ thread read spurious task o, s.tasks[thread]? = some task ∧
      task.step s.cells read spurious = some o ∧
      s' = { s with
        cells := o.cells
        tasks := o.next.toList ++ s.tasks.eraseIdx thread
        snapshots := o.stats.toList ++ s.snapshots } := by
  cases l with
  | setEnabled on => exact .inl ⟨_, (Option.some.inj hstep).symm⟩
  | add read metric value =>
    obtain ⟨on, -, rfl⟩ := Option.map_eq_some_iff.mp hstep
    exact .inr (.inl ⟨_, rfl⟩)
  | finish read metric start now =>
    obtain ⟨on, -, rfl⟩ := Option.map_eq_some_iff.mp hstep
    exact .inr (.inl ⟨_, rfl⟩)
  | workerAdd read worker metric value =>
    obtain ⟨on, -, rfl⟩ := Option.map_eq_some_iff.mp hstep
    exact .inr (.inl ⟨_, rfl⟩)
  | workerFinish read worker metric start now =>
    obtain ⟨on, -, rfl⟩ := Option.map_eq_some_iff.mp hstep
    exact .inr (.inl ⟨_, rfl⟩)
  | reset => exact .inr (.inr (.inl ⟨rfl, (Option.some.inj hstep).symm⟩))
  | snapshot => exact .inr (.inr (.inr (.inl (Option.some.inj hstep).symm)))
  | sync =>
    by_cases hquiet : s.tasks.isEmpty = true
    · rw [step, if_pos hquiet] at hstep
      exact .inr (.inr (.inr (.inr (.inl
        ⟨List.isEmpty_iff.mp hquiet, (Option.some.inj hstep).symm⟩))))
    · rw [step, if_neg hquiet] at hstep
      cases hstep
  | act thread read spurious =>
    obtain ⟨task, hget, hrest⟩ := Option.bind_eq_some_iff.mp hstep
    obtain ⟨o, ho, rfl⟩ := Option.map_eq_some_iff.mp hrest
    exact .inr (.inr (.inr (.inr (.inr ⟨thread, read, spurious, task, o, hget, ho, rfl⟩))))

end Trace

/-! ### What an action does to a counter -/

/-- What an addition is worth to a cell. -/
def worth (c : TraceCell) (call : TraceCounter × UInt64) : UInt64 :=
  if call.1 = c.1 then
    match c.2 with
    | .count => 1
    | .total => call.2
    | .max => 0
  else 0

namespace TraceTask

/-- What a thread is still to add to a cell. -/
def owes (c : TraceCell) : TraceTask → UInt64
  | .count k value => worth c (k, value)
  | .total k value => if c.2 = .count then 0 else worth c (k, value)
  | _ => 0

/-- The addition a thread is in. -/
def adding : TraceTask → Option (TraceCounter × UInt64)
  | .count k value => some (k, value)
  | .total k value => some (k, value)
  | .load k value => some (k, value)
  | .swap k value _ _ => some (k, value)
  | _ => none

def IsReset : TraceTask → Prop
  | .reset _ => True
  | _ => False

/-- **One action of a thread** that is not in a reset. -/
structure Moves (cells : TraceCells) (task : TraceTask) (o : TraceOutcome) : Prop where
  pays : ∀ c, c.2 ≠ .max →
    (o.cells c).newest + (o.next.toList.map (owes c)).sum = (cells c).newest + owes c task
  rises : ∀ k, (cells (k, .max)).Rising UInt64.toNat → (o.cells (k, .max)).Rising UInt64.toNat
  grows : ∀ k, (o.cells (k, .max)).newest = (cells (k, .max)).newest ∨
    (cells (k, .max)).newest < (o.cells (k, .max)).newest ∧
      task.adding = some (k, (o.cells (k, .max)).newest)
  next : ∀ task', o.next = some task' → task'.adding = task.adding ∧ ¬ task'.IsReset
  done : o.next = none → ∀ k value, task.adding = some (k, value) →
    (cells (k, .max)).Rising UInt64.toNat → value ≤ (o.cells (k, .max)).newest

variable {cells : TraceCells} {c : TraceCell} {a : UInt64} {k : TraceCounter}

theorem newest_writeCell (cells : TraceCells) (c : TraceCell) (a : UInt64) (c' : TraceCell) :
    (writeCell cells c a c').newest = if c' = c then a else (cells c').newest := by
  by_cases heq : c' = c
  · subst heq
    rw [if_pos rfl, writeCell, Function.update_self, History.newest_write]
  · rw [if_neg heq, writeCell, Function.update_of_ne heq]

theorem writeCell_of_ne {c' : TraceCell} (hne : c' ≠ c) : writeCell cells c a c' = cells c' :=
  Function.update_of_ne hne _ _

/-- The loop goes on with the same addition, or the value seen was large enough. -/
theorem whileBelow_cases (k : TraceCounter) (value old : UInt64) :
    (∃ lt, whileBelow k value old = some (.swap k value old lt)) ∨
      whileBelow k value old = none ∧ value ≤ old := by
  by_cases lt : old < value
  · exact .inl ⟨lt, dif_pos lt⟩
  · exact .inr ⟨dif_neg lt, UInt64.not_lt.mp lt⟩

/-- A `fetch_add` of what is owed, to a cell that is not a maximum. -/
theorem Moves.fetchAdd {task next : TraceTask} (hc : c.2 ≠ .max)
    (hpays : ∀ c', c'.2 ≠ .max →
      (if c' = c then a else 0) + owes c' next = owes c' task)
    (hadding : next.adding = task.adding) (hreset : ¬ next.IsReset) :
    Moves cells task ⟨Wirecall.fetchAdd cells c a, some next, none⟩ := by
  have hmax : ∀ k, Wirecall.fetchAdd cells c a (k, .max) = cells (k, .max) := by
    intro k
    refine writeCell_of_ne fun heq => hc ?_
    rw [← heq]
  constructor
  · intro c' hc'
    rw [← hpays c' hc', Wirecall.fetchAdd, newest_writeCell]
    by_cases heq : c' = c
    · subst heq
      simp [UInt64.add_assoc]
    · simp [heq]
  · intro k hrise
    dsimp only
    rw [hmax]
    exact hrise
  · intro k
    exact .inl (congrArg History.newest (hmax k))
  · intro task' heq
    cases heq
    exact ⟨hadding, hreset⟩
  · intro heq
    cases heq

/-- A load of the maximum, alone or by a compare-exchange that failed. -/
theorem Moves.load {task : TraceTask} {value old : UInt64} {r : ℕ}
    (hread : (cells (k, .max)).read r = some old) (hadding : task.adding = some (k, value))
    (howes : ∀ c, owes c task = 0) : Moves cells task ⟨cells, whileBelow k value old, none⟩ := by
  constructor
  · intro c hc
    rcases whileBelow_cases k value old with ⟨lt, heq⟩ | ⟨heq, -⟩
    · rw [heq, howes]
      rfl
    · rw [heq, howes]
      rfl
  · exact fun k hrise => hrise
  · exact fun k => .inl rfl
  · intro task' heq
    rcases whileBelow_cases k value old with ⟨lt, hsome⟩ | ⟨hnone, -⟩
    · cases hsome.symm.trans heq
      exact ⟨hadding.symm, id⟩
    · cases hnone.symm.trans heq
  · intro hnone k' value' hadding' hrise
    cases hadding.symm.trans hadding'
    rcases whileBelow_cases k value old with ⟨lt, hsome⟩ | ⟨-, hle⟩
    · cases hsome.symm.trans hnone
    · -- what was seen may be old, but the maximum has only grown since
      exact UInt64.le_trans hle (UInt64.le_iff_toNat_le.mpr (hrise.read_le hread))

/-- The compare-exchange that succeeds. -/
theorem Moves.exchange {value old : UInt64} (lt : old < value)
    (hold : (cells (k, .max)).newest = old) :
    Moves cells (.swap k value old lt) ⟨writeCell cells (k, .max) value, none, none⟩ := by
  constructor
  · intro c hc
    have hne : c ≠ (k, .max) := fun heq => hc (by rw [heq])
    simp [writeCell_of_ne hne, owes]
  · intro k' hrise
    by_cases heq : k' = k
    · subst heq
      dsimp only
      rw [writeCell, Function.update_self]
      refine hrise.write ?_
      rw [hold]
      exact Nat.le_of_lt (UInt64.lt_iff_toNat_lt.mp lt)
    · have hne : (k', TraceField.max) ≠ (k, .max) := by simpa using heq
      dsimp only
      rw [writeCell_of_ne hne]
      exact hrise
  · intro k'
    dsimp only
    rw [newest_writeCell]
    by_cases heq : k' = k
    · subst heq
      rw [if_pos rfl, hold]
      exact .inr ⟨lt, rfl⟩
    · rw [if_neg (by simpa using heq)]
      exact .inl rfl
  · intro task' heq
    cases heq
  · intro _ k' value' hadding _
    cases hadding
    dsimp only
    rw [newest_writeCell, if_pos rfl]
    exact UInt64.le_refl value

/-- An action that changes no cell, of a thread that adds nothing. -/
theorem Moves.idle {task : TraceTask} {o : TraceOutcome} (hcells : o.cells = cells)
    (howes : ∀ c, owes c task = 0) (hadding : task.adding = none)
    (hnext : ∀ next, o.next = some next →
      next.adding = none ∧ ¬ next.IsReset ∧ ∀ c, owes c next = 0) : Moves cells task o := by
  constructor
  · intro c _
    rw [hcells, howes]
    cases hcase : o.next with
    | none => simp
    | some next => simp [(hnext next hcase).2.2]
  · intro k hrise
    rw [hcells]
    exact hrise
  · exact fun k => .inl (by rw [hcells])
  · intro task' heq
    exact ⟨(hnext task' heq).1.trans hadding.symm, (hnext task' heq).2.1⟩
  · intro _ k value hsome
    cases hadding.symm.trans hsome

theorem step_moves {task : TraceTask} {o : TraceOutcome} {r : ℕ} {spurious : Bool}
    (hreset : ¬ task.IsReset) (hstep : task.step cells r spurious = some o) :
    Moves cells task o := by
  cases task with
  | count k value =>
    cases hstep
    refine .fetchAdd (by simp) ?_ rfl id
    rintro ⟨k', field⟩ hfield
    by_cases heq : k = k' <;> cases field <;> simp_all [owes, worth, eq_comm]
  | total k value =>
    cases hstep
    refine .fetchAdd (by simp) ?_ rfl id
    rintro ⟨k', field⟩ hfield
    by_cases heq : k = k' <;> cases field <;> simp_all [owes, worth, eq_comm]
  | load k value =>
    obtain ⟨old, hread, rfl⟩ := Option.map_eq_some_iff.mp hstep
    exact .load hread rfl fun c => rfl
  | swap k value old lt =>
    by_cases hwin : (cells (k, .max)).newest = old ∧ spurious = false
    · rw [step, if_pos hwin] at hstep
      cases hstep
      exact .exchange lt hwin.1
    · rw [step, if_neg hwin] at hstep
      obtain ⟨seen, hread, rfl⟩ := Option.map_eq_some_iff.mp hstep
      exact .load hread rfl fun c => rfl
  | reset rest => exact absurd trivial hreset
  | snapshot rest seen =>
    cases rest with
    | nil =>
      cases hstep
      refine .idle rfl (fun c => rfl) rfl ?_
      intro next heq
      cases heq
    | cons c rest =>
      obtain ⟨a, -, rfl⟩ := Option.map_eq_some_iff.mp hstep
      refine .idle rfl (fun c => rfl) rfl ?_
      intro next heq
      cases heq
      exact ⟨rfl, id, fun c => rfl⟩

end TraceTask

/-! ### The tally -/

/-- **The counters agree with what was added**: counts and sums up to what threads still owe, and
the maximum up to the values of additions that are not finished. -/
structure Tallied (s : Trace) : Prop where
  paid : ∀ c, c.2 ≠ .max →
    (s.cells c).newest + (s.tasks.map (TraceTask.owes c)).sum = (s.added.map (worth c)).sum
  rising : ∀ k, (s.cells (k, .max)).Rising UInt64.toNat
  known : ∀ k, (s.cells (k, .max)).newest = 0 ∨ (k, (s.cells (k, .max)).newest) ∈ s.added
  kept : ∀ k value, (k, value) ∈ s.added → value ≤ (s.cells (k, .max)).newest ∨
    ∃ task ∈ s.tasks, task.adding = some (k, value)
  begun : ∀ task ∈ s.tasks, ∀ call, task.adding = some call → call ∈ s.added
  noReset : ∀ task ∈ s.tasks, ¬ task.IsReset

namespace Tallied

variable {s s' : Trace}

/-- A call of the tracer. -/
theorem launch (h : Tallied s) (call : Option (TraceCounter × UInt64)) :
    Tallied (s.launch call) := by
  cases call with
  | none => exact h
  | some call =>
    obtain ⟨k, value⟩ := call
    refine ⟨fun c hc => ?_, h.rising, fun k' => ?_, fun k' value' hmem => ?_, ?_, ?_⟩
    · -- the new thread owes what the new addition is worth
      have hpaid := h.paid c hc
      simp only [Trace.launch, List.map_cons, List.sum_cons]
      rw [← hpaid, TraceTask.owes, ← UInt64.add_assoc, ← UInt64.add_assoc,
        UInt64.add_comm (s.cells c).newest]
    · exact (h.known k').imp_right fun hmem => List.mem_cons_of_mem _ hmem
    · rcases List.mem_cons.mp hmem with heq | hold
      · cases heq
        exact .inr ⟨.count k value, List.mem_cons_self, rfl⟩
      · refine (h.kept k' value' hold).imp_right ?_
        rintro ⟨task, htask, hadding⟩
        exact ⟨task, List.mem_cons_of_mem _ htask, hadding⟩
    · intro task htask call hadding
      rcases List.mem_cons.mp htask with rfl | hold
      · cases hadding
        exact List.mem_cons_self
      · exact List.mem_cons_of_mem _ (h.begun task hold call hadding)
    · intro task htask
      rcases List.mem_cons.mp htask with rfl | hold
      · exact id
      · exact h.noReset task hold

/-- A snapshot begins. -/
theorem snapshot (h : Tallied s) (rest : List TraceCell) (seen : TraceCell → UInt64) :
    Tallied { s with tasks := .snapshot rest seen :: s.tasks } := by
  refine ⟨fun c hc => ?_, h.rising, h.known, fun k value hmem => ?_, ?_, ?_⟩
  · have hpaid := h.paid c hc
    simp only [List.map_cons, List.sum_cons, TraceTask.owes]
    rw [UInt64.zero_add]
    exact hpaid
  · refine (h.kept k value hmem).imp_right ?_
    rintro ⟨task, htask, hadding⟩
    exact ⟨task, List.mem_cons_of_mem _ htask, hadding⟩
  · intro task htask call hadding
    rcases List.mem_cons.mp htask with rfl | hold
    · cases hadding
    · exact h.begun task hold call hadding
  · intro task htask
    rcases List.mem_cons.mp htask with rfl | hold
    · exact id
    · exact h.noReset task hold

theorem settle (h : Tallied s) :
    Tallied { s with cells := fun c => (s.cells c).settle, enabled := s.enabled.settle } :=
  ⟨h.paid, fun _ => History.rising_settle _, h.known, h.kept, h.begun, h.noReset⟩

open scoped UInt64.CommRing in
/-- An action of one of the threads. -/
theorem act (h : Tallied s) {task : TraceTask} {o : TraceOutcome} {i : ℕ}
    (hget : s.tasks[i]? = some task) (hmoves : task.Moves s.cells o)
    (snapshots : List (Fin traceCount → TraceStat)) :
    Tallied { s with
      cells := o.cells, tasks := o.next.toList ++ s.tasks.eraseIdx i, snapshots := snapshots } := by
  have htask : task ∈ s.tasks := List.mem_of_getElem? hget
  have hperm := perm_of_getElem? hget
  -- a thread of the new list has acted, or was there before
  have hthreads : ∀ t ∈ o.next.toList ++ s.tasks.eraseIdx i, o.next = some t ∨ t ∈ s.tasks := by
    intro t ht
    rcases List.mem_append.mp ht with hnext | hold
    · exact .inl (Option.mem_toList.mp hnext)
    · exact .inr (List.mem_of_mem_eraseIdx hold)
  have hgrows : ∀ k, (s.cells (k, .max)).newest ≤ (o.cells (k, .max)).newest := by
    intro k
    rcases hmoves.grows k with heq | ⟨hlt, -⟩
    · rw [heq]
      exact UInt64.le_refl _
    · exact UInt64.le_of_lt hlt
  refine ⟨fun c hc => ?_, fun k => hmoves.rises k (h.rising k), fun k => ?_,
    fun k value hmem => ?_, ?_, ?_⟩
  · exact (sum_move (TraceTask.owes c) hget (hmoves.pays c hc)).trans (h.paid c hc)
  · rcases hmoves.grows k with heq | ⟨-, hadding⟩
    · dsimp only
      rw [heq]
      exact h.known k
    · exact .inr (h.begun task htask _ hadding)
  · rcases h.kept k value hmem with hle | ⟨t, ht, hadding⟩
    · exact .inl (UInt64.le_trans hle (hgrows k))
    · rcases List.mem_cons.mp (hperm.mem_iff.mp ht) with rfl | hother
      · cases hnext : o.next with
        | none => exact .inl (hmoves.done hnext k value hadding (h.rising k))
        | some t' =>
          exact .inr ⟨t', List.mem_cons_self, (hmoves.next t' hnext).1.trans hadding⟩
      · exact .inr ⟨t, List.mem_append_right _ hother, hadding⟩
  · intro t ht call hadding
    rcases hthreads t ht with hnext | hold
    · exact h.begun task htask call ((hmoves.next t hnext).1.symm.trans hadding)
    · exact h.begun t hold call hadding
  · intro t ht
    rcases hthreads t ht with hnext | hold
    · exact (hmoves.next t hnext).2
    · exact h.noReset t hold

theorem step {l : TraceLabel} (h : Tallied s) (hl : l ≠ .reset) (hstep : s.step l = some s') :
    Tallied s' := by
  rcases Trace.step_cases hstep with ⟨enabled, rfl⟩ | ⟨call, rfl⟩ | ⟨hreset, -⟩ | rfl |
    ⟨-, rfl⟩ | ⟨i, r, spurious, task, o, hget, ho, rfl⟩
  · exact ⟨h.paid, h.rising, h.known, h.kept, h.begun, h.noReset⟩
  · exact h.launch call
  · exact absurd hreset hl
  · exact h.snapshot _ _
  · exact h.settle
  · exact h.act hget (TraceTask.step_moves (h.noReset task (List.mem_of_getElem? hget)) ho) _

theorem exec {ls : List TraceLabel} (h : Tallied s) (hls : ∀ l ∈ ls, l ≠ .reset)
    (hexec : exec Trace.step s ls = some s') : Tallied s' := by
  have hmeets : Meets Trace.step (fun _ l => l ≠ .reset) s ls := .of_forall fun _ => hls
  exact exec_invariant (fun _ _ _ h hl hstep => h.step hl hstep) h hmeets hexec

end Tallied

/-! ### A reset and a snapshot on their own -/

/-- The steps of a thread that is alone. -/
def alone (n : ℕ) : List TraceLabel := List.replicate n (.act 0 0 false)

/-- `wirecall_trace_reset` while nothing else runs, waited for. -/
def resetAlone : List TraceLabel :=
  .reset :: (alone ((metricCells ++ workerCells).length + 1) ++ [.sync])

/-- `wirecall_trace_snapshot` after all threads have been waited for. -/
def snapshotAlone : List TraceLabel := .sync :: .snapshot :: alone (metricCells.length + 1)

theorem exec_reset {s : Trace} (rest : List TraceCell) (htasks : s.tasks = [.reset rest]) :
    ∃ cells, exec Trace.step s (alone (rest.length + 1)) =
        some { s with cells := cells, tasks := [] } ∧
      ∀ c, (cells c).newest = if c ∈ rest then 0 else (s.cells c).newest := by
  induction rest generalizing s with
  | nil =>
    refine ⟨s.cells, ?_, fun c => rfl⟩
    refine exec_cons_eq_some.mpr ⟨_, ?_, rfl⟩
    simp [Trace.step, htasks, TraceTask.step]
  | cons c rest ih =>
    -- one store, then the rest of the loops
    obtain ⟨cells, hexec, hnewest⟩ :=
      @ih { s with cells := writeCell s.cells c 0, tasks := [.reset rest] } rfl
    refine ⟨cells, exec_cons_eq_some.mpr ⟨_, ?_, hexec⟩, fun c' => ?_⟩
    · simp [Trace.step, htasks, TraceTask.step]
    · rw [hnewest c', TraceTask.newest_writeCell]
      by_cases hrest : c' ∈ rest
      · rw [if_pos hrest, if_pos (List.mem_cons_of_mem _ hrest)]
      · by_cases heq : c' = c
        · rw [if_neg hrest, if_pos heq, if_pos (heq ▸ List.mem_cons_self)]
        · rw [if_neg hrest, if_neg heq, if_neg (by simp [heq, hrest])]

/-- **A reset on its own clears every counter.** -/
theorem exec_resetAlone {s : Trace} (hquiet : s.tasks = []) :
    exec Trace.step s resetAlone =
      some ⟨fun _ => ⟨0, []⟩, s.enabled.settle, [], [], s.snapshots⟩ := by
  obtain ⟨cells, hexec, hnewest⟩ := @exec_reset
    { s with tasks := [.reset (metricCells ++ workerCells)], added := [] } _ rfl
  refine exec_cons_eq_some.mpr ⟨_, by rw [Trace.step, hquiet], ?_⟩
  rw [exec_append, hexec]
  have hcells : (fun c => (cells c).settle) = fun _ => (⟨0, []⟩ : History UInt64) := by
    funext c
    rw [History.settle, hnewest c, if_pos (mem_all_cells c)]
  change Option.bind (some _) _ = _
  rw [← hcells]
  rfl

theorem tallied_cleared (enabled : History Bool) (snapshots : List (Fin traceCount → TraceStat)) :
    Tallied ⟨fun _ => ⟨0, []⟩, enabled, [], [], snapshots⟩ := by
  refine ⟨fun c hc => rfl, fun k => ?_, fun k => .inl rfl, ?_, ?_, ?_⟩
  · exact fun a ha => absurd ha List.not_mem_nil
  · exact fun k value hmem => absurd hmem List.not_mem_nil
  · exact fun task htask => absurd htask List.not_mem_nil
  · exact fun task htask => absurd htask List.not_mem_nil

theorem exec_snapshot {s : Trace} (rest : List TraceCell) (seen : TraceCell → UInt64)
    (htasks : s.tasks = [.snapshot rest seen]) :
    ∃ seen', exec Trace.step s (alone (rest.length + 1)) =
        some { s with tasks := [], snapshots := traceStat seen' :: s.snapshots } ∧
      ∀ c, seen' c = if c ∈ rest then (s.cells c).newest else seen c := by
  induction rest generalizing s seen with
  | nil =>
    refine ⟨seen, exec_cons_eq_some.mpr ⟨_, ?_, rfl⟩, fun c => rfl⟩
    simp [Trace.step, htasks, TraceTask.step]
  | cons c rest ih =>
    obtain ⟨seen', hexec, hseen⟩ := @ih
      { s with tasks := [.snapshot rest (Function.update seen c (s.cells c).newest)] }
      (Function.update seen c (s.cells c).newest) rfl
    refine ⟨seen', exec_cons_eq_some.mpr ⟨_, ?_, hexec⟩, fun c' => ?_⟩
    · simp [Trace.step, htasks, TraceTask.step, History.read]
    · rw [hseen c']
      by_cases hrest : c' ∈ rest
      · rw [if_pos hrest, if_pos (List.mem_cons_of_mem _ hrest)]
      · by_cases heq : c' = c
        · subst heq
          rw [if_neg hrest, Function.update_self, if_pos List.mem_cons_self]
        · rw [if_neg hrest, Function.update_of_ne heq, if_neg (by simp [heq, hrest])]

/-- A snapshot on its own sees the newest values. -/
theorem exec_snapshotAlone {s : Trace} (hquiet : s.tasks = []) :
    ∃ s' seen, exec Trace.step s snapshotAlone = some s' ∧
      s'.snapshots = traceStat seen :: s.snapshots ∧
      ∀ metric field,
        seen (.metric metric, field) = (s.cells (.metric metric, field)).newest := by
  obtain ⟨seen, hexec, hseen⟩ := @exec_snapshot
    { s with
      cells := fun c => (s.cells c).settle, enabled := s.enabled.settle,
      tasks := [.snapshot metricCells fun _ => 0] } _ _ rfl
  have hsync : s.step .sync =
      some { s with cells := fun c => (s.cells c).settle, enabled := s.enabled.settle } := by
    rw [Trace.step, hquiet]
    rfl
  have hbegin : Trace.step
      { s with cells := fun c => (s.cells c).settle, enabled := s.enabled.settle } .snapshot =
      some { s with
        cells := fun c => (s.cells c).settle, enabled := s.enabled.settle,
        tasks := [.snapshot metricCells fun _ => 0] } := by
    rw [Trace.step, hquiet]
  refine ⟨_, seen, exec_cons_eq_some.mpr ⟨_, hsync, exec_cons_eq_some.mpr ⟨_, hbegin, hexec⟩⟩,
    rfl, fun metric field => ?_⟩
  rw [hseen, if_pos (mem_metricCells metric field)]
  rfl

/-! ### No addition is lost -/

/-- The values added to a counter since the last reset, newest first. -/
def Trace.valuesOn (s : Trace) (k : TraceCounter) : List UInt64 :=
  s.added.filterMap fun call => if call.1 = k then some call.2 else none

/-- The largest of some values, 0 if there are none. -/
def IsTop (values : List UInt64) (top : UInt64) : Prop :=
  (top = 0 ∨ top ∈ values) ∧ ∀ value ∈ values, value ≤ top

theorem Trace.mem_valuesOn {s : Trace} {k : TraceCounter} {value : UInt64} :
    value ∈ s.valuesOn k ↔ (k, value) ∈ s.added := by
  rw [Trace.valuesOn, List.mem_filterMap]
  constructor
  · rintro ⟨⟨k', value'⟩, hmem, heq⟩
    by_cases hk : k' = k
    · rw [if_pos hk] at heq
      cases heq
      exact hk ▸ hmem
    · rw [if_neg hk] at heq
      cases heq
  · intro hmem
    exact ⟨(k, value), hmem, if_pos rfl⟩

theorem sum_worth_count (k : TraceCounter) (added : List (TraceCounter × UInt64)) :
    (added.map (worth (k, .count))).sum =
      UInt64.ofNat
        (added.filterMap fun call => if call.1 = k then some call.2 else none).length := by
  induction added with
  | nil => rfl
  | cons call added ih =>
    by_cases hk : call.1 = k
    · simp [worth, hk, ih, UInt64.ofNat_add, UInt64.add_comm]
    · simp [worth, hk, ih]

theorem sum_worth_total (k : TraceCounter) (added : List (TraceCounter × UInt64)) :
    (added.map (worth (k, .total))).sum =
      (added.filterMap fun call => if call.1 = k then some call.2 else none).sum := by
  induction added with
  | nil => rfl
  | cons call added ih =>
    by_cases hk : call.1 = k
    · simp [worth, hk, ih]
    · simp [worth, hk, ih]

theorem Tallied.count_eq {s : Trace} (h : Tallied s) (k : TraceCounter) :
    (s.cells (k, .count)).newest + (s.tasks.map (TraceTask.owes (k, .count))).sum =
      UInt64.ofNat (s.valuesOn k).length :=
  (h.paid (k, .count) (by simp)).trans (sum_worth_count k s.added)

theorem Tallied.total_eq {s : Trace} (h : Tallied s) (k : TraceCounter) :
    (s.cells (k, .total)).newest + (s.tasks.map (TraceTask.owes (k, .total))).sum =
      (s.valuesOn k).sum :=
  (h.paid (k, .total) (by simp)).trans (sum_worth_total k s.added)

/-- Once no thread is inside the tracer, the maximum is exact. -/
theorem Tallied.isTop {s : Trace} (h : Tallied s) (hquiet : s.tasks = []) (k : TraceCounter) :
    IsTop (s.valuesOn k) (s.cells (k, .max)).newest := by
  refine ⟨(h.known k).imp_right Trace.mem_valuesOn.mpr, fun value hmem => ?_⟩
  refine (h.kept k value (Trace.mem_valuesOn.mp hmem)).resolve_right ?_
  rintro ⟨task, htask, -⟩
  rw [hquiet] at htask
  exact List.not_mem_nil htask

/-- **No addition is lost.** After a reset on its own, let any threads add to any counters in any
order, with compare-exchanges that fail at will and loads that return old values. At every moment
the count and the total of a counter are those of the additions begun, up to what threads inside
still owe, and a value is missing from the maximum only while its thread is inside. A snapshot that
is taken once all threads are done is exact. -/
theorem trace_exact (s s' : Trace) (ls : List TraceLabel) (hquiet : s.tasks = [])
    (hls : ∀ l ∈ ls, l ≠ .reset) (hexec : exec Trace.step s (resetAlone ++ ls) = some s') :
    (∀ k,
      (s'.cells (k, .count)).newest + (s'.tasks.map (TraceTask.owes (k, .count))).sum =
        UInt64.ofNat (s'.valuesOn k).length ∧
      (s'.cells (k, .total)).newest + (s'.tasks.map (TraceTask.owes (k, .total))).sum =
        (s'.valuesOn k).sum ∧
      ((s'.cells (k, .max)).newest = 0 ∨ (s'.cells (k, .max)).newest ∈ s'.valuesOn k) ∧
      ∀ value ∈ s'.valuesOn k, value ≤ (s'.cells (k, .max)).newest ∨
        ∃ task ∈ s'.tasks, task.adding = some (k, value)) ∧
    (s'.tasks = [] → ∃ t stats, exec Trace.step s' snapshotAlone = some t ∧
      t.snapshots = stats :: s'.snapshots ∧
      ∀ metric,
        (stats metric).count = UInt64.ofNat (s'.valuesOn (.metric metric)).length ∧
        (stats metric).total = (s'.valuesOn (.metric metric)).sum ∧
        IsTop (s'.valuesOn (.metric metric)) (stats metric).max) := by
  rw [exec_append, exec_resetAlone hquiet] at hexec
  have htally : Tallied s' := (tallied_cleared _ _).exec hls hexec
  refine ⟨fun k => ⟨htally.count_eq k, htally.total_eq k, ?_, ?_⟩, fun hdone => ?_⟩
  · exact (htally.known k).imp_right Trace.mem_valuesOn.mpr
  · exact fun value hmem => htally.kept k value (Trace.mem_valuesOn.mp hmem)
  · obtain ⟨t, seen, hrun, hstats, hseen⟩ := exec_snapshotAlone hdone
    refine ⟨t, traceStat seen, hrun, hstats, fun metric => ⟨?_, ?_, ?_⟩⟩
    · -- nothing is owed any more
      have hcount := htally.count_eq (.metric metric)
      rw [hdone, List.map_nil, List.sum_nil, UInt64.add_zero] at hcount
      exact (hseen metric .count).trans hcount
    · have htotal := htally.total_eq (.metric metric)
      rw [hdone, List.map_nil, List.sum_nil, UInt64.add_zero] at htotal
      exact (hseen metric .total).trans htotal
    · rw [traceStat, hseen metric .max]
      exact htally.isTop hdone (.metric metric)

/-- A tracer with old numbers in its counters. -/
def usedTrace : Trace := ⟨fun _ => ⟨5, [3]⟩, ⟨true, [false]⟩, [], [], []⟩

/-- Two threads add 7 and 9 to one counter. The second meets a failure for no reason, the first
loses to it and then sees an old value. -/
def twoAdders : List TraceLabel :=
  [.add 0 3 7, .add 0 3 9, .act 1 0 false, .act 1 0 false, .act 0 0 false, .act 0 0 false,
    .act 1 0 false, .act 0 0 false, .act 1 0 true, .act 0 0 false, .act 0 1 false, .act 0 0 false]

theorem trace_exact_two_adders : ∃ s',
    exec Trace.step usedTrace (resetAlone ++ twoAdders) = some s' ∧
    s'.valuesOn (.metric 3) = [9, 7] ∧
    ∃ t stats, exec Trace.step s' snapshotAlone = some t ∧ t.snapshots = stats :: s'.snapshots ∧
      (stats 3).count = 2 ∧ (stats 3).total = 16 ∧ IsTop [9, 7] (stats 3).max := by
  have hrun : (exec Trace.step ⟨fun _ => ⟨0, []⟩, ⟨true, []⟩, [], [], []⟩ twoAdders).any
      (fun s => s.tasks.isEmpty && decide (s.valuesOn (.metric 3) = [9, 7])) = true := by
    decide +kernel
  obtain ⟨s', hexec, hend⟩ := exists_of_any hrun
  obtain ⟨hempty, hvalues⟩ := Bool.and_eq_true_iff.mp hend
  have hvalues := of_decide_eq_true hvalues
  have hwhole : exec Trace.step usedTrace (resetAlone ++ twoAdders) = some s' := by
    rw [exec_append, exec_resetAlone rfl]
    exact hexec
  obtain ⟨-, hsnapshot⟩ := trace_exact usedTrace s' twoAdders rfl (by decide) hwhole
  obtain ⟨t, stats, ht, hstats, hexact⟩ := hsnapshot (List.isEmpty_iff.mp hempty)
  obtain ⟨hcount, htotal, htop⟩ := hexact 3
  rw [hvalues] at hcount htotal htop
  exact ⟨s', hwhole, hvalues, t, stats, ht, hstats, hcount, htotal, htop⟩

end Wirecall

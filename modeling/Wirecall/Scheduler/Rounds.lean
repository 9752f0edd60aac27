import Wirecall.Machine.RoundRobin
import Wirecall.Scheduler.Calls

/-!
# The scheduler goes round

The queue of the scheduler is a round robin: the links in the slots hold the calls that wait, a turn
of `wirecall_scheduler_run_ready` is a turn of the first of them, and a slot is live exactly while its
call waits. What holds of the round robin holds of the calls.

Calls without a coroutine never wait. `wirecall_scheduler_submit` calls `done` for them itself, also
when the payload decodes and `mco_create` fails.

## Main definitions

* `Holds subs s entries`: the calls that wait, with their slots, numbers and yields left
* `Idle`: nothing waits, and every slot is in the arena
* `GoesRound`: what the events of a run are like

## Main results

* `Holds.submit`, `Holds.turn`: a submission and a turn keep it
* `Holds.run`: `wirecall_scheduler_run_ready` returns, with the events of the round robin
* `scheduler_completes`: **every call is completed once, in round robin**
* `create_failed_first`: a call whose payload decodes may be done before those submitted earlier
-/

namespace Wirecall

namespace Scheduler

open RoundRobin (Runs turn requeue resumptions)

/-! ## The calls that wait -/

/-- A call of the submission that waits for its next resume. -/
def waiting (sub : Submission) (args : List Value) (number left : ℕ) : Call :=
  { Call.zero with
    co := some ⟨left, false⟩, ctx := sub.ctx, handler := sub.handler, payload := sub.payload
    args := args, number := number }

/-- The slots hold the calls of the entries: an entry is a slot with the number of its call and the
yields left. -/
def Carries (subs : ℕ → Submission) (calls : ℕ → Call) (entries : List (ℕ × ℕ × ℕ)) : Prop :=
  ∀ k n left, (k, n, left) ∈ entries → ∃ args,
    payloadDecode (subs n).decodeMem (subs n).payload = .ok args ∧ (subs n).coroutine = none ∧
      calls k = waiting (subs n) args n left

/-- **The queue, the slots and the arena agree.** -/
structure Holds (subs : ℕ → Submission) (s : State) (entries : List (ℕ × ℕ × ℕ)) : Prop where
  queue : s.queue.Holds (entries.map Prod.fst)
  wellFormed : s.callArena.WellFormed
  live : ∀ k, s.callArena.Live k ↔ k ∈ entries.map Prod.fst
  calls : Carries subs s.calls entries

/-- The call of `done` for a submission. -/
def doneEvent (subs : ℕ → Submission) (n : ℕ) : Event := .done n (subs n).report

/-- An event of the round robin, as the scheduler logs it. -/
def logged (subs : ℕ → Submission) : RoundRobin.Event ℕ → Event
  | .resumed n => .resumed n
  | .finished n => doneEvent subs n

/-- The submissions without a coroutine. -/
def rejected (subs : ℕ → Submission) (numbers : List ℕ) : List ℕ :=
  numbers.filter fun n => (subs n).program.isNone

/-- The submissions with a coroutine, and how often each yields. -/
def started (subs : ℕ → Submission) (numbers : List ℕ) : List (ℕ × ℕ) :=
  numbers.filterMap fun n => (subs n).program.map fun program => (n, program.yields)

section Steps

variable {subs : ℕ → Submission} {s s' : State} {entries : List (ℕ × ℕ × ℕ)} {k n left : ℕ}

/-- Another slot is written. -/
theorem Carries.update {calls : ℕ → Call} (h : Carries subs calls entries) (call : Call)
    (hk : k ∉ entries.map Prod.fst) : Carries subs (Function.update calls k call) entries := by
  intro k' n left hmem
  have hne : k' ≠ k := by
    rintro rfl
    exact hk (List.mem_map_of_mem hmem)
  rw [Function.update_of_ne hne]
  exact h k' n left hmem

theorem Carries.tail {calls : ℕ → Call} {entry : ℕ × ℕ × ℕ}
    (h : Carries subs calls (entry :: entries)) : Carries subs calls entries :=
  fun k n left hmem => h k n left (List.mem_cons_of_mem _ hmem)

/-- A call that waits is written to its slot. -/
theorem Carries.snoc {calls : ℕ → Call} {args : List Value} (h : Carries subs calls entries)
    (hk : k ∉ entries.map Prod.fst)
    (hargs : payloadDecode (subs n).decodeMem (subs n).payload = .ok args)
    (hcreated : (subs n).coroutine = none) :
    Carries subs (Function.update calls k (waiting (subs n) args n left))
      (entries ++ [(k, n, left)]) := by
  intro k' n' left' hmem
  rcases List.mem_append.mp hmem with hold | hnew
  · exact h.update _ hk k' n' left' hold
  · cases List.mem_singleton.mp hnew
    exact ⟨args, hargs, hcreated, Function.update_self _ _ _⟩

/-- What `done` sees of a call whose handler has returned. -/
theorem report_leave {args : List Value}
    (hargs : payloadDecode (subs n).decodeMem (subs n).payload = .ok args)
    (hcreated : (subs n).coroutine = none) :
    (waiting (subs n) args n left).leave.report = (subs n).report := by
  unfold Submission.report
  rw [hargs, hcreated]
  dsimp only [Call.report, Call.leave, waiting, Call.zero]
  -- the text of a failed call is not empty, so it is the one that is seen
  have htext := errorText_returned_ne_nil
  generalize ((subs n).handler (subs n).ctx args).outcome = outcome
  by_cases hresult : outcome.result = 0
  · simp [hresult]
  · have hboth : outcome.result ≠ 0 ∧ ([] : List UInt8) = [] := ⟨hresult, rfl⟩
    rw [if_pos hboth, if_pos (htext _), if_pos hresult]

/-- What `done` sees of a call without a coroutine. -/
theorem reject_log (s : State) (call : Call) {message : List UInt8}
    (hmessage : errorText message ≠ []) :
    (reject s k call message).log = s.log ++
      [.done call.number ⟨call.ctx.callId, call.ctx.procId, -1, call.response, errorText message⟩] := by
  simp only [reject, callFinish, callFree, callDone, State.setCall, Function.update_self, Call.report,
    if_pos hmessage]

/-- **A turn of `wirecall_scheduler_run_ready`** is a turn of the first call. -/
theorem Holds.turn (h : Holds subs s ((k, n, left) :: entries)) :
    ∃ s', (∀ fuel, runReady (fuel + 1) s = runReady fuel s') ∧
      s'.log = s.log ++ (RoundRobin.turn (n, left)).map (logged subs) ∧
      s'.submitted = s.submitted ∧
      Holds subs s' (entries ++ ((requeue (n, left)).map fun job => (k, job)).toList) := by
  obtain ⟨queue, hpop, hqueue⟩ := h.queue.pop
  obtain ⟨args, hargs, hcreated, hcall⟩ := h.calls k n left List.mem_cons_self
  have hk : k ∉ entries.map Prod.fst := (List.nodup_cons.mp h.queue.linked.nodup).1
  have hdequeue : dequeue s = some (k, { s with queue := queue }) := by
    rw [dequeue, hpop]
    rfl
  cases left with
  | succ left =>
    have hresume : callResume { s with queue := queue } k =
        State.setCall { s with queue := queue, log := s.log ++ [.resumed n] } k
          (waiting (subs n) args n left) := by
      simp only [callResume, hcall, waiting]
    refine ⟨enqueue (callResume { s with queue := queue } k) k, fun fuel => ?_, ?_, ?_, ?_⟩
    · rw [runReady, hdequeue]
      dsimp only
      rw [if_pos (by rw [hresume]; simp [State.setCall, waiting, Call.zero, Call.suspended])]
    · rw [hresume]
      rfl
    · rw [hresume]
      rfl
    · rw [hresume]
      refine ⟨?_, h.wellFormed, fun j => ?_, ?_⟩
      · rw [List.map_append]
        exact hqueue.push hk
      · rw [List.map_append, List.mem_append]
        exact (h.live j).trans (by simp [requeue, or_comm])
      · exact h.calls.tail.snoc hk hargs hcreated
  | zero =>
    have hresume : callResume { s with queue := queue } k =
        State.setCall { s with queue := queue, log := s.log ++ [.resumed n] } k
          (waiting (subs n) args n 0).leave := by
      simp only [callResume, hcall, waiting]
    refine ⟨callFinish (callResume { s with queue := queue } k) k, fun fuel => ?_, ?_, ?_, ?_⟩
    · rw [runReady, hdequeue]
      dsimp only
      rw [if_neg (by rw [hresume]; simp [State.setCall, Call.leave])]
    · have hreport := @report_leave subs n 0 args hargs hcreated
      rw [hresume]
      simp only [callFinish, callFree, callDone, State.setCall, Function.update_self, hreport]
      rw [List.append_assoc]
      rfl
    · rw [hresume]
      rfl
    · rw [hresume]
      rw [show entries ++ ((requeue (n, 0)).map fun job => (k, job)).toList = entries from
        List.append_nil entries]
      refine ⟨hqueue, h.wellFormed.free ((h.live k).mpr (by simp)), fun j => ?_,
        h.calls.tail.update _ hk⟩
      show (s.callArena.free k).Live j ↔ _
      rw [Arena.live_free, h.live j, List.map_cons, List.mem_cons]
      constructor
      · rintro ⟨hj, hne⟩
        exact hj.resolve_left hne
      · intro hj
        exact ⟨.inr hj, ne_of_mem_of_not_mem hj hk⟩

/-- **`wirecall_scheduler_run_ready` returns**, with the events of the round robin. -/
theorem Holds.run {q : List (ℕ × ℕ)} {es : List (RoundRobin.Event ℕ)} (hruns : Runs q es)
    (h : Holds subs s entries) (hq : entries.map Prod.snd = q) :
    ∃ s', (∀ fuel, resumptions q < fuel → runReady fuel s = some s') ∧
      s'.log = s.log ++ es.map (logged subs) ∧
      s'.submitted = s.submitted ∧ Holds subs s' [] := by
  induction hruns generalizing s entries with
  | nil =>
    obtain rfl : entries = [] := List.map_eq_nil_iff.mp hq
    refine ⟨s, fun fuel hfuel => ?_, (List.append_nil _).symm, rfl, h⟩
    obtain ⟨fuel, rfl⟩ := Nat.exists_eq_add_one.mpr (Nat.zero_lt_of_lt hfuel)
    rw [runReady, dequeue, h.queue.pop_nil]
    rfl
  | @cons job q es _ ih =>
    obtain ⟨⟨k, n, left⟩, entries, rfl⟩ : ∃ e es, entries = e :: es :=
      List.exists_cons_of_ne_nil fun hnil => by
        rw [hnil] at hq
        cases hq
    cases hq
    obtain ⟨s₁, hturn, hlog, hsubmitted, hholds⟩ := h.turn
    obtain ⟨s', hrun, hlog', hsubmitted', hend⟩ := ih hholds (by
      rw [List.map_append]
      cases requeue (n, left) <;> rfl)
    refine ⟨s', fun fuel hfuel => ?_, ?_, hsubmitted'.trans hsubmitted, hend⟩
    · obtain ⟨fuel, rfl⟩ := Nat.exists_eq_add_one.mpr (Nat.zero_lt_of_lt hfuel)
      -- the turn is one of those that the fuel is for
      have hone := RoundRobin.resumptions_requeue (n, left) (entries.map Prod.snd)
      change resumptions ((n, left) :: entries.map Prod.snd) < fuel + 1 at hfuel
      have hless : resumptions (entries.map Prod.snd ++ (requeue (n, left)).toList) < fuel := by
        omega
      rw [hturn]
      exact hrun fuel hless
    · rw [hlog', hlog, List.map_append, List.append_assoc]

/-- **A submission**: a call without a coroutine is done on the spot, and any other waits at the end
of the queue. -/
theorem Holds.submit (h : Holds subs s entries)
    (hsubmit : submit s (subs s.submitted) = (.ok, s')) :
    s'.submitted = s.submitted + 1 ∧
      match (subs s.submitted).program with
      | none => s'.log = s.log ++ [doneEvent subs s.submitted] ∧ Holds subs s' entries
      | some program => s'.log = s.log ∧
          ∃ k, Holds subs s' (entries ++ [(k, s.submitted, program.yields)]) := by
  unfold Scheduler.submit at hsubmit
  cases halloc : s.callArena.alloc with
  | none =>
    rw [halloc] at hsubmit
    cases hsubmit
  | some slot =>
    obtain ⟨k, arena⟩ := slot
    rw [halloc] at hsubmit
    dsimp only at hsubmit
    obtain ⟨hdead, hlive⟩ := Arena.live_alloc h.wellFormed halloc
    have hwf := h.wellFormed.alloc halloc
    have hk : k ∉ entries.map Prod.fst := fun hmem => hdead ((h.live k).mpr hmem)
    by_cases hcopy : (subs s.submitted).payload.length > 0 ∧ (subs s.submitted).copied = false
    · rw [if_pos hcopy] at hsubmit
      cases hsubmit
    rw [if_neg hcopy] at hsubmit
    -- a slot that is given back at once
    have hback : ∀ call log, Holds subs
        ⟨s.queue, arena.free k, Function.update s.calls k call, s.submitted + 1, log⟩ entries := by
      intro call log
      refine ⟨h.queue, hwf.free ((hlive k).mpr (.inl rfl)), fun j => ?_, h.calls.update _ hk⟩
      show (arena.free k).Live j ↔ _
      rw [Arena.live_free, hlive, ← h.live]
      constructor
      · rintro ⟨hj, hne⟩
        exact hj.resolve_left hne
      · intro hj
        exact ⟨.inr hj, fun heq => hdead (heq ▸ hj)⟩
    cases hdecode : payloadDecode (subs s.submitted).decodeMem (subs s.submitted).payload with
    | ok args =>
      rw [hdecode] at hsubmit
      dsimp only at hsubmit
      cases hcoroutine : (subs s.submitted).coroutine with
      | none =>
        have hprogram : (subs s.submitted).program =
            some ((subs s.submitted).handler (subs s.submitted).ctx args) := by
          rw [Submission.program, hdecode, hcoroutine]
        rw [hcoroutine] at hsubmit
        cases hsubmit
        rw [hprogram]
        refine ⟨rfl, rfl, k, ?_, hwf, fun j => ?_, h.calls.snoc hk hdecode hcoroutine⟩
        · rw [List.map_append]
          exact h.queue.push hk
        · show arena.Live j ↔ _
          rw [hlive, h.live, List.map_append, List.mem_append]
          simp [or_comm]
      | some description =>
        have hprogram : (subs s.submitted).program = none := by
          rw [Submission.program, hdecode, hcoroutine]
        have hreport : (subs s.submitted).report =
            ⟨(subs s.submitted).ctx.callId, (subs s.submitted).ctx.procId, -1, [],
              errorText (text "coroutine create failed: " ++ description)⟩ := by
          rw [Submission.report, hdecode, hcoroutine]
        have htext : errorText (text "coroutine create failed: " ++ description) ≠ [] :=
          errorText_ne_nil (by decide)
        rw [hcoroutine] at hsubmit
        cases hsubmit
        rw [hprogram]
        refine ⟨rfl, ?_, hback _ _⟩
        rw [reject_log _ _ htext, doneEvent, hreport]
        rfl
    | _ =>
      have hprogram : (subs s.submitted).program = none := by
        rw [Submission.program, hdecode]
      have hreport : (subs s.submitted).report =
          ⟨(subs s.submitted).ctx.callId, (subs s.submitted).ctx.procId, -1, [],
            errorText (text "malformed payload")⟩ := by
        rw [Submission.report, hdecode]
      rw [hdecode] at hsubmit
      cases hsubmit
      rw [hprogram]
      refine ⟨rfl, ?_, hback _ _⟩
      rw [reject_log _ _ (by decide), doneEvent, hreport]
      rfl

/-- **Any number of submissions**: those without a coroutine are done, in order, and the others
wait. -/
theorem Holds.submitAll {count : ℕ} (h : Holds subs s entries)
    (hsubmit : submitAll ((List.range' s.submitted count).map subs) s = some s') :
    s'.log = s.log ++ (rejected subs (List.range' s.submitted count)).map (doneEvent subs) ∧
      ∃ entries', Holds subs s' entries' ∧
        entries'.map Prod.snd =
          entries.map Prod.snd ++ started subs (List.range' s.submitted count) := by
  induction count generalizing s entries with
  | zero =>
    cases hsubmit
    exact ⟨by simp [rejected], entries, h, by simp [started]⟩
  | succ count ih =>
    rw [List.range'_succ] at hsubmit ⊢
    rw [List.map_cons, Scheduler.submitAll] at hsubmit
    rcases hone : Scheduler.submit s (subs s.submitted) with ⟨rc, s₁⟩
    rw [hone] at hsubmit
    cases rc with
    | err => cases hsubmit
    | ok =>
      obtain ⟨hnext, hcases⟩ := h.submit hone
      rw [← hnext] at hsubmit ⊢
      cases hprogram : (subs s.submitted).program with
      | none =>
        rw [hprogram] at hcases
        obtain ⟨hlog, hholds⟩ := hcases
        obtain ⟨hlog', entries', hholds', hentries⟩ := ih hholds hsubmit
        refine ⟨?_, entries', hholds', ?_⟩
        · rw [hlog', hlog, rejected, rejected, List.filter_cons_of_pos (by simp [hprogram]),
            List.map_cons, List.append_assoc]
          rfl
        · rw [hentries, started, started, List.filterMap_cons_none (by rw [hprogram]; rfl)]
      | some program =>
        rw [hprogram] at hcases
        obtain ⟨hlog, k, hholds⟩ := hcases
        obtain ⟨hlog', entries', hholds', hentries⟩ := ih hholds hsubmit
        refine ⟨?_, entries', hholds', ?_⟩
        · rw [hlog', hlog, rejected, rejected, List.filter_cons_of_neg (by simp [hprogram])]
        · rw [hentries, started, started, List.filterMap_cons_some (by rw [hprogram]; rfl),
            List.map_append, List.append_assoc]
          rfl

end Steps

/-! ## Whole runs -/

/-- **Nothing waits, and every slot is in the arena.** -/
structure Idle (s : State) : Prop where
  head : s.queue.head = none
  tail : s.queue.tail = none
  wellFormed : s.callArena.WellFormed
  free : ∀ k, ¬ s.callArena.Live k

theorem idle_init : Idle init := ⟨rfl, rfl, Arena.wellFormed_init _, Arena.not_live_init _⟩

theorem Idle.holds {s : State} (h : Idle s) (subs : ℕ → Submission) : Holds subs s [] := by
  refine ⟨⟨?_, h.tail⟩, h.wellFormed, fun k => ⟨fun hlive => absurd hlive (h.free k), ?_⟩, ?_⟩
  · rw [h.head]
    exact .nil
  · intro hk
    cases hk
  · intro k n left hmem
    cases hmem

theorem Holds.idle {subs : ℕ → Submission} {s : State} (h : Holds subs s []) : Idle s :=
  ⟨h.queue.linked.head_eq, h.queue.tail, h.wellFormed,
    fun k hlive => List.not_mem_nil ((h.live k).mp hlive)⟩

/-- The event is a call of `done`. -/
def Event.isDone : Event → Bool
  | .resumed _ => false
  | .done _ _ => true

/-- **The events of a run go round**: `done` is called in the order of yields and submissions, once for
each of the calls, and between two resumes of a call every other one that is not done has one. -/
structure GoesRound (subs : ℕ → Submission) (jobs : List (ℕ × ℕ)) (events : List Event) : Prop where
  order : ∃ order : List (ℕ × ℕ), order.Perm jobs ∧ order.Pairwise RoundRobin.Before ∧
    events.filter Event.isDone = order.map fun job => doneEvent subs job.1
  fair : ∀ i j before mid after, events = before ++ .resumed i :: (mid ++ .resumed i :: after) →
    .resumed i ∉ mid → j ∈ jobs.map Prod.fst → j ≠ i →
    mid.count (.resumed j) = if doneEvent subs j ∈ before then 0 else 1

section Events

variable {subs : ℕ → Submission}

theorem logged_injective : Function.Injective (logged subs) := by
  intro a b h
  cases a with
  | resumed m =>
    cases b with
    | resumed n => rw [Event.resumed.inj h]
    | finished n => cases h
  | finished m =>
    cases b with
    | resumed n => cases h
    | finished n => rw [(Event.done.inj h).1]

theorem filter_isDone_logged (es : List (RoundRobin.Event ℕ)) :
    (es.map (logged subs)).filter Event.isDone =
      (RoundRobin.finished es).map (doneEvent subs) := by
  induction es with
  | nil => rfl
  | cons e es ih =>
    cases e with
    | resumed n => exact ih
    | finished n => exact congrArg (doneEvent subs n :: ·) ih

theorem goesRound_of_runs {q : List (ℕ × ℕ)} {es : List (RoundRobin.Event ℕ)} (h : Runs q es)
    (hsorted : q.Pairwise fun a b => a.1 < b.1) : GoesRound subs q (es.map (logged subs)) := by
  have hnodup : (q.map Prod.fst).Nodup := by
    rw [List.Nodup, List.pairwise_map]
    exact hsorted.imp fun hlt => hlt.ne
  refine ⟨?_, ?_⟩
  · obtain ⟨order, hperm, hbefore, hfinished⟩ := h.finished_sorted hsorted
    refine ⟨order, hperm, hbefore, ?_⟩
    rw [filter_isDone_logged, hfinished, List.map_map]
    rfl
  · -- the events are cut where those of the round robin are
    intro i j before mid after hevents hmid hj hne
    obtain ⟨before, rest₁, rfl, rfl, hrest₁⟩ := List.map_eq_append_iff.mp hevents
    obtain ⟨first, rest₂, rfl, hfirst, hrest₂⟩ := List.map_eq_cons_iff.mp hrest₁
    obtain ⟨mid, rest₃, rfl, rfl, hrest₃⟩ := List.map_eq_append_iff.mp hrest₂
    obtain ⟨second, after, rfl, hsecond, -⟩ := List.map_eq_cons_iff.mp hrest₃
    obtain rfl : first = .resumed i := @logged_injective subs _ _ hfirst
    obtain rfl : second = .resumed i := @logged_injective subs _ _ hsecond
    have hmid' : RoundRobin.Event.resumed i ∉ mid := fun hmem => hmid (List.mem_map_of_mem hmem)
    have hcount := h.fair hnodup rfl hmid' hj hne
    have hdone : doneEvent subs j ∈ before.map (logged subs) ↔ .finished j ∈ before :=
      List.mem_map_of_injective (a := .finished j) logged_injective
    have hmap : (mid.map (logged subs)).count (.resumed j) = mid.count (.resumed j) :=
      List.count_map_of_injective mid (logged subs) logged_injective (.resumed j)
    rw [hmap, hcount, if_congr hdone rfl rfl]

/-- The numbers of the calls that start increase with their place. -/
theorem started_pairwise {numbers : List ℕ} (h : numbers.Pairwise (· < ·)) :
    (started subs numbers).Pairwise fun a b => a.1 < b.1 := by
  refine h.filterMap _ ?_
  intro m n hlt a ha b hb
  obtain ⟨_, _, rfl⟩ := Option.map_eq_some_iff.mp ha
  obtain ⟨_, _, rfl⟩ := Option.map_eq_some_iff.mp hb
  exact hlt

/-- A submission has a coroutine or has none. -/
theorem rejected_started_perm (numbers : List ℕ) :
    (rejected subs numbers ++ (started subs numbers).map Prod.fst).Perm numbers := by
  induction numbers with
  | nil => exact .nil
  | cons n numbers ih =>
    rw [rejected, started]
    cases hprogram : (subs n).program with
    | none =>
      rw [List.filter_cons_of_pos (by simp [hprogram]),
        List.filterMap_cons_none (by rw [hprogram]; rfl)]
      exact ih.cons n
    | some program =>
      rw [List.filter_cons_of_neg (by simp [hprogram]),
        List.filterMap_cons_some (by rw [hprogram]; rfl)]
      exact List.perm_middle.trans (ih.cons n)

end Events

/-- **Every call is completed once, in round robin**: the calls without a coroutine are done as they
are submitted. `wirecall_scheduler_run_ready` then returns, with the others done in the order of their
yields, an empty queue and every slot back in the arena. -/
theorem scheduler_completes {s₀ s : State} (hidle : Idle s₀) (subs : ℕ → Submission) (count : ℕ)
    (hsubmit : submitAll ((List.range' s₀.submitted count).map subs) s₀ = some s) :
    let numbers := List.range' s₀.submitted count
    let onSubmit := (rejected subs numbers).map (doneEvent subs)
    s.log = s₀.log ++ onSubmit ∧
      ∃ s' events, (∀ fuel, resumptions (started subs numbers) < fuel → runReady fuel s = some s') ∧
        s'.log = s.log ++ events ∧ GoesRound subs (started subs numbers) events ∧ Idle s' ∧
        ∃ all : List ℕ, all.Perm numbers ∧
          (onSubmit ++ events).filter Event.isDone = all.map (doneEvent subs) := by
  intro numbers onSubmit
  obtain ⟨hlog, entries, hholds, hentries⟩ := (hidle.holds subs).submitAll hsubmit
  obtain ⟨es, hruns⟩ := RoundRobin.exists_runs (started subs numbers)
  have hround : GoesRound subs (started subs numbers) (es.map (logged subs)) :=
    goesRound_of_runs hruns (started_pairwise (List.pairwise_lt_range'))
  obtain ⟨s', hrun, hlog', -, hend⟩ := hholds.run hruns hentries
  refine ⟨hlog, s', es.map (logged subs), hrun, hlog', hround, hend.idle, ?_⟩
  obtain ⟨order, hperm, -, hdone⟩ := hround.order
  refine ⟨rejected subs numbers ++ order.map Prod.fst, ?_, ?_⟩
  · exact ((hperm.map Prod.fst).append_left _).trans (rejected_started_perm numbers)
  · have honSubmit : onSubmit.filter Event.isDone = onSubmit := by
      refine List.filter_eq_self.mpr fun event hevent => ?_
      obtain ⟨n, -, rfl⟩ := List.mem_map.mp hevent
      rfl
    rw [List.filter_append, honSubmit, hdone, List.map_append, List.map_map]
    rfl

/-- Three calls: the first yields twice, the second is malformed and the third returns at once. -/
def mixedCalls (n : ℕ) : Submission where
  ctx := ⟨n.toUInt64, 7⟩
  handler := fun _ _ => ⟨2 - n, ⟨0, ⟨[], Nat.zero_le _⟩⟩⟩
  payload := if n = 1 then [255] else []
  copied := true
  decodeMem := .granting
  coroutine := none

theorem scheduler_completes_mixed :
    ∃ s s', submitAll ((List.range' 0 3).map mixedCalls) init = some s ∧ runReady 10 s = some s' ∧
      Idle s' ∧ started mixedCalls (List.range' 0 3) = [(0, 2), (2, 0)] := by
  obtain ⟨s, hs⟩ := Option.isSome_iff_exists.mp
    (show (submitAll ((List.range' 0 3).map mixedCalls) init).isSome = true by decide)
  obtain ⟨-, s', events, hrun, -, -, hidle, -⟩ := scheduler_completes idle_init mixedCalls 3 hs
  exact ⟨s, s', hs, hrun 10 (by decide), hidle, by decide⟩

/-- Two calls of a handler that does not yield, both with a payload that decodes. The coroutine of the
second cannot be made. -/
def scarceCalls (n : ℕ) : Submission where
  ctx := ⟨n.toUInt64, 7⟩
  handler := fun _ _ => ⟨0, ⟨0, ⟨[], Nat.zero_le _⟩⟩⟩
  payload := []
  copied := true
  decodeMem := .granting
  coroutine := if n = 1 then some (text "Out of memory") else none

/-- Both payloads decode and neither handler yields, but the call submitted second is done first, by
`wirecall_scheduler_submit`. -/
theorem create_failed_first :
    (∀ n, payloadDecode (scarceCalls n).decodeMem (scarceCalls n).payload = .ok []) ∧
      (∀ n args, ((scarceCalls n).handler (scarceCalls n).ctx args).yields = 0) ∧
      ((submitAll [scarceCalls 0, scarceCalls 1] init).map State.log =
        some [doneEvent scarceCalls 1]) ∧
      ((submitAll [scarceCalls 0, scarceCalls 1] init).bind (runReady 2)).map State.log =
        some [doneEvent scarceCalls 1, .resumed 0, doneEvent scarceCalls 0] := by
  refine ⟨fun n => rfl, fun n args => rfl, ?_, ?_⟩
  · decide
  · decide

end Scheduler

end Wirecall

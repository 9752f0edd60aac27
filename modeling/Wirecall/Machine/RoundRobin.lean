import Mathlib

/-!
# Round robin

Jobs wait in a queue, each with the number of times it will yield. The first one is resumed: it yields
and goes to the end of the queue, or it finishes. The queue empties, since every turn takes one off
the resumptions that are left.

A round takes every job that waits at its start, once and in order. So between two turns of one job
every other job that has not finished has exactly one, and jobs finish in the order of the number of
yields and, for equal numbers, in the order in which they were queued.

## Main definitions

* `Event`, `turn`, `requeue`: what a turn does
* `Runs q es`: from the queue `q` the turns leave the events `es` behind, and end

## Main results

* `exists_runs`: the turns end
* `Runs.round`: a round takes every job once
* `Runs.fair`: **between two turns of a job every other unfinished job has one**
* `Runs.finished_sorted`: **jobs finish in the order of their yields**
-/

namespace RoundRobin

/-- A turn begins, or a job finishes. -/
inductive Event (ι : Type*) where
  | resumed (i : ι)
  | finished (i : ι)
  deriving DecidableEq, Repr

variable {ι : Type*}

/-- The events of a turn of a job that yields so many times more. -/
def turn : ι × ℕ → List (Event ι)
  | (i, 0) => [.resumed i, .finished i]
  | (i, _ + 1) => [.resumed i]

/-- What waits again after the turn. -/
def requeue : ι × ℕ → Option (ι × ℕ)
  | (_, 0) => none
  | (i, n + 1) => some (i, n)

/-- From the queue the turns leave the events behind, and end. -/
inductive Runs : List (ι × ℕ) → List (Event ι) → Prop
  | nil : Runs [] []
  | cons {job : ι × ℕ} {q : List (ι × ℕ)} {es : List (Event ι)}
      (h : Runs (q ++ (requeue job).toList) es) : Runs (job :: q) (turn job ++ es)

/-- The number of resumptions that are left. -/
def resumptions (q : List (ι × ℕ)) : ℕ := (q.map fun job => job.2 + 1).sum

/-- The jobs that finish, in order. -/
def finished (es : List (Event ι)) : List ι :=
  es.filterMap fun
    | .resumed _ => none
    | .finished i => some i

@[simp] theorem finished_append (es es' : List (Event ι)) :
    finished (es ++ es') = finished es ++ finished es' := List.filterMap_append

theorem resumptions_requeue (job : ι × ℕ) (q : List (ι × ℕ)) :
    resumptions (q ++ (requeue job).toList) + 1 = resumptions (job :: q) := by
  obtain ⟨i, n⟩ := job
  cases n with
  | zero => simp [resumptions, requeue, Nat.add_comm]
  | succ n =>
    simp only [resumptions, requeue, Option.toList_some, List.map_append, List.map_cons, List.map_nil,
      List.sum_append, List.sum_cons, List.sum_nil]
    omega

/-- **The turns end.** -/
theorem exists_runs (q : List (ι × ℕ)) : ∃ es, Runs q es := by
  -- every turn takes one off the resumptions that are left
  induction hn : resumptions q generalizing q with
  | zero =>
    cases q with
    | nil => exact ⟨[], .nil⟩
    | cons job q =>
      have hturn := resumptions_requeue job q
      omega
  | succ n ih =>
    cases q with
    | nil => exact ⟨[], .nil⟩
    | cons job q =>
      have hturn := resumptions_requeue job q
      obtain ⟨es, hes⟩ := ih (q ++ (requeue job).toList) (by omega)
      exact ⟨_, .cons hes⟩

section Runs

variable {q front back : List (ι × ℕ)} {es : List (Event ι)} {i j : ι}

/-- The jobs at the front of the queue have their turns first, and wait behind the others then. -/
theorem Runs.append (h : Runs (front ++ back) es) :
    ∃ es', es = front.flatMap turn ++ es' ∧ Runs (back ++ front.filterMap requeue) es' := by
  induction front generalizing back es with
  | nil => exact ⟨es, rfl, by simpa using h⟩
  | cons job front ih =>
    cases h with
    | cons h =>
      change Runs (front ++ back ++ (requeue job).toList) _ at h
      rw [List.append_assoc] at h
      obtain ⟨es', rfl, hrest⟩ := ih h
      refine ⟨es', by rw [List.flatMap_cons, List.append_assoc], ?_⟩
      rw [List.append_assoc] at hrest
      cases hjob : requeue job with
      | none =>
        rw [hjob] at hrest
        rw [List.filterMap_cons_none hjob]
        exact hrest
      | some job' =>
        rw [hjob] at hrest
        rw [List.filterMap_cons_some hjob]
        exact hrest

/-- **A round takes every job once**, in order. -/
theorem Runs.round (h : Runs q es) :
    ∃ es', es = q.flatMap turn ++ es' ∧ Runs (q.filterMap requeue) es' := by
  obtain ⟨es', hes, hrest⟩ := @Runs.append _ q [] es (by rwa [List.append_nil])
  exact ⟨es', hes, hrest⟩

/-! ## Fairness -/

theorem mem_turn_resumed {job : ι × ℕ} : .resumed i ∈ turn job ↔ i = job.1 := by
  obtain ⟨j, _ | n⟩ := job
  · simp [turn]
  · simp [turn]

theorem fst_of_requeue {job job' : ι × ℕ} (h : requeue job = some job') : job'.1 = job.1 := by
  obtain ⟨i, _ | n⟩ := job
  · cases h
  · cases h
    rfl

/-- What waits after a turn waited before it. -/
theorem mem_of_mem_requeue {job : ι × ℕ}
    (h : i ∈ (q ++ (requeue job).toList).map Prod.fst) : i ∈ (job :: q).map Prod.fst := by
  rw [List.map_append, List.mem_append] at h
  rw [List.map_cons, List.mem_cons]
  rcases h with hq | hjob
  · exact .inr hq
  · obtain ⟨job', hjob', rfl⟩ := List.mem_map.mp hjob
    exact .inl (fst_of_requeue (Option.mem_toList.mp hjob'))

/-- Only jobs that wait have turns. -/
theorem Runs.mem_of_resumed (h : Runs q es) (hi : .resumed i ∈ es) : i ∈ q.map Prod.fst := by
  induction h with
  | nil => cases hi
  | @cons job q es _ ih =>
    rcases List.mem_append.mp hi with hturn | hrest
    · rw [mem_turn_resumed.mp hturn]
      exact List.mem_map_of_mem List.mem_cons_self
    · exact mem_of_mem_requeue (ih hrest)

/-- A job waits in one place at any time. -/
theorem nodup_requeue {job : ι × ℕ} (h : ((job :: q).map Prod.fst).Nodup) :
    ((q ++ (requeue job).toList).map Prod.fst).Nodup := by
  rw [List.map_cons, List.nodup_cons] at h
  cases hjob : requeue job with
  | none => simpa using h.2
  | some job' =>
    rw [List.map_append, Option.toList_some, List.map_cons, List.map_nil, fst_of_requeue hjob]
    exact List.nodup_append'.mpr ⟨h.2, List.nodup_singleton _, List.disjoint_singleton.mpr h.1⟩

/-- In a round every job has one turn. -/
theorem count_resumed_flatMap [DecidableEq ι] (hnodup : (q.map Prod.fst).Nodup)
    (hj : j ∈ q.map Prod.fst) : (q.flatMap turn).count (.resumed j) = 1 := by
  induction q with
  | nil => cases hj
  | cons job q ih =>
    rw [List.map_cons, List.nodup_cons] at hnodup
    rw [List.flatMap_cons, List.count_append]
    rcases List.mem_cons.mp hj with rfl | hj
    · -- its turn, and no other job of the round is the same
      have hrest : (q.flatMap turn).count (.resumed job.1) = 0 := by
        apply List.count_eq_zero_of_not_mem
        intro hmem
        obtain ⟨job', hjob', hturn⟩ := List.mem_flatMap.mp hmem
        exact hnodup.1 (mem_turn_resumed.mp hturn ▸ List.mem_map_of_mem hjob')
      obtain ⟨k, _ | n⟩ := job
      · simpa [turn] using hrest
      · simpa [turn] using hrest
    · have hne : j ≠ job.1 := fun heq => hnodup.1 (heq ▸ hj)
      have hturn : (turn job).count (.resumed j) = 0 :=
        List.count_eq_zero_of_not_mem fun h => hne (mem_turn_resumed.mp h)
      rw [hturn, ih hnodup.2 hj]

/-- A list is cut in one way at the first place where an element stands. -/
theorem eq_of_append_cons_eq {α : Type*} {x : α} {xs ys xs' ys' : List α} (hxs : x ∉ xs)
    (hys : x ∉ ys) (h : xs ++ x :: xs' = ys ++ x :: ys') : xs = ys ∧ xs' = ys' := by
  induction xs generalizing ys with
  | nil =>
    cases ys with
    | nil => exact ⟨rfl, (List.cons.inj h).2⟩
    | cons y ys => exact absurd ((List.cons.inj h).1 ▸ List.mem_cons_self) hys
  | cons z xs ih =>
    cases ys with
    | nil => exact absurd ((List.cons.inj h).1 ▸ List.mem_cons_self) hxs
    | cons y ys =>
      obtain ⟨rfl, hrest⟩ := List.cons.inj h
      obtain ⟨rfl, hends⟩ := ih (fun hx => hxs (List.mem_cons_of_mem _ hx))
        (fun hx => hys (List.mem_cons_of_mem _ hx)) hrest
      exact ⟨rfl, hends⟩

/-- A job that has its last turn has no other. -/
theorem Runs.not_resumed (hnodup : (((i, 0) :: q).map Prod.fst).Nodup)
    (h : Runs (q ++ (requeue (i, 0)).toList) es) : .resumed i ∉ es := by
  intro hi
  have hmem := h.mem_of_resumed hi
  rw [show q ++ (requeue (i, 0)).toList = q from List.append_nil q] at hmem
  exact (List.nodup_cons.mp hnodup).1 hmem

/-- After the turn of a job that yields, every other job has a turn before its next one. -/
theorem Runs.until_next [DecidableEq ι] {n : ℕ} {mid after : List (Event ι)}
    (h : Runs (q ++ [(i, n)]) es) (hnodup : (((i, n + 1) :: q).map Prod.fst).Nodup)
    (hes : es = mid ++ .resumed i :: after) (hmid : .resumed i ∉ mid) (hj : j ∈ q.map Prod.fst) :
    mid.count (.resumed j) = 1 := by
  obtain ⟨es', rfl, hrest⟩ := h.append
  obtain ⟨tail, rfl⟩ : ∃ tail, es' = .resumed i :: tail := by
    cases hrest with
    | @cons _ _ es'' _ =>
      cases n with
      | zero => exact ⟨.finished i :: es'', rfl⟩
      | succ n => exact ⟨es'', rfl⟩
  have hround : .resumed i ∉ q.flatMap turn := by
    intro hmem
    obtain ⟨job, hjob, hturn⟩ := List.mem_flatMap.mp hmem
    exact (List.nodup_cons.mp hnodup).1 (List.mem_map.mpr ⟨job, hjob, (mem_turn_resumed.mp hturn).symm⟩)
  obtain ⟨rfl, -⟩ := eq_of_append_cons_eq hround hmid hes
  exact count_resumed_flatMap (List.nodup_cons.mp hnodup).2 hj

/-- **Between two turns of a job every other job has one**, if it had not finished before. -/
theorem Runs.fair [DecidableEq ι] (h : Runs q es) (hnodup : (q.map Prod.fst).Nodup)
    {before mid after : List (Event ι)}
    (hes : es = before ++ .resumed i :: (mid ++ .resumed i :: after)) (hmid : .resumed i ∉ mid)
    (hj : j ∈ q.map Prod.fst) (hne : j ≠ i) :
    mid.count (.resumed j) = if .finished j ∈ before then 0 else 1 := by
  -- turn by turn, until the first of the two turns comes
  induction h generalizing before with
  | nil => simp at hes
  | @cons job q es hrest ih =>
    obtain ⟨k, n⟩ := job
    have hnodup' := nodup_requeue hnodup
    cases n with
    | zero =>
      rcases before with _ | ⟨e, _ | ⟨e', before⟩⟩ <;>
        simp only [turn, List.cons_append, List.nil_append, List.cons.injEq, Event.resumed.injEq,
          reduceCtorEq, false_and, and_false] at hes
      · -- the last turn of a job is not the first of two
        obtain ⟨rfl, hes⟩ := hes
        cases mid with
        | nil => cases hes
        | cons e mid =>
          have hlater := hrest.not_resumed hnodup
          rw [(List.cons.inj hes).2] at hlater
          exact absurd (List.mem_append_right _ List.mem_cons_self) hlater
      · obtain ⟨rfl, rfl, hes⟩ := hes
        by_cases hjk : j = k
        · -- it has finished, and has no turn any more
          subst hjk
          rw [if_pos (by simp), List.count_eq_zero]
          intro hmem
          refine hrest.not_resumed hnodup ?_
          rw [hes]
          exact List.mem_append_right _ (List.mem_cons_of_mem _ (List.mem_append_left _ hmem))
        · have hq : j ∈ q.map Prod.fst := (List.mem_cons.mp hj).resolve_left hjk
          rw [ih hnodup' hes (by simpa [requeue] using hq)]
          simp [hjk]
    | succ n =>
      rcases before with _ | ⟨e, before⟩ <;>
        simp only [turn, List.cons_append, List.nil_append, List.cons.injEq,
          Event.resumed.injEq] at hes
      · obtain ⟨rfl, hes⟩ := hes
        rw [if_neg List.not_mem_nil]
        exact hrest.until_next hnodup hes hmid ((List.mem_cons.mp hj).resolve_left hne)
      · obtain ⟨rfl, hes⟩ := hes
        have hq : j ∈ (q ++ (requeue (k, n + 1)).toList).map Prod.fst := by
          rw [List.map_append, List.mem_append]
          rcases List.mem_cons.mp hj with rfl | hj
          · exact .inr List.mem_cons_self
          · exact .inl hj
        rw [ih hnodup' hes hq]
        simp

/-! ## The order in which jobs finish -/

/-- Fewer yields come first and, for equal numbers, the smaller job. -/
def Before [LT ι] (a b : ι × ℕ) : Prop := a.2 < b.2 ∨ a.2 = b.2 ∧ a.1 < b.1

/-- One yield more. -/
def later (job : ι × ℕ) : ι × ℕ := (job.1, job.2 + 1)

theorem finished_flatMap (q : List (ι × ℕ)) :
    finished (q.flatMap turn) = (q.filter fun job => job.2 = 0).map Prod.fst := by
  induction q with
  | nil => rfl
  | cons job q ih =>
    obtain ⟨i, _ | n⟩ := job
    · rw [List.flatMap_cons, finished_append, ih]
      rfl
    · rw [List.flatMap_cons, finished_append, ih]
      simp [turn, finished]

/-- A round splits the queue: some jobs finish, and the others have one yield less. -/
theorem perm_round (q : List (ι × ℕ)) :
    ((q.filter fun job => job.2 = 0) ++ (q.filterMap requeue).map later).Perm q := by
  induction q with
  | nil => exact List.Perm.nil
  | cons job q ih =>
    obtain ⟨i, _ | n⟩ := job
    · rw [List.filterMap_cons_none rfl, List.filter_cons_of_pos rfl]
      exact ih.cons _
    · simp only [requeue, List.filter_cons, List.filterMap_cons, later, List.map_cons,
        Nat.succ_ne_zero, decide_false, Bool.false_eq_true, if_false]
      exact List.perm_middle.trans (ih.cons _)

theorem resumptions_round (q : List (ι × ℕ)) :
    resumptions (q.filterMap requeue) + q.length = resumptions q := by
  induction q with
  | nil => rfl
  | cons job q ih =>
    obtain ⟨i, _ | n⟩ := job
    · rw [List.filterMap_cons_none rfl, List.length_cons, ← Nat.add_assoc, ih]
      simp [resumptions, Nat.add_comm]
    · simp only [resumptions, requeue, List.filterMap_cons, List.map_cons, List.sum_cons,
        List.length_cons] at ih ⊢
      omega

/-- **Jobs finish in the order of their yields**, each once. -/
theorem Runs.finished_sorted [LT ι] (h : Runs q es)
    (hsorted : q.Pairwise fun a b => a.1 < b.1) :
    ∃ order : List (ι × ℕ), order.Perm q ∧ order.Pairwise Before ∧
      finished es = order.map Prod.fst := by
  -- round by round: those that finish in this one, and then the others
  induction hn : resumptions q using Nat.strong_induction_on generalizing q es with
  | _ n ih =>
    cases q with
    | nil =>
      cases h
      exact ⟨[], .nil, .nil, rfl⟩
    | cons job q =>
      obtain ⟨es', rfl, hrest⟩ := h.round
      have hless : resumptions ((job :: q).filterMap requeue) < n := by
        have hround := resumptions_round (job :: q)
        rw [List.length_cons] at hround
        omega
      have hsorted' : ((job :: q).filterMap requeue).Pairwise fun a b => a.1 < b.1 := by
        refine hsorted.filterMap requeue fun a a' hlt b hb b' hb' => ?_
        rw [fst_of_requeue hb, fst_of_requeue hb']
        exact hlt
      obtain ⟨order, hperm, hbefore, hfinished⟩ := ih _ hless hrest hsorted' rfl
      generalize job :: q = q at *
      refine ⟨(q.filter fun job => job.2 = 0) ++ order.map later,
        ((List.Perm.refl _).append (hperm.map later)).trans (perm_round q), ?_, ?_⟩
      · rw [List.pairwise_append]
        refine ⟨(hsorted.filter _).imp_of_mem ?_, hbefore.map later ?_, ?_⟩
        · intro a b ha hb hlt
          have ha : a.2 = 0 := by simpa using (List.mem_filter.mp ha).2
          have hb : b.2 = 0 := by simpa using (List.mem_filter.mp hb).2
          exact .inr ⟨ha.trans hb.symm, hlt⟩
        · rintro a b (hlt | ⟨heq, hlt⟩)
          · exact .inl (Nat.succ_lt_succ hlt)
          · exact .inr ⟨congrArg Nat.succ heq, hlt⟩
        · intro a ha b hb
          have ha : a.2 = 0 := by simpa using (List.mem_filter.mp ha).2
          obtain ⟨b, -, rfl⟩ := List.mem_map.mp hb
          left
          rw [ha]
          exact Nat.succ_pos _
      · rw [finished_append, finished_flatMap, hfinished, List.map_append, List.map_map]
        rfl

end Runs

end RoundRobin

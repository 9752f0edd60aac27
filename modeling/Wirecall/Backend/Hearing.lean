import Wirecall.Backend.Readiness

/-!
# No watch goes deaf

A poll of io_uring is completed once. A watch is heard of again only because
`wirecall_backend_poll` arms it after each completion, and because `wirecall_backend_register` arms
it with its new interests. The flag `armed` does not tell whether a poll is in flight: a completion
that comes late clears it under a newer poll, and the next call then cancels nothing and arms one
more. What matters is that there is always one: each active watch has a poll in flight that waits for
its interests and was not cancelled, or a completion on the ring that will arm it again.

This needs a kernel that takes the entries it is given. Where the submission queue is full,
`arm_watch` fails, and `wirecall_backend_poll` does not look at its result.

## Main definitions

* `Backend.Hears`: a poll or a completion that stands for the interests of a watch
* `Attentive`: every active watch is heard
* `RingStep.Prompt`: the kernel takes every entry, and polls of open descriptors do not fail

## Main results

* `Attentive.step`: every such step keeps it
* `no_watch_goes_deaf`: **every active watch is heard**, after every run
-/

namespace Wirecall

/-- The watch that a target names. -/
def Backend.watchOf (b : Backend) : Target → Option Watch
  | .wake => some b.wakeWatch
  | .watch fd => b.watches fd

/-- A poll for these interests is in flight and was not cancelled, or a completion without error is
on the ring. -/
def Backend.Hears (b : Backend) (target : Target) (events : UInt32) : Prop :=
  (∃ p ∈ b.polls, p.target = target ∧ p.mask = pollMask events ∧ p.cancelled = false) ∨
    ∃ cqe ∈ b.cq, cqe.target = some target ∧ 0 ≤ cqe.res

/-- **Every active watch is heard**, except for one that is about to be armed. -/
structure Attentive (b : Backend) (busy : Option Target) : Prop where
  sq : b.sq = []
  wakeWatch : b.wakeWatch.active = true ∧ b.wakeWatch.events = backendRead
  hears : ∀ target w, busy ≠ some target → b.watchOf target = some w → w.active = true →
    w.events ≠ 0 → b.Hears target w.events

/-- The kernel takes all entries that it is given. -/
def Submit.Prompt (o : Submit) : Prop := o.taken.any (fun n => decide (uringEntries ≤ n)) = true

/-- The kernel takes every entry, and completes a poll without an error unless it was cancelled. -/
def RingStep.Prompt : RingStep → Prop
  | .register _ _ _ _ o o' => o.Prompt ∧ o'.Prompt
  | .modify _ _ _ _ o o' => o.Prompt ∧ o'.Prompt
  | .remove _ o => o.Prompt
  | .poll _ _ o o' => (∀ n, (o n).Prompt) ∧ o'.Prompt
  | .complete _ res => 0 ≤ res
  | .completeRemoval _ => True

/-! ## One entry at a time -/

section Entries

variable {b b' : Backend} {o : Submit} {target target' : Target} {w w' : Watch} {fd : ℕ}
  {events : UInt32} {busy : Option Target}

theorem Backend.watchOf_setWatch_self (b : Backend) (target : Target) (w : Watch) :
    (b.setWatch target w).watchOf target = some w := by
  cases target with
  | wake => rfl
  | watch fd => exact Function.update_self _ _ _

theorem Backend.watchOf_setWatch_of_ne (b : Backend) (w : Watch) (h : target' ≠ target) :
    (b.setWatch target w).watchOf target' = b.watchOf target' := by
  cases target with
  | wake =>
    cases target' with
    | wake => exact absurd rfl h
    | watch fd' => rfl
  | watch fd =>
    cases target' with
    | wake => rfl
    | watch fd' => exact Function.update_of_ne (fun heq => h (congrArg Target.watch heq)) _ _

theorem Backend.setWatch_frame (b : Backend) (target : Target) (w : Watch) :
    (b.setWatch target w).sq = b.sq ∧ (b.setWatch target w).polls = b.polls ∧
      (b.setWatch target w).cq = b.cq := by
  cases target <;> exact ⟨rfl, rfl, rfl⟩

/-- An entry that is pushed on an empty queue is taken at once. -/
theorem submitPending_single (ho : o.Prompt) (hsq : b.sq = []) (sqe : Sqe) :
    (submitPending o { b with sq := b.sq ++ [sqe] }).2 = takeSqe b (o.caught 0) sqe := by
  unfold Submit.Prompt at ho
  unfold submitPending
  cases htaken : o.taken with
  | none =>
    rw [htaken] at ho
    cases ho
  | some n =>
    rw [htaken] at ho
    have hn : uringEntries ≤ n := of_decide_eq_true ho
    have hpos : 1 ≤ n := le_trans (by decide) hn
    have hnonempty : ¬ b.sq ++ [sqe] = [] := by simp
    have htake : ([sqe] : List Sqe).take n = [sqe] := List.take_of_length_le hpos
    have hdrop : ([sqe] : List Sqe).drop n = [] := List.drop_eq_nil_of_le hpos
    rw [if_neg hnonempty]
    simp only [hsq, List.nil_append, htake, hdrop, takeSqes]
    rw [← hsq]

theorem sqePush_of_nil (hsq : b.sq = []) (sqe : Sqe) :
    sqePush b sqe = some { b with sq := b.sq ++ [sqe] } :=
  if_pos (by rw [hsq]; decide)

/-- **A watch that is armed**: its poll is in flight. -/
theorem armWatch_prompt (ho : o.Prompt) (hsq : b.sq = []) (hactive : w.active = true)
    (harmed : w.armed = false) (hevents : w.events ≠ 0) :
    (armWatch o b target w).2 = { b.setWatch target { w with armed := true } with
      polls := b.polls ++ [⟨target, pollMask w.events, b.epochOf target, false⟩] } := by
  have hskip : ¬ (w.active = false ∨ w.armed = true ∨ w.events = 0) := by
    simp [hactive, harmed, hevents]
  unfold armWatch
  rw [if_neg hskip, sqePush_of_nil hsq]
  simp only
  have hcommute : Backend.setWatch { b with
      sq := b.sq ++ [.pollAdd target (pollMask w.events) (b.epochOf target)] } target
        { w with armed := true } =
      { b.setWatch target { w with armed := true } with
        sq := (b.setWatch target { w with armed := true }).sq ++
          [.pollAdd target (pollMask w.events) (b.epochOf target)] } := by
    cases target <;> rfl
  obtain ⟨hsq', hpolls, -⟩ := b.setWatch_frame target { w with armed := true }
  rw [hcommute, submitPending_single ho (hsq'.trans hsq), takeSqe, hpolls]

/-- **A watch that is cancelled**: at most one of its polls is. -/
theorem cancelWatch_prompt (ho : o.Prompt) (hsq : b.sq = []) (harmed : w.armed = true) :
    cancelWatch o b target w = ({ w with armed := false },
      (takeSqe b (o.caught 0) (.pollRemove target)).setWatch target { w with armed := false }) := by
  have harmed' : ¬ w.armed = false := by simp [harmed]
  unfold cancelWatch
  rw [if_neg harmed', sqePush_of_nil hsq]
  simp only [submitPending_single ho hsq]

/-- A watch that is cancelled is the same watch, and not armed. -/
theorem cancelWatch_watchOf (ho : o.Prompt) (hsq : b.sq = []) (hwatch : b.watchOf target = some w) :
    (cancelWatch o b target w).2.watchOf target = some { w with armed := false } := by
  cases harmed : w.armed with
  | false =>
    unfold cancelWatch
    rw [if_pos harmed, hwatch, ← harmed]
  | true =>
    rw [cancelWatch_prompt ho hsq harmed]
    exact Backend.watchOf_setWatch_self _ _ _

end Entries

/-! ## The calls -/

section Calls

variable {b b' : Backend} {o : Submit} {target target' : Target} {w w' : Watch} {fd : ℕ}
  {events : UInt32} {busy : Option Target}

/-- Polls that were not cancelled and completions stay. -/
theorem Backend.Hears.mono (h : b.Hears target events)
    (hpolls : ∀ p ∈ b.polls, p.target = target → p ∈ b'.polls)
    (hcq : ∀ cqe ∈ b.cq, cqe.target = some target → cqe ∈ b'.cq) : b'.Hears target events := by
  rcases h with ⟨p, hp, htarget, hmask, hcancelled⟩ | ⟨cqe, hcqe, htarget, hres⟩
  · exact .inl ⟨p, hpolls p hp htarget, htarget, hmask, hcancelled⟩
  · exact .inr ⟨cqe, hcq cqe hcqe htarget, htarget, hres⟩

/-- A watch is changed that is about to be armed. -/
theorem Attentive.setWatch (h : Attentive b (some target)) (hwake : target ≠ .wake) (w : Watch) :
    Attentive (b.setWatch target w) (some target) := by
  obtain ⟨hsq, hpolls, hcq⟩ := b.setWatch_frame target w
  refine ⟨hsq.trans h.sq, ?_, fun target' w' hbusy hwatch hactive hevents => ?_⟩
  · cases target with
    | wake => exact absurd rfl hwake
    | watch fd => exact h.wakeWatch
  · have hne : target' ≠ target := fun heq => hbusy (congrArg some heq.symm)
    rw [b.watchOf_setWatch_of_ne w hne] at hwatch
    refine (h.hears target' w' hbusy hwatch hactive hevents).mono ?_ ?_
    · exact fun p hp _ => hpolls ▸ hp
    · exact fun cqe hcqe _ => hcq ▸ hcqe

theorem Attentive.but (h : Attentive b none) (busy : Option Target) : Attentive b busy :=
  ⟨h.sq, h.wakeWatch, fun target w _ => h.hears target w (Option.some_ne_none target).symm⟩

theorem Attentive.bump (h : Attentive b busy) (fd : ℕ) : Attentive (b.bump fd) busy :=
  ⟨h.sq, h.wakeWatch, h.hears⟩

/-- **The watch that was left is armed**: it is heard with its interests of now. -/
theorem Attentive.arm (h : Attentive b (some target)) (ho : o.Prompt)
    (hwatch : b.watchOf target = some w) (harmed : w.armed = false) :
    Attentive (armWatch o b target w).2 none := by
  by_cases hskip : w.active = false ∨ w.armed = true ∨ w.events = 0
  · -- a watch without interests does not ask to be heard
    unfold armWatch
    rw [if_pos hskip]
    refine ⟨h.sq, h.wakeWatch, fun target' w' _ hwatch' hactive hevents => ?_⟩
    by_cases hne : target' = target
    · subst hne
      cases hwatch.symm.trans hwatch'
      simp [hactive, harmed, hevents] at hskip
    · exact h.hears target' w' (fun heq => hne (Option.some.inj heq).symm) hwatch' hactive hevents
  · simp only [not_or] at hskip
    obtain ⟨hactive, -, hevents⟩ := hskip
    rw [armWatch_prompt ho h.sq (by simpa using hactive) harmed hevents]
    obtain ⟨hsq, hpolls, hcq⟩ := b.setWatch_frame target { w with armed := true }
    refine ⟨hsq.trans h.sq, ?_, fun target' w' _ hwatch' hactive' hevents' => ?_⟩
    · cases target with
      | wake =>
        cases hwatch
        exact h.wakeWatch
      | watch fd => exact h.wakeWatch
    · by_cases hne : target' = target
      · subst hne
        have hsame : w' = { w with armed := true } :=
          Option.some.inj (hwatch'.symm.trans (b.watchOf_setWatch_self target' _))
        rw [hsame]
        exact .inl ⟨_, List.mem_append_right _ List.mem_cons_self, rfl, rfl, rfl⟩
      · have hwatch'' : b.watchOf target' = some w' :=
          (b.watchOf_setWatch_of_ne _ hne).symm.trans hwatch'
        have hheard := h.hears target' w' (fun heq => hne (Option.some.inj heq).symm) hwatch''
          hactive' hevents'
        refine hheard.mono (fun p hp _ => List.mem_append_left _ hp) ?_
        exact fun cqe hcqe _ => hcq ▸ hcqe

/-- **A call cancels a poll of its own watch only.** -/
theorem Attentive.cancel (h : Attentive b (some (.watch fd))) (ho : o.Prompt) (w : Watch) :
    (cancelWatch o b (.watch fd) w).1 = { w with armed := false } ∧
      Attentive (cancelWatch o b (.watch fd) w).2 (some (.watch fd)) := by
  cases harmed : w.armed with
  | false =>
    unfold cancelWatch
    rw [if_pos harmed]
    refine ⟨?_, h⟩
    cases w
    cases harmed
    rfl
  | true =>
    rw [cancelWatch_prompt ho h.sq harmed]
    have htaken : Attentive (takeSqe b (o.caught 0) (.pollRemove (.watch fd)))
        (some (.watch fd)) := by
      refine ⟨h.sq, h.wakeWatch, fun target' w' hbusy hwatch hactive hevents => ?_⟩
      have hne : target' ≠ .watch fd := fun heq => hbusy (congrArg some heq.symm)
      refine (h.hears target' w' hbusy hwatch hactive hevents).mono (fun p hp htarget => ?_)
        fun cqe hcqe _ => hcqe
      -- the poll that is caught, if any, is one of the watch
      change p ∈ (o.caught 0).elim b.polls fun i => b.polls.modify i (Poll.cancel (.watch fd))
      cases o.caught 0 with
      | none => exact hp
      | some i =>
        have hkept : Poll.cancel (.watch fd) p = p := if_neg fun heq => hne (htarget.symm.trans heq)
        obtain ⟨k, hk, hget⟩ := List.mem_iff_getElem.mp hp
        refine List.mem_iff_getElem.mpr ⟨k, by rwa [Option.elim_some, List.length_modify], ?_⟩
        simp only [Option.elim_some, List.getElem_modify, hget, hkept, ite_self]
    exact ⟨rfl, htaken.setWatch (fun heq => by cases heq) _⟩

theorem Attentive.activate (h : Attentive b (some (.watch fd))) (ho : o.Prompt) (events : UInt32)
    (user : ℕ) (harmed : w.armed = false) : Attentive (activate o b fd events user w).2 none := by
  unfold Wirecall.activate
  refine (h.setWatch (fun heq => by cases heq) _).arm ho ?_ harmed
  exact b.watchOf_setWatch_self _ _

/-- **A descriptor is registered**, or its interests change. -/
theorem Attentive.register (h : Attentive b none) {mem : Bool} {o' : Submit} (ho : o.Prompt)
    (ho' : o'.Prompt) (fd : ℕ) (events : UInt32) (user : ℕ) :
    Attentive (backendRegister mem o o' b fd events user).2 none := by
  unfold backendRegister
  cases hwatch : b.watches fd with
  | none =>
    split_ifs
    · exact ((h.but _).bump fd).activate ho' events user rfl
    · exact h
  | some w =>
    obtain ⟨hleft, hattentive⟩ := (h.but (some (.watch fd))).cancel ho w
    simp only
    refine (hattentive.bump fd).activate ho' events user ?_
    rw [hleft]

/-- A watch that is not active does not ask to be heard. -/
theorem Attentive.inactive (h : Attentive b (some target)) (hwatch : b.watchOf target = some w)
    (hactive : w.active = false) : Attentive b none := by
  refine ⟨h.sq, h.wakeWatch, fun target' w' _ hwatch' hactive' hevents => ?_⟩
  by_cases hne : target' = target
  · subst hne
    cases hwatch.symm.trans hwatch'
    exact absurd hactive' (by rw [hactive]; exact Bool.false_ne_true)
  · exact h.hears target' w' (fun heq => hne (Option.some.inj heq).symm) hwatch' hactive' hevents

/-- **A descriptor is removed**: its watch is not active any more. -/
theorem Attentive.remove (h : Attentive b none) (ho : o.Prompt) (fd : ℕ) :
    Attentive (backendRemove o b fd).2 none := by
  unfold backendRemove
  cases hwatch : b.watches fd with
  | none => exact h
  | some w =>
    simp only
    have hset := (h.but (some (.watch fd))).setWatch (fun heq => by cases heq)
      { w with active := false }
    obtain ⟨-, hattentive⟩ := hset.cancel ho { w with active := false }
    have hleft := cancelWatch_watchOf ho hset.sq (b.watchOf_setWatch_self (.watch fd) _)
    exact (hattentive.inactive hleft rfl).bump fd

end Calls

/-! ## Completions -/

section Completions

variable {b b' : Backend} {o : Submit} {cqe : Cqe} {rest : List Cqe}

/-- A poll that is completed is heard on the ring from then on. -/
theorem Attentive.complete (h : Attentive b none) {i : ℕ} {res : Int} (hres : 0 ≤ res)
    (hstep : completePoll b i res = some b') : Attentive b' none := by
  unfold completePoll at hstep
  split at hstep
  · cases hstep
  · rename_i p hp
    cases hstep
    refine ⟨h.sq, h.wakeWatch, fun target w hbusy hwatch hactive hevents => ?_⟩
    rcases h.hears target w hbusy hwatch hactive hevents with hpoll | hcqe
    · obtain ⟨q, hq, htarget, hmask, hcancelled⟩ := hpoll
      by_cases hqp : q = p
      · subst hqp
        refine .inr ⟨_, List.mem_append_right _ List.mem_cons_self, congrArg some htarget, ?_⟩
        simpa [hcancelled] using hres
      · refine .inl ⟨q, ?_, htarget, hmask, hcancelled⟩
        have hmem := (List.getElem_cons_eraseIdx_perm
          (List.getElem?_eq_some_iff.mp hp).1).mem_iff.mpr hq
        rcases List.mem_cons.mp hmem with heq | hmem
        · exact absurd (heq.trans (List.getElem?_eq_some_iff.mp hp).2) hqp
        · exact hmem
    · obtain ⟨cqe, hcqe, htarget, hres⟩ := hcqe
      exact .inr ⟨cqe, List.mem_append_left _ hcqe, htarget, hres⟩

theorem Attentive.completeRemoval (h : Attentive b none) {res : Int}
    (hstep : completeRemoval b res = some b') : Attentive b' none := by
  unfold Wirecall.completeRemoval at hstep
  split_ifs at hstep
  cases hstep
  refine ⟨h.sq, h.wakeWatch, fun target w hbusy hwatch hactive hevents => ?_⟩
  exact (h.hears target w hbusy hwatch hactive hevents).mono (fun p hp _ => hp)
    fun cqe hcqe _ => List.mem_append_left _ hcqe

/-- A completion is taken off the ring: only its own watch may have been heard by it. -/
theorem Attentive.pop (h : Attentive b none) (hcq : b.cq = cqe :: rest) :
    Attentive { b with cq := rest } cqe.target := by
  refine ⟨h.sq, h.wakeWatch, fun target w hbusy hwatch hactive hevents => ?_⟩
  refine (h.hears target w (Option.some_ne_none target).symm hwatch hactive hevents).mono
    (fun p hp _ => hp) fun cqe' hcqe' htarget => ?_
  rw [hcq] at hcqe'
  rcases List.mem_cons.mp hcqe' with rfl | hmem
  · exact absurd htarget hbusy
  · exact hmem

/-- **A turn of the loop**: what was heard is armed again. -/
theorem Attentive.reap (h : Attentive b none) (ho : o.Prompt) (hcq : b.cq = cqe :: rest) :
    Attentive (reap o { b with cq := rest } cqe).2 none := by
  have hpop := h.pop hcq
  unfold Wirecall.reap
  split
  · rename_i htarget
    rwa [htarget] at hpop
  · rename_i htarget
    rw [htarget] at hpop
    simp only
    have hset : Attentive (Backend.setWatch { b with cq := rest } .wake
        { b.wakeWatch with armed := false }) (some .wake) := by
      refine ⟨hpop.sq, hpop.wakeWatch, fun target w hbusy hwatch hactive hevents => ?_⟩
      have hne : target ≠ .wake := fun heq => hbusy (congrArg some heq.symm)
      rw [Backend.watchOf_setWatch_of_ne _ _ hne] at hwatch
      exact (hpop.hears target w hbusy hwatch hactive hevents).mono (fun p hp _ => hp)
        fun cqe hcqe _ => hcqe
    exact hset.arm ho rfl rfl
  · rename_i fd htarget
    rw [htarget] at hpop
    simp only
    split
    · rename_i hwatch
      refine ⟨hpop.sq, hpop.wakeWatch, fun target w _ hwatch' hactive hevents => ?_⟩
      refine hpop.hears target w (fun heq => ?_) hwatch' hactive hevents
      cases heq
      cases hwatch.symm.trans hwatch'
    · rename_i w hwatch
      have hset := hpop.setWatch (fun heq => by cases heq) { w with armed := false }
      by_cases hready : w.active = true ∧ 0 ≤ cqe.res
      · rw [if_pos hready]
        exact hset.arm ho (Backend.watchOf_setWatch_self _ _ _) rfl
      · rw [if_neg hready]
        dsimp only
        by_cases hactive : w.active = true
        · -- the completion has an error, so the watch was heard by something else
          have hres : ¬ 0 ≤ cqe.res := fun hres => hready ⟨hactive, hres⟩
          refine ⟨hset.sq, hset.wakeWatch, fun target w' _ hwatch' hactive' hevents => ?_⟩
          by_cases hne : target = .watch fd
          · subst hne
            have hsame : w' = { w with armed := false } :=
              Option.some.inj (hwatch'.symm.trans (Backend.watchOf_setWatch_self _ _ _))
            rw [hsame] at hevents ⊢
            rcases h.hears (.watch fd) w (Option.some_ne_none _).symm hwatch hactive hevents with
              hpoll | ⟨cqe', hcqe', htarget', hres'⟩
            · exact .inl hpoll
            · rw [hcq] at hcqe'
              rcases List.mem_cons.mp hcqe' with rfl | hmem
              · exact absurd hres' hres
              · exact .inr ⟨cqe', hmem, htarget', hres'⟩
          · exact hset.hears target w' (fun heq => hne (Option.some.inj heq).symm) hwatch' hactive'
              hevents
        · exact hset.inactive (Backend.watchOf_setWatch_self _ _ _) (by simpa using hactive)

/-- **The loop of `wirecall_backend_poll`.** -/
theorem Attentive.pollLoop {o : ℕ → Submit} (ho : ∀ n, (o n).Prompt) (h : Attentive b none)
    (maxEvents n : ℕ) (events : List PollEvent) :
    Attentive (pollLoop o maxEvents n events b).2 none := by
  induction n generalizing b events with
  | zero => exact h
  | succ n ih =>
    rw [Wirecall.pollLoop]
    split_ifs
    · split
      · exact h
      · rename_i cqe rest hcq
        exact ih (h.reap (ho n) hcq) _
    · exact h

theorem Attentive.poll {o : ℕ → Submit} {o' : Submit} (ho : ∀ n, (o n).Prompt)
    (h : Attentive b none) (entered : Bool) (maxEvents : ℕ) :
    Attentive (backendPoll entered o o' maxEvents b).2 none := by
  unfold backendPoll
  split_ifs
  · have hloop := h.pollLoop ho maxEvents b.cq.length []
    -- the queue is empty, so there is nothing left to submit
    have hsubmit : (submitPending o' (Wirecall.pollLoop o maxEvents b.cq.length [] b).2).2 =
        (Wirecall.pollLoop o maxEvents b.cq.length [] b).2 := by
      rw [submitPending, if_pos hloop.sq]
    simp only [hsubmit]
    exact hloop
  · exact h

end Completions

/-! ## Runs -/

section Runs

variable {b b' : Backend} {l : RingStep}

/-- **Every step keeps every active watch heard.** -/
theorem Attentive.step (h : Attentive b none) (hprompt : l.Prompt) (hstep : b.step l = some b') :
    Attentive b' none := by
  cases l with
  | register fd events user mem o o' =>
    cases hstep
    exact h.register hprompt.1 hprompt.2 fd events user
  | modify fd events user mem o o' =>
    cases hstep
    exact h.register hprompt.1 hprompt.2 fd events user
  | remove fd o =>
    cases hstep
    exact h.remove hprompt fd
  | poll maxEvents entered o o' =>
    cases hstep
    exact h.poll hprompt.1 entered maxEvents
  | complete i res => exact h.complete hprompt hstep
  | completeRemoval res => exact h.completeRemoval hstep

theorem attentive_create {o : Submit} (ho : o.Prompt) : Attentive (backendCreate o).2 none := by
  have hzero : Attentive Backend.zero (some .wake) := by
    refine ⟨rfl, ⟨rfl, rfl⟩, fun target w hbusy hwatch => ?_⟩
    cases target with
    | wake => exact absurd rfl hbusy
    | watch fd => cases hwatch
  exact hzero.arm ho rfl rfl

/-- **No watch goes deaf** if the kernel takes every entry and no poll is completed with an error of
its own: after every run of calls and completions, however late polls are completed and whichever of
them a cancellation catches, the wake watch and every active watch with interests have a poll in
flight that waits for these interests and was not cancelled, or a completion on the ring that is
still to be reaped. -/
theorem no_watch_goes_deaf {o : Submit} (ho : o.Prompt) {steps : List RingStep} {b : Backend}
    (hprompt : ∀ l ∈ steps, l.Prompt)
    (hrun : Machine.exec Backend.step (backendCreate o).2 steps = some b) :
    b.Hears .wake backendRead ∧ ∀ fd w, b.watches fd = some w → w.active = true → w.events ≠ 0 →
      b.Hears (.watch fd) w.events := by
  have hmeets : Machine.Meets Backend.step (fun _ l => l.Prompt) (backendCreate o).2 steps :=
    .of_forall fun _ l hl => hprompt l hl
  have hattentive : Attentive b none :=
    Machine.exec_invariant (P := fun b => Attentive b none)
      (fun _ _ _ h hprompt hstep => h.step hprompt hstep) (attentive_create ho) hmeets hrun
  refine ⟨?_, fun fd w hwatch hactive hevents => ?_⟩
  · obtain ⟨hactive, hevents⟩ := hattentive.wakeWatch
    have hheard := hattentive.hears .wake b.wakeWatch (Option.some_ne_none _).symm rfl hactive
      (by rw [hevents]; decide)
    rwa [hevents] at hheard
  · exact hattentive.hears (.watch fd) w (Option.some_ne_none _).symm hwatch hactive hevents

/-- The polls of a descriptor are completed twice before they are reaped, and cancelled too late. -/
theorem no_watch_goes_deaf_late :
    let steps := modifyLate ++ [.poll 16 true (fun _ => .all none) (.all none)]
    ∃ b, Machine.exec Backend.step (backendCreate (.all none)).2 steps = some b ∧
      b.Hears (.watch 5) backendRead := by
  intro steps
  have hprompt : ∀ l ∈ steps, l.Prompt := by
    refine List.forall_mem_cons.mpr ⟨⟨rfl, rfl⟩, List.forall_mem_cons.mpr ⟨zero_le_one, ?_⟩⟩
    refine List.forall_mem_cons.mpr ⟨⟨rfl, rfl⟩, List.forall_mem_cons.mpr ⟨zero_le_one, ?_⟩⟩
    exact List.forall_mem_singleton.mpr ⟨fun _ => rfl, rfl⟩
  have heval : (Machine.exec Backend.step (backendCreate (.all none)).2 steps).any (fun b =>
      decide ((b.watches 5) = some ⟨backendRead, 2, true, true⟩)) = true := by
    decide +kernel
  obtain ⟨b, hrun, hb⟩ := Machine.exists_of_any heval
  have hwatch := of_decide_eq_true hb
  refine ⟨b, hrun, ?_⟩
  have hheard := no_watch_goes_deaf (o := .all none) rfl hprompt hrun
  exact hheard.2 5 _ hwatch rfl (by decide)

end Runs

end Wirecall

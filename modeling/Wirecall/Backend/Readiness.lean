import Wirecall.Machine.Run
import Wirecall.Backend.IoUring

/-!
# Stale and duplicate readiness

An event is stale when its poll was armed before the last call on its descriptor. The one flag
`armed` says that a poll was submitted, not that it is in flight: a poll that is completed before a
`POLL_REMOVE` reaches it reports readiness to a watch that has been armed again since.

Let a poll be live while it can still report readiness: it waits to be taken by the kernel, or is in
flight and was not cancelled, or its completion is on the ring and has no error. If a call leaves
no live poll of its descriptor behind, then there is at most one at any time, and it is current.

## Main definitions

* `Backend.live`: the numbers of the live polls of a descriptor
* `Fresh`: at most one is live, and it is current
* `Settled`: a call on a descriptor leaves none of the earlier polls live

## Main results

* `Fresh.step`: every such step keeps it
* `readiness_fresh`: **no stale or duplicate readiness** in runs of such steps
* `stale_and_duplicate`: otherwise a batch may have both
-/

namespace Wirecall

/-! ## Live polls -/

/-- The entry is a `POLL_ADD` for the descriptor. -/
def Sqe.arms (fd : ℕ) : Sqe → Option ℕ
  | .pollAdd target _ epoch => if target = .watch fd then some epoch else none
  | .pollRemove _ => none

/-- The poll is for the descriptor and was not cancelled. -/
def Poll.arms (fd : ℕ) (p : Poll) : Option ℕ :=
  if p.target = .watch fd ∧ p.cancelled = false then some p.epoch else none

/-- The completion is for the descriptor and has no error. -/
def Cqe.arms (fd : ℕ) (cqe : Cqe) : Option ℕ :=
  if cqe.target = some (.watch fd) ∧ 0 ≤ cqe.res then some cqe.epoch else none

/-- The numbers that the live polls of the descriptor were armed under. -/
def Backend.live (b : Backend) (fd : ℕ) : List ℕ :=
  b.sq.filterMap (Sqe.arms fd) ++ b.polls.filterMap (Poll.arms fd) ++ b.cq.filterMap (Cqe.arms fd)

/-- **At most one poll of a descriptor is live, and it was armed after the last call.** -/
structure Fresh (b : Backend) : Prop where
  once : ∀ fd, (b.live fd).length ≤ 1
  current : ∀ fd, ∀ e ∈ b.live fd, e = b.epoch fd
  watched : ∀ fd, b.watches fd = none → b.live fd = []

/-- The rings of `b'` report no more than those of `b`. -/
structure Quieter (b b' : Backend) : Prop where
  cq : b'.cq = b.cq
  epoch : b'.epoch = b.epoch
  watches : ∀ fd, b'.watches fd = none → b.watches fd = none
  live : ∀ fd, (b'.live fd).Subperm (b.live fd)

section Quieter

variable {b b' b'' : Backend} {o : Submit} {target : Target} {w : Watch} {fd : ℕ}

theorem Quieter.refl (b : Backend) : Quieter b b :=
  ⟨rfl, rfl, fun _ h => h, fun _ => List.Subperm.refl _⟩

theorem Quieter.trans (h : Quieter b b') (h' : Quieter b' b'') : Quieter b b'' :=
  ⟨h'.cq.trans h.cq, h'.epoch.trans h.epoch, fun fd hfd => h.watches fd (h'.watches fd hfd),
    fun fd => (h'.live fd).trans (h.live fd)⟩

theorem live_setWatch (b : Backend) (target : Target) (w : Watch) (fd : ℕ) :
    (b.setWatch target w).live fd = b.live fd := by
  cases target <;> rfl

theorem setWatch_epoch (b : Backend) (target : Target) (w : Watch) :
    (b.setWatch target w).epoch = b.epoch := by
  cases target <;> rfl

theorem setWatch_cq (b : Backend) (target : Target) (w : Watch) :
    (b.setWatch target w).cq = b.cq := by
  cases target <;> rfl

/-- A watch is changed or added. -/
theorem Quieter.setWatch (b : Backend) (target : Target) (w : Watch) :
    Quieter b (b.setWatch target w) := by
  refine ⟨setWatch_cq b target w, setWatch_epoch b target w, fun fd hfd => ?_, fun fd => ?_⟩
  · cases target with
    | wake => exact hfd
    | watch fd' =>
      change Function.update b.watches fd' (some w) fd = none at hfd
      rw [Function.update_apply] at hfd
      split_ifs at hfd
      exact hfd
  · rw [live_setWatch]

/-- A poll that is cancelled is live no more. -/
theorem filterMap_modify_cancel (polls : List Poll) (i : ℕ) (target : Target) (fd : ℕ) :
    ((polls.modify i (Poll.cancel target)).filterMap (Poll.arms fd)).Sublist
      (polls.filterMap (Poll.arms fd)) := by
  induction polls generalizing i with
  | nil => simp
  | cons p polls ih =>
    cases i with
    | zero =>
      rw [List.modify_zero_cons, List.filterMap_cons, List.filterMap_cons]
      unfold Poll.cancel
      split_ifs with htarget
      · have hnone : Poll.arms fd { p with cancelled := true } = none :=
          if_neg fun h => Bool.noConfusion h.2
        rw [hnone]
        cases Poll.arms fd p with
        | none => exact List.Sublist.refl _
        | some e => exact List.sublist_cons_self _ _
      · exact List.Sublist.refl _
    | succ i =>
      rw [List.modify_succ_cons, List.filterMap_cons, List.filterMap_cons]
      cases Poll.arms fd p with
      | none => exact ih i
      | some e => exact (ih i).cons_cons e

/-- What the kernel takes was live on the submission queue. -/
theorem takeSqe_live (b : Backend) (caught : Option ℕ) (sqe : Sqe) (fd : ℕ) :
    ((takeSqe b caught sqe).live fd).Subperm ((sqe.arms fd).toList ++ b.live fd) := by
  cases sqe with
  | pollAdd target mask epoch =>
    refine List.Perm.subperm ?_
    have harms : Poll.arms fd ⟨target, mask, epoch, false⟩ =
        (Sqe.pollAdd target mask epoch).arms fd := by
      simp [Poll.arms, Sqe.arms]
    have hnew : List.filterMap (Poll.arms fd) [⟨target, mask, epoch, false⟩] =
        ((Sqe.pollAdd target mask epoch).arms fd).toList := by
      rw [← harms]
      cases h : Poll.arms fd ⟨target, mask, epoch, false⟩ <;> simp [h]
    simp only [Backend.live, takeSqe, List.filterMap_append, hnew]
    generalize ((Sqe.pollAdd target mask epoch).arms fd).toList = new
    generalize List.filterMap (Sqe.arms fd) b.sq = sq
    generalize List.filterMap (Poll.arms fd) b.polls = polls
    generalize List.filterMap (Cqe.arms fd) b.cq = cq
    have hswap : (sq ++ (polls ++ new)).Perm (new ++ (sq ++ polls)) := by
      rw [← List.append_assoc]
      exact List.perm_append_comm
    rw [← List.append_assoc new]
    exact hswap.append_right cq
  | pollRemove target =>
    refine List.Sublist.subperm ?_
    simp only [Backend.live, takeSqe, Sqe.arms, Option.toList_none, List.nil_append]
    refine List.Sublist.append_right (List.Sublist.append_left ?_ _) _
    cases caught with
    | none => exact List.Sublist.refl _
    | some i => exact filterMap_modify_cancel b.polls i target fd

theorem takeSqe_frame (b : Backend) (caught : Option ℕ) (sqe : Sqe) :
    (takeSqe b caught sqe).cq = b.cq ∧ (takeSqe b caught sqe).epoch = b.epoch ∧
      (takeSqe b caught sqe).watches = b.watches := by
  cases sqe <;> exact ⟨rfl, rfl, rfl⟩

theorem takeSqes_frame (caught : ℕ → Option ℕ) (sqes : List Sqe) (b : Backend) :
    (takeSqes caught sqes b).cq = b.cq ∧ (takeSqes caught sqes b).epoch = b.epoch ∧
      (takeSqes caught sqes b).watches = b.watches := by
  induction sqes generalizing caught b with
  | nil => exact ⟨rfl, rfl, rfl⟩
  | cons sqe sqes ih =>
    obtain ⟨hcq, hepoch, hwatches⟩ := ih (fun k => caught (k + 1)) (takeSqe b (caught 0) sqe)
    obtain ⟨hcq', hepoch', hwatches'⟩ := takeSqe_frame b (caught 0) sqe
    exact ⟨hcq.trans hcq', hepoch.trans hepoch', hwatches.trans hwatches'⟩

theorem takeSqes_live (caught : ℕ → Option ℕ) (sqes : List Sqe) (b : Backend) (fd : ℕ) :
    ((takeSqes caught sqes b).live fd).Subperm (sqes.filterMap (Sqe.arms fd) ++ b.live fd) := by
  -- along the entries, each of which is moved or cancels
  induction sqes generalizing caught b with
  | nil => exact List.Subperm.refl _
  | cons sqe sqes ih =>
    refine (ih (fun k => caught (k + 1)) (takeSqe b (caught 0) sqe)).trans ?_
    have hhead := takeSqe_live b (caught 0) sqe fd
    refine ((List.subperm_append_left _).mpr hhead).trans (List.Perm.subperm ?_)
    rw [List.filterMap_cons, ← List.append_assoc]
    refine List.Perm.append_right _ ?_
    cases sqe.arms fd with
    | none => simp
    | some e => exact List.perm_append_comm

/-- **Entering the kernel to submit** makes no poll live that was not. -/
theorem Quieter.submitPending (o : Submit) (b : Backend) : Quieter b (submitPending o b).2 := by
  unfold Wirecall.submitPending
  split_ifs with hempty
  · exact .refl b
  · cases o.taken with
    | none => exact .refl b
    | some n =>
      obtain ⟨hcq, hepoch, hwatches⟩ := takeSqes_frame o.caught (b.sq.take n)
        { b with sq := b.sq.drop n }
      refine ⟨hcq, hepoch, fun fd hfd => ?_, fun fd => ?_⟩
      · rwa [hwatches] at hfd
      · refine (takeSqes_live o.caught (b.sq.take n) { b with sq := b.sq.drop n } fd).trans ?_
        refine List.Perm.subperm (List.Perm.of_eq ?_)
        simp only [Backend.live]
        rw [← List.append_assoc, ← List.append_assoc, ← List.filterMap_append, List.take_append_drop]

theorem sqePush_eq_some {sqe : Sqe} (h : sqePush b sqe = some b') :
    b' = { b with sq := b.sq ++ [sqe] } := by
  unfold sqePush at h
  split_ifs at h
  exact (Option.some.inj h).symm

/-- **A cancellation makes no poll live.** -/
theorem Quieter.cancelWatch (o : Submit) (b : Backend) (target : Target) (w : Watch) :
    Quieter b (cancelWatch o b target w).2 := by
  unfold Wirecall.cancelWatch
  split_ifs with harmed
  · exact .refl b
  · cases hpush : sqePush b (.pollRemove target) with
    | none => exact .refl b
    | some b' =>
      have hpushed : Quieter b b' := by
        rw [sqePush_eq_some hpush]
        refine ⟨rfl, rfl, fun _ h => h, fun fd => List.Perm.subperm (List.Perm.of_eq ?_)⟩
        simp [Backend.live, Sqe.arms]
      exact hpushed.trans ((Quieter.submitPending o b').trans (.setWatch _ _ _))

end Quieter

/-! ## The calls -/

section Calls

variable {b b' : Backend} {o : Submit} {target : Target} {w : Watch} {fd : ℕ}

theorem Fresh.of_subperm (h : Fresh b) (hepoch : b'.epoch = b.epoch)
    (hwatches : ∀ fd, b'.watches fd = none → b.watches fd = none)
    (hlive : ∀ fd, (b'.live fd).Subperm (b.live fd)) : Fresh b' := by
  refine ⟨fun fd => ?_, fun fd e he => ?_, fun fd hfd => ?_⟩
  · exact (hlive fd).length_le.trans (h.once fd)
  · rw [hepoch]
    exact h.current fd e ((hlive fd).subset he)
  · have hnone := hlive fd
    rw [h.watched fd (hwatches fd hfd)] at hnone
    exact List.subperm_nil.mp hnone

theorem Fresh.quieter (h : Fresh b) (hquieter : Quieter b b') : Fresh b' :=
  h.of_subperm hquieter.epoch hquieter.watches hquieter.live

/-- The poll that a push makes live. -/
theorem live_push (b : Backend) (target : Target) (mask : UInt32) (epoch : ℕ) (fd : ℕ) :
    (Backend.live { b with sq := b.sq ++ [.pollAdd target mask epoch] } fd).Perm
      (if target = .watch fd then epoch :: b.live fd else b.live fd) := by
  simp only [Backend.live, List.filterMap_append]
  split_ifs with htarget
  · have hnew : List.filterMap (Sqe.arms fd) [.pollAdd target mask epoch] = [epoch] := by
      simp [Sqe.arms, htarget]
    rw [hnew, List.append_assoc, List.append_assoc, List.append_assoc]
    exact List.perm_middle
  · have hnew : List.filterMap (Sqe.arms fd) [.pollAdd target mask epoch] = [] := by
      simp [Sqe.arms, htarget]
    rw [hnew, List.append_nil]

/-- The wake watch is armed. -/
theorem Quieter.armWake (o : Submit) (b : Backend) (w : Watch) :
    Quieter b (armWatch o b .wake w).2 := by
  unfold armWatch
  split_ifs with hskip
  · exact .refl b
  · cases hpush : sqePush b (.pollAdd .wake (pollMask w.events) (b.epochOf .wake)) with
    | none => exact .refl b
    | some b' =>
      have hpushed : Quieter b b' := by
        rw [sqePush_eq_some hpush]
        refine ⟨rfl, rfl, fun _ h => h, fun fd => List.Perm.subperm ?_⟩
        exact (live_push b .wake _ _ fd).trans (.of_eq (if_neg fun h => by cases h))
      exact hpushed.trans ((Quieter.setWatch _ _ _).trans (.submitPending o _))

/-- **A watch is armed when none of its polls is live.** -/
theorem Fresh.arm (h : Fresh b) (hwatch : b.watches fd ≠ none) (hlive : b.live fd = []) :
    Fresh (armWatch o b (.watch fd) w).2 ∧
      (armWatch o b (.watch fd) w).2.cq = b.cq ∧ (armWatch o b (.watch fd) w).2.epoch = b.epoch := by
  unfold armWatch
  split_ifs with hskip
  · exact ⟨h, rfl, rfl⟩
  · cases hpush : sqePush b (.pollAdd (.watch fd) (pollMask w.events) (b.epochOf (.watch fd))) with
    | none => exact ⟨h, rfl, rfl⟩
    | some b' =>
      rw [sqePush_eq_some hpush]
      have hperm (fd' : ℕ) := live_push b (.watch fd) (pollMask w.events) (b.epochOf (.watch fd)) fd'
      have hpushed : Fresh { b with
          sq := b.sq ++ [.pollAdd (.watch fd) (pollMask w.events) (b.epochOf (.watch fd))] } := by
        refine ⟨fun fd' => ?_, fun fd' e he => ?_, fun fd' hfd' => ?_⟩
        all_goals by_cases hfd : fd' = fd
        · subst hfd
          rw [(hperm fd').length_eq, if_pos rfl, hlive]
          exact le_rfl
        · rw [(hperm fd').length_eq, if_neg fun heq => hfd (Target.watch.inj heq).symm]
          exact h.once fd'
        · subst hfd
          rw [(hperm fd').mem_iff, if_pos rfl, hlive] at he
          exact List.mem_singleton.mp he
        · rw [(hperm fd').mem_iff, if_neg fun heq => hfd (Target.watch.inj heq).symm] at he
          exact h.current fd' e he
        · subst hfd
          exact absurd hfd' hwatch
        · have hnone := hperm fd'
          rw [if_neg fun heq => hfd (Target.watch.inj heq).symm, h.watched fd' hfd'] at hnone
          exact List.perm_nil.mp hnone
      have hquieter := (Quieter.setWatch { b with
          sq := b.sq ++ [.pollAdd (.watch fd) (pollMask w.events) (b.epochOf (.watch fd))] }
        (.watch fd) { w with armed := true }).trans (.submitPending o _)
      exact ⟨hpushed.quieter hquieter, hquieter.cq, hquieter.epoch⟩

/-- A call is counted on a descriptor without live polls. -/
theorem Fresh.bump (h : Fresh b) (hlive : b.live fd = []) : Fresh (b.bump fd) := by
  refine ⟨h.once, fun fd' e he => ?_, h.watched⟩
  change e = Function.update b.epoch fd (b.epoch fd + 1) fd'
  by_cases hfd : fd' = fd
  · subst hfd
    change e ∈ b.live fd' at he
    rw [hlive] at he
    cases he
  · rw [Function.update_of_ne hfd]
    exact h.current fd' e he

theorem Fresh.activate (h : Fresh b) (hlive : b.live fd = []) (events : UInt32) (user : ℕ) :
    Fresh (activate o (b.bump fd) fd events user w).2 := by
  refine (((h.bump hlive).quieter (.setWatch _ _ _)).arm ?_ ?_).1
  · change Function.update b.watches fd _ fd ≠ none
    rw [Function.update_self]
    exact Option.some_ne_none _
  · rw [live_setWatch]
    exact hlive

/-- The polls of the descriptor that are still live after the `POLL_REMOVE` of a call, which is made
with the watch as the call has it then. -/
def leftLive (o : Submit) (b : Backend) (fd : ℕ) (edit : Watch → Watch) : List ℕ :=
  match b.watches fd with
  | none => []
  | some w => (cancelWatch o (b.setWatch (.watch fd) (edit w)) (.watch fd) (edit w)).2.live fd

/-- The call leaves no poll of its descriptor live: each one was reaped or has failed, or the
`POLL_REMOVE` of the call catches it. -/
def Settled (b : Backend) : RingStep → Prop
  | .register fd _ _ _ o _ => leftLive o b fd id = []
  | .modify fd _ _ _ o _ => leftLive o b fd id = []
  | .remove fd o => leftLive o b fd (fun w => { w with active := false }) = []
  | _ => True

instance (b : Backend) : DecidablePred (Settled b)
  | .register _ _ _ _ _ _ => inferInstanceAs (Decidable (_ = _))
  | .modify _ _ _ _ _ _ => inferInstanceAs (Decidable (_ = _))
  | .remove _ _ => inferInstanceAs (Decidable (_ = _))
  | .poll _ _ _ _ => inferInstanceAs (Decidable True)
  | .complete _ _ => inferInstanceAs (Decidable True)
  | .completeRemoval _ => inferInstanceAs (Decidable True)

theorem Backend.setWatch_eq_self (hwatch : b.watches fd = some w) :
    b.setWatch (.watch fd) w = b := by
  rw [Backend.setWatch, ← hwatch, Function.update_eq_self]

theorem Fresh.register (h : Fresh b) {mem : Bool} {o' : Submit} {events : UInt32} {user : ℕ}
    (hsettled : leftLive o b fd id = []) : Fresh (backendRegister mem o o' b fd events user).2 := by
  unfold leftLive at hsettled
  unfold backendRegister
  cases hwatch : b.watches fd with
  | none =>
    split_ifs
    · exact h.activate (h.watched fd hwatch) events user
    · exact h
  | some w =>
    simp only [hwatch, id, Backend.setWatch_eq_self hwatch] at hsettled
    exact (h.quieter (.cancelWatch o b (.watch fd) w)).activate hsettled events user

theorem Fresh.remove (h : Fresh b) (hsettled : Settled b (.remove fd o)) :
    Fresh (backendRemove o b fd).2 := by
  unfold Settled leftLive at hsettled
  unfold backendRemove
  cases hwatch : b.watches fd with
  | none => exact h
  | some w =>
    simp only [hwatch] at hsettled
    exact Fresh.bump ((h.quieter (.setWatch b (.watch fd) { w with active := false })).quieter
      (.cancelWatch o _ (.watch fd) { w with active := false })) hsettled

end Calls

/-! ## Completions -/

section Completions

variable {b b' : Backend} {o : Submit} {fd : ℕ}

/-- The completion of a poll. -/
def Poll.completion (p : Poll) (res : Int) : Cqe :=
  ⟨some p.target, if p.cancelled then canceled else res, p.epoch⟩

/-- A completion is live only if its poll was. -/
theorem arms_completion (p : Poll) (res : Int) (fd : ℕ) :
    ((p.completion res).arms fd).toList.Sublist (p.arms fd).toList := by
  by_cases harms : p.target = .watch fd ∧ p.cancelled = false
  · have hpoll : Poll.arms fd p = some p.epoch := if_pos harms
    rw [hpoll]
    by_cases hres : 0 ≤ res <;> simp [Cqe.arms, Poll.completion, harms, hres]
  · have hcqe : (p.completion res).arms fd = none := by
      refine if_neg fun hcqe => harms ⟨Option.some.inj hcqe.1, ?_⟩
      obtain ⟨-, hres⟩ := hcqe
      rw [Poll.completion] at hres
      cases hcancelled : p.cancelled with
      | false => rfl
      | true =>
        rw [hcancelled, if_pos rfl] at hres
        exact absurd hres (by decide : ¬ (0 : Int) ≤ canceled)
    rw [hcqe]
    exact List.nil_sublist _

theorem filterMap_singleton {α β : Type} (f : α → Option β) (a : α) :
    [a].filterMap f = (f a).toList := by
  cases h : f a <;> simp [h]

/-- A poll leaves the list of those in flight, and its completion is appended to the ring. -/
theorem Fresh.complete (h : Fresh b) {i : ℕ} {res : Int} (hstep : completePoll b i res = some b') :
    Fresh b' := by
  unfold completePoll at hstep
  split at hstep
  · cases hstep
  · rename_i p hp
    obtain ⟨hi, hget⟩ := List.getElem?_eq_some_iff.mp hp
    cases hstep
    refine h.of_subperm rfl (fun _ hfd => hfd) fun fd => ?_
    have hperm := (List.getElem_cons_eraseIdx_perm hi).filterMap (Poll.arms fd)
    rw [hget, ← List.singleton_append, List.filterMap_append, filterMap_singleton] at hperm
    change (b.sq.filterMap (Sqe.arms fd) ++ (b.polls.eraseIdx i).filterMap (Poll.arms fd) ++
      (b.cq ++ [p.completion res]).filterMap (Cqe.arms fd)).Subperm _
    rw [List.filterMap_append, filterMap_singleton, Backend.live, List.append_assoc,
      List.append_assoc]
    refine (List.subperm_append_left _).mpr (List.Subperm.trans ?_ (hperm.append_right _).subperm)
    rw [← List.append_assoc]
    refine ((arms_completion p res fd).append_left _).subperm.trans (List.Perm.subperm ?_)
    rw [List.append_assoc (p.arms fd).toList]
    exact List.perm_append_comm

theorem Fresh.completeRemoval (h : Fresh b) {res : Int}
    (hstep : Wirecall.completeRemoval b res = some b') : Fresh b' := by
  unfold Wirecall.completeRemoval at hstep
  split_ifs at hstep
  cases hstep
  have hlive (fd : ℕ) : Backend.live { b with
      removals := b.removals - 1
      cq := b.cq ++ [⟨none, res, 0⟩] } fd = b.live fd := by
    simp [Backend.live, Cqe.arms]
  exact ⟨fun fd => hlive fd ▸ h.once fd, fun fd e he => h.current fd e (hlive fd ▸ he),
    fun fd hfd => (hlive fd).trans (h.watched fd hfd)⟩

/-- The completion that is reaped next. -/
theorem Fresh.pop (h : Fresh b) {cqe : Cqe} {rest : List Cqe} (hcq : b.cq = cqe :: rest) :
    Fresh { b with cq := rest } ∧ ∀ fd e, cqe.arms fd = some e →
      Backend.live { b with cq := rest } fd = [] ∧ e = b.epoch fd := by
  have hlive (fd : ℕ) : (b.live fd).Perm
      ((cqe.arms fd).toList ++ Backend.live { b with cq := rest } fd) := by
    have hhead : List.filterMap (Cqe.arms fd) (cqe :: rest) =
        (cqe.arms fd).toList ++ List.filterMap (Cqe.arms fd) rest := by
      rw [List.filterMap_cons]
      cases cqe.arms fd <;> rfl
    simp only [Backend.live, hcq, hhead]
    rw [← List.append_assoc, ← List.append_assoc]
    exact List.Perm.append_right _ List.perm_append_comm
  have hsub (fd : ℕ) : (Backend.live { b with cq := rest } fd).Subperm (b.live fd) :=
    (List.sublist_append_right _ _).subperm.trans (hlive fd).symm.subperm
  refine ⟨h.of_subperm rfl (fun _ hfd => hfd) hsub, fun fd e he => ⟨?_, ?_⟩⟩
  · have hlen := (hlive fd).length_eq
    have honce := h.once fd
    rw [he, List.length_append, Option.toList_some, List.length_singleton] at hlen
    exact List.length_eq_zero_iff.mp (by omega)
  · refine h.current fd e ((hlive fd).mem_iff.mpr ?_)
    rw [he]
    exact List.mem_cons_self

end Completions

/-! ## The poll loop -/

/-- The descriptor of an event. -/
def PollEvent.fd : PollEvent → Option ℕ
  | .wake => none
  | .ready fd _ _ _ => some fd

/-- The event stems from a poll that was armed after the last call on its descriptor. -/
def PollEvent.Current (epoch : ℕ → ℕ) : PollEvent → Prop
  | .wake => True
  | .ready fd _ _ e => e = epoch fd

section Loop

variable {b : Backend}

/-- **What a turn of the loop does**: it keeps the polls fresh, and its event is that of the live
completion it takes. -/
theorem Fresh.reap (h : Fresh b) (o : Submit) {cqe : Cqe} {rest : List Cqe}
    (hcq : b.cq = cqe :: rest) :
    Fresh (reap o { b with cq := rest } cqe).2 ∧ (reap o { b with cq := rest } cqe).2.cq = rest ∧
      (reap o { b with cq := rest } cqe).2.epoch = b.epoch ∧
      (∀ ev ∈ (reap o { b with cq := rest } cqe).1, ev.Current b.epoch) ∧
      ∀ fd, ((reap o { b with cq := rest } cqe).1.filterMap PollEvent.fd).count fd ≤
        (cqe.arms fd).toList.length := by
  obtain ⟨hpop, harms⟩ := h.pop hcq
  unfold Wirecall.reap
  split
  · exact ⟨hpop, rfl, rfl, List.forall_mem_nil _, fun fd => Nat.zero_le _⟩
  · -- the wake watch
    have hquieter := (Quieter.setWatch { b with cq := rest } .wake
      { b.wakeWatch with armed := false }).trans (.armWake o _ { b.wakeWatch with armed := false })
    exact ⟨hpop.quieter hquieter, hquieter.cq, hquieter.epoch, List.forall_mem_singleton.mpr trivial,
      fun fd => Nat.zero_le _⟩
  · rename_i fd htarget
    simp only
    split
    · exact ⟨hpop, rfl, rfl, List.forall_mem_nil _, fun fd => Nat.zero_le _⟩
    · rename_i w hwatch
      have hquieter := Quieter.setWatch { b with cq := rest } (.watch fd) { w with armed := false }
      by_cases hactive : w.active = true ∧ 0 ≤ cqe.res
      · -- a live completion: the watch has no other live poll, and is armed again
        have hcqe : cqe.arms fd = some cqe.epoch := if_pos ⟨htarget, hactive.2⟩
        obtain ⟨hlive, hepoch⟩ := harms fd cqe.epoch hcqe
        have hset : (Backend.setWatch { b with cq := rest } (.watch fd)
            { w with armed := false }).watches fd ≠ none := by
          simp [Backend.setWatch]
        obtain ⟨hfresh, hcq', hepoch'⟩ := (hpop.quieter hquieter).arm (o := o)
          (w := { w with armed := false }) hset (by rw [live_setWatch, hlive])
        rw [if_pos hactive]
        refine ⟨hfresh, hcq', hepoch', ?_, fun fd' => ?_⟩
        · split_ifs
          · exact List.forall_mem_singleton.mpr hepoch
          · exact List.forall_mem_nil _
        · split_ifs
          · by_cases hfd : fd' = fd
            · rw [hfd, hcqe]
              exact List.count_le_length
            · have hcount : List.count fd' [fd] = 0 :=
                List.count_eq_zero.mpr fun hmem => hfd (List.mem_singleton.mp hmem)
              exact hcount.trans_le (Nat.zero_le _)
          · exact Nat.zero_le _
      · rw [if_neg hactive]
        exact ⟨hpop.quieter hquieter, hquieter.cq, hquieter.epoch, List.forall_mem_nil _,
          fun fd => Nat.zero_le _⟩

/-- **The loop**: with the live completions that are left, a descriptor has at most one event. -/
theorem Fresh.pollLoop (h : Fresh b) (o : ℕ → Submit) (maxEvents n : ℕ) (events : List PollEvent)
    (hcurrent : ∀ ev ∈ events, ev.Current b.epoch)
    (honce : ∀ fd, (events.filterMap PollEvent.fd).count fd +
      ((b.cq.take n).filterMap (Cqe.arms fd)).length ≤ 1) :
    Fresh (pollLoop o maxEvents n events b).2 ∧
      (∀ ev ∈ (pollLoop o maxEvents n events b).1, ev.Current b.epoch) ∧
      ∀ fd, ((pollLoop o maxEvents n events b).1.filterMap PollEvent.fd).count fd ≤ 1 := by
  have stop : Fresh b ∧ (∀ ev ∈ events, ev.Current b.epoch) ∧
      ∀ fd, (events.filterMap PollEvent.fd).count fd ≤ 1 :=
    ⟨h, hcurrent, fun fd => (Nat.le_add_right _ _).trans (honce fd)⟩
  induction n generalizing b events with
  | zero => exact stop
  | succ n ih =>
    rw [Wirecall.pollLoop]
    split_ifs with hroom
    · split
      · exact stop
      · rename_i cqe rest hcq
        obtain ⟨hfresh, hrest, hepoch, hnew, hcount⟩ := h.reap (o n) hcq
        have hcurrent' : ∀ ev ∈ events ++ (Wirecall.reap (o n) { b with cq := rest } cqe).1,
            ev.Current (Wirecall.reap (o n) { b with cq := rest } cqe).2.epoch := by
          rw [hepoch]
          exact List.forall_mem_append.mpr ⟨hcurrent, hnew⟩
        have honce' (fd : ℕ) : ((events ++ (Wirecall.reap (o n) { b with cq := rest } cqe).1).filterMap
            PollEvent.fd).count fd + (((Wirecall.reap (o n) { b with cq := rest } cqe).2.cq.take
              n).filterMap (Cqe.arms fd)).length ≤ 1 := by
          have hone := honce fd
          have hevents := hcount fd
          rw [hcq, List.take_succ_cons, ← List.singleton_append, List.filterMap_append,
            filterMap_singleton, List.length_append] at hone
          rw [List.filterMap_append, List.count_append, hrest]
          omega
        have hresult := ih hfresh _ hcurrent' honce' ⟨hfresh, hcurrent',
          fun fd => (Nat.le_add_right _ _).trans (honce' fd)⟩
        rw [hepoch] at hresult
        exact hresult
    · exact stop

/-- **A batch of fresh polls** has no stale event and none twice. -/
theorem Fresh.poll (h : Fresh b) (entered : Bool) (o : ℕ → Submit) (o' : Submit) (maxEvents : ℕ) :
    Fresh (backendPoll entered o o' maxEvents b).2 ∧
      (∀ ev ∈ (backendPoll entered o o' maxEvents b).1, ev.Current b.epoch) ∧
      ((backendPoll entered o o' maxEvents b).1.filterMap PollEvent.fd).Nodup := by
  unfold backendPoll
  split_ifs with hentered
  · have honce (fd : ℕ) : (List.filterMap PollEvent.fd []).count fd +
        ((b.cq.take b.cq.length).filterMap (Cqe.arms fd)).length ≤ 1 := by
      have hlive := h.once fd
      rw [Backend.live, List.length_append] at hlive
      rw [List.take_length, List.filterMap_nil, List.count_nil]
      omega
    obtain ⟨hfresh, hcurrent, hcount⟩ := h.pollLoop o maxEvents b.cq.length []
      (List.forall_mem_nil _) honce
    exact ⟨hfresh.quieter (.submitPending o' _), hcurrent, List.nodup_iff_count_le_one.mpr hcount⟩
  · exact ⟨h, List.forall_mem_nil _, List.nodup_nil⟩

end Loop

/-! ## Runs -/

/-- **Every step that leaves no earlier poll live keeps the polls fresh.** -/
theorem Fresh.step {b b' : Backend} {l : RingStep} (h : Fresh b) (hsettled : Settled b l)
    (hstep : b.step l = some b') : Fresh b' := by
  cases l with
  | register fd events user mem o o' =>
    cases hstep
    exact h.register hsettled
  | modify fd events user mem o o' =>
    cases hstep
    exact h.register hsettled
  | remove fd o =>
    cases hstep
    exact h.remove hsettled
  | poll maxEvents entered o o' =>
    cases hstep
    exact (h.poll entered o o' maxEvents).1
  | complete i res => exact h.complete hstep
  | completeRemoval res => exact h.completeRemoval hstep

theorem fresh_create (o : Submit) : Fresh (backendCreate o).2 := by
  have hzero : Fresh Backend.zero :=
    ⟨fun _ => Nat.zero_le _, fun _ => List.forall_mem_nil _, fun _ _ => rfl⟩
  exact hzero.quieter (.armWake o _ _)

/-- **No stale or duplicate readiness**: in every run whose calls leave no earlier poll of their
descriptor live, every event of a batch stems from a poll that was armed after the last call on its
descriptor, and no descriptor has two events in a batch. -/
theorem readiness_fresh {o₀ : Submit} {labels : List RingStep} {b : Backend}
    (hexec : Machine.exec Backend.step (backendCreate o₀).2 labels = some b)
    (hmeets : Machine.Meets Backend.step Settled (backendCreate o₀).2 labels)
    (entered : Bool) (o : ℕ → Submit) (o' : Submit) (maxEvents : ℕ) :
    (∀ ev ∈ (backendPoll entered o o' maxEvents b).1, ev.Current b.epoch) ∧
      ((backendPoll entered o o' maxEvents b).1.filterMap PollEvent.fd).Nodup := by
  have hfresh : Fresh b := Machine.exec_invariant (fun _ _ _ h hsettled hstep =>
    Fresh.step h hsettled hstep) (fresh_create o₀) hmeets hexec
  exact (hfresh.poll entered o o' maxEvents).2

/-- A kernel that takes every entry, with the poll its `POLL_REMOVE` catches. -/
def Submit.all (caught : Option ℕ) : Submit := ⟨some 1024, fun _ => caught⟩

/-- A descriptor is registered and its readiness changed; the first poll is caught, and the second
one is completed. -/
def modifyCaught : List RingStep :=
  [.register 5 backendRead 1 true (.all none) (.all none),
    .modify 5 backendWrite 2 true (.all (some 1)) (.all none), .complete 1 1, .complete 1 4]

/-- The batch has the event of the second poll. -/
theorem readiness_fresh_modified : ∃ b,
    Machine.exec Backend.step (backendCreate (.all none)).2 modifyCaught = some b ∧
      (backendPoll true (fun _ => .all none) (.all none) 16 b).1 = [.ready 5 backendWrite 2 2] ∧
      PollEvent.Current b.epoch (.ready 5 backendWrite 2 2) := by
  have hmeets : Machine.Meets Backend.step Settled (backendCreate (.all none)).2 modifyCaught := by
    decide +kernel
  have hrun : (Machine.exec Backend.step (backendCreate (.all none)).2 modifyCaught).any (fun b =>
      decide ((backendPoll true (fun _ => .all none) (.all none) 16 b).1 =
        [.ready 5 backendWrite 2 2])) = true := by
    decide +kernel
  obtain ⟨b, hexec, hb⟩ := Machine.exists_of_any hrun
  have hbatch := of_decide_eq_true hb
  refine ⟨b, hexec, hbatch, ?_⟩
  refine (readiness_fresh hexec hmeets true (fun _ => .all none) (.all none) 16).1 _ ?_
  rw [hbatch]
  exact List.mem_singleton.mpr rfl

/-- The first poll is completed before its `POLL_REMOVE`, and the second one as well. -/
def modifyLate : List RingStep :=
  [.register 5 backendRead 1 true (.all none) (.all none), .complete 1 1,
    .modify 5 backendRead 2 true (.all none) (.all none), .complete 1 1]

/-- **A batch with a stale event and two events for one descriptor.** -/
theorem stale_and_duplicate : ∃ b,
    Machine.exec Backend.step (backendCreate (.all none)).2 modifyLate = some b ∧
      (backendPoll true (fun _ => .all none) (.all none) 16 b).1 =
        [.ready 5 backendRead 2 1, .ready 5 backendRead 2 2] ∧ b.epoch 5 = 2 := by
  have hrun : (Machine.exec Backend.step (backendCreate (.all none)).2 modifyLate).any (fun b =>
      decide ((backendPoll true (fun _ => .all none) (.all none) 16 b).1 =
        [.ready 5 backendRead 2 1, .ready 5 backendRead 2 2] ∧ b.epoch 5 = 2)) = true := by
    decide +kernel
  obtain ⟨b, hexec, hb⟩ := Machine.exists_of_any hrun
  exact ⟨b, hexec, of_decide_eq_true hb⟩

end Wirecall

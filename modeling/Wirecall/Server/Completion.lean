import Wirecall.Server.Ledger

/-!
# Handles of deferred calls

A handler of a deferred route hands its call to other threads, which complete or fail it through
the handle, a pointer to the slot of the call. The guard against a second completion is a flag in
the slot. The flag survives the drain of the call, so a late completion is refused as long as the
slot rests on the free list. Once the slot is handed out again the flag is clear, and a late
completion of the old call completes the new one.

Here the loop runs beside threads that use any handle that was ever issued, at any time.

## Main definitions

* `Handle`: a slot, and the request its call was issued for
* `Threaded`, `Threaded.step`: the loop, and calls on handles
* `Worker.Keeps`: the slot was not handed out again
* `FirstWins`: what a call on a handle does

## Main results

* `HandleInv`, `handle_loopRule`: the flag of a slot agrees with the record, and every action of the
  loop keeps it so
* `deferred_first_wins`: in every run that uses handles only while their slots are kept, the first
  call on a handle takes effect and no other does
* `late_completion_takes_another`: a late call on a handle completes the call of another request
-/

namespace Wirecall

/-- A handle of a deferred call: its slot, and the request it was issued for. The source passes the
slot alone. -/
structure Handle where
  slot : ℕ
  request : Request
  deriving DecidableEq, Repr

/-- The handle of the call that a slot holds. -/
def Worker.handleAt (w : Worker) (d : ℕ) : Handle := ⟨d, (w.deferreds d).request⟩

/-- The slot of the handle was not handed out again. -/
def Worker.Keeps (w : Worker) (h : Handle) : Prop := (w.deferreds h.slot).request = h.request

instance (w : Worker) (h : Handle) : Decidable (w.Keeps h) :=
  inferInstanceAs (Decidable ((w.deferreds h.slot).request = h.request))

/-- `wirecall_deferred_complete` or `wirecall_deferred_fail`, with what it returns. -/
def deferredCall (w : Worker) (d : ℕ) : Completion → Rc × Worker
  | .complete response => deferredComplete w d response
  | .fail message => deferredFail w d message

theorem deferredCall_snd (w : Worker) (d : ℕ) (completion : Completion) :
    (deferredCall w d completion).2 = complete w d completion := by
  cases completion <;> rfl

theorem deferredCall_fst (w : Worker) (d : ℕ) (completion : Completion) :
    (deferredCall w d completion).1 = if (w.deferreds d).completed then .err else .ok := by
  cases completion with
  | complete response =>
    simp only [deferredCall, deferredComplete]
    split_ifs <;> rfl
  | fail message =>
    simp only [deferredCall, deferredFail]
    split_ifs <;> rfl

/-! ## The loop beside threads that use handles -/

/-- A worker in its loop, with the handles that were issued so far. -/
structure Threaded where
  loop : Loop
  handles : List Handle

/-- A step of the loop, or a call on a handle. -/
inductive HandleStep where
  | loop (l : Label)
  | call (h : Handle) (completion : Completion)

/-- The transitions: a call can be made on any handle that was ever issued. -/
def Threaded.step (cfg : ServerConfig) (env : ℕ → Env) (s : Threaded) : HandleStep → Option Threaded
  | .loop l => (s.loop.step cfg env l).map fun t =>
      ⟨t, s.handles ++ t.worker.undrained.map t.worker.handleAt⟩
  | .call h completion =>
    if h ∈ s.handles then
      some { s with loop := { s.loop with
        worker := (deferredCall s.loop.worker h.slot completion).2 } }
    else none

/-- A worker that starts its loop has issued no handle. -/
def Threaded.init : Threaded := ⟨Loop.init, []⟩

/-! ## The flag and the record -/

/-- The entries report no completion. -/
def NoCompletion (entries : List Entry) : Prop := ∀ request ok, .completion request ok ∉ entries

theorem NoCompletion.nil : NoCompletion [] := fun _ _ h => by cases h

theorem NoCompletion.append {entries entries' : List Entry} (h : NoCompletion entries)
    (h' : NoCompletion entries') : NoCompletion (entries ++ entries') := by
  intro request ok hmem
  rcases List.mem_append.mp hmem with hold | hnew
  · exact h request ok hold
  · exact h' request ok hnew

theorem OnlyFrees.noCompletion {entries : List Entry} (h : OnlyFrees entries) :
    NoCompletion entries := by
  cases h with
  | nothing => exact .nil
  | freed slot inst detached pointing => exact fun request ok h => by simp at h

theorem firstCompletion_eq_none {request : Request} {log : List Entry}
    (h : ∀ ok, .completion request ok ∉ log) : firstCompletion request log = none := by
  refine List.findSome?_eq_none_iff.mpr fun e he => ?_
  cases e with
  | completion request' ok =>
    refine if_neg ?_
    rintro rfl
    exact h ok he
  | _ => rfl

/-- **The flag of a slot agrees with the record**, for every handle of `H` whose slot is kept: it is
set if and only if the call was completed, the result is that of the first completion, and a call
that was not completed is undrained. -/
structure HandleInv (w : Worker) (H : Set Handle) : Prop where
  before : ∀ h ∈ H, h.request.tick < w.tick
  reported : ∀ request ok, .completion request ok ∈ w.log → request.tick < w.tick
  unique : ∀ h ∈ H, ∀ h' ∈ H, h.request = h'.request → h = h'
  issued : ∀ d ∈ w.undrained, w.handleAt d ∈ H
  waiting : ∀ h ∈ H, w.Keeps h → (w.deferreds h.slot).completed = false →
    h.slot ∈ w.undrained ∧ firstCompletion h.request w.log = none
  decided : ∀ h ∈ H, w.Keeps h → (w.deferreds h.slot).completed = true →
    ∃ ok, firstCompletion h.request w.log = some ok ∧
      ((w.deferreds h.slot).result = 0 ↔ ok = true)

section HandleInv

variable {cfg : ServerConfig} {env : ℕ → Env} {w w' : Worker} {H : Set Handle} {c d : ℕ}
  {entries : List Entry}

/-- Entries without a completion leave the first one of every request. -/
theorem firstCompletion_of_noCompletion (hlog : w'.log = w.log ++ entries)
    (hentries : NoCompletion entries) (request : Request) :
    firstCompletion request w'.log = firstCompletion request w.log := by
  rw [hlog, firstCompletion_append, firstCompletion_eq_none (hentries request), Option.or_none]

theorem HandleInv.reported_append (h : HandleInv w H) (hlog : w'.log = w.log ++ entries)
    (hentries : NoCompletion entries) (htick : w.tick ≤ w'.tick) :
    ∀ request ok, .completion request ok ∈ w'.log → request.tick < w'.tick := by
  intro request ok hmem
  rw [hlog] at hmem
  rcases List.mem_append.mp hmem with hold | hnew
  · exact (h.reported request ok hold).trans_le htick
  · exact absurd hnew (hentries request ok)

/-- An action that issues, completes and drains no call. -/
theorem HandleInv.frame (h : HandleInv w H) (hlog : w'.log = w.log ++ entries)
    (hentries : NoCompletion entries) (htick : w.tick ≤ w'.tick)
    (hundrained : w'.undrained = w.undrained) (hdeferreds : w'.deferreds = w.deferreds) :
    HandleInv w' H := by
  have hfirst := firstCompletion_of_noCompletion hlog hentries
  refine ⟨fun t ht => (h.before t ht).trans_le htick, h.reported_append hlog hentries htick,
    h.unique, ?_, ?_, ?_⟩
  · simp only [hundrained, Worker.handleAt, hdeferreds]
    exact h.issued
  · simp only [Worker.Keeps, hdeferreds, hundrained, hfirst]
    exact h.waiting
  · simp only [Worker.Keeps, hdeferreds, hfirst]
    exact h.decided

/-- **A slot is handed out again**: no handle that was issued is kept by it. -/
theorem HandleInv.overwrite {call : Deferred} (h : HandleInv w H) (hd : d ∉ w.undrained)
    (hnew : call.request.tick = w.tick) (hlog : w'.log = w.log ++ entries)
    (hentries : NoCompletion entries) (htick : w.tick ≤ w'.tick)
    (hundrained : w'.undrained = w.undrained)
    (hdeferreds : w'.deferreds = Function.update w.deferreds d call) : HandleInv w' H := by
  have hother {t : ℕ} (ht : t ≠ d) : w'.deferreds t = w.deferreds t := by
    rw [hdeferreds, Function.update_of_ne ht]
  -- the request of the new call is later than that of every handle
  have hkept {t : Handle} (ht : t ∈ H) (hkeeps : w'.Keeps t) : t.slot ≠ d := by
    intro hslot
    have hrequest : call.request = t.request := by
      rw [← hkeeps, hslot, hdeferreds, Function.update_self]
    exact (h.before t ht).ne (hrequest ▸ hnew)
  have hfirst := firstCompletion_of_noCompletion hlog hentries
  refine ⟨fun t ht => (h.before t ht).trans_le htick, h.reported_append hlog hentries htick,
    h.unique, ?_, ?_, ?_⟩
  · intro t ht
    rw [hundrained] at ht
    have hne : t ≠ d := fun htd => hd (htd ▸ ht)
    rw [Worker.handleAt, hother hne]
    exact h.issued t ht
  · intro t ht hkeeps
    have hne := hkept ht hkeeps
    rw [Worker.Keeps, hother hne] at hkeeps
    rw [hother hne, hfirst, hundrained]
    exact h.waiting t ht hkeeps
  · intro t ht hkeeps
    have hne := hkept ht hkeeps
    rw [Worker.Keeps, hother hne] at hkeeps
    rw [hother hne, hfirst]
    exact h.decided t ht hkeeps

/-- **A call is issued**, and its handle with it. -/
theorem HandleInv.issue (h : HandleInv w H) (call : Deferred) (hd : d ∉ w.undrained)
    (hnew : call.request.tick = w.tick) (hopen : call.completed = false)
    (hlog : w'.log = w.log ++ entries) (hentries : NoCompletion entries)
    (htick : w.tick < w'.tick) (hundrained : w'.undrained = w.undrained ++ [d])
    (hdeferreds : w'.deferreds = Function.update w.deferreds d call) :
    HandleInv w' (insert ⟨d, call.request⟩ H) := by
  have hslot : HandleInv { w' with undrained := w.undrained } H :=
    h.overwrite hd hnew hlog hentries htick.le rfl hdeferreds
  have hself : w'.deferreds d = call := by rw [hdeferreds, Function.update_self]
  have hnone : firstCompletion call.request w'.log = none := by
    rw [firstCompletion_of_noCompletion hlog hentries]
    refine firstCompletion_eq_none fun ok hmem => ?_
    exact (h.reported _ ok hmem).ne hnew
  have hmem (t : ℕ) : t ∈ w'.undrained ↔ t ∈ w.undrained ∨ t = d := by
    rw [hundrained, List.mem_append, List.mem_singleton]
  refine ⟨?_, hslot.reported, ?_, ?_, ?_, ?_⟩
  · rintro t (rfl | ht)
    · exact hnew.trans_lt htick
    · exact hslot.before t ht
  · rintro t (rfl | ht) t' (rfl | ht') hrequest
    · rfl
    · exact absurd (hrequest ▸ hnew) (h.before t' ht').ne
    · exact absurd (hrequest ▸ hnew) (h.before t ht).ne
    · exact h.unique t ht t' ht' hrequest
  · intro t ht
    rcases (hmem t).mp ht with hold | rfl
    · exact .inr (hslot.issued t hold)
    · rw [Worker.handleAt, hself]
      exact .inl rfl
  · rintro t (rfl | ht) hkeeps hwaiting
    · exact ⟨(hmem d).mpr (.inr rfl), hnone⟩
    · obtain ⟨hold, hfirst⟩ := hslot.waiting t ht hkeeps hwaiting
      exact ⟨(hmem t.slot).mpr (.inl hold), hfirst⟩
  · rintro t (rfl | ht) hkeeps hcompleted
    · rw [hself, hopen] at hcompleted
      cases hcompleted
    · exact hslot.decided t ht hkeeps hcompleted

/-- **A completion**, of any call whose handle was issued. -/
theorem HandleInv.complete (h : HandleInv w H) (hd : w.handleAt d ∈ H) (completion : Completion) :
    HandleInv (complete w d completion) H := by
  obtain ⟨entry, hentry⟩ :
    ∃ entry, entry = Entry.completion (w.deferreds d).request completion.isOk := ⟨_, rfl⟩
  have hreported : ∀ request ok, .completion request ok ∈ w.log ++ [entry] →
      request.tick < w.tick := by
    intro request ok hmem
    rcases List.mem_append.mp hmem with hold | hnew
    · exact h.reported request ok hold
    · rw [hentry, List.mem_singleton] at hnew
      cases hnew
      exact h.before _ hd
  -- a handle with another slot has another request, and its first completion is what it was
  have hother {t : Handle} (ht : t ∈ H) (hne : t.slot ≠ d) :
      firstCompletion t.request (w.log ++ [entry]) = firstCompletion t.request w.log := by
    rw [firstCompletion_append, hentry, firstCompletion_singleton, if_neg, Option.or_none]
    intro hrequest
    exact hne (congrArg Handle.slot (h.unique _ hd t ht hrequest)).symm
  have hkept {request : Request} {ok : Bool} (hfirst : firstCompletion request w.log = some ok) :
      firstCompletion request (w.log ++ [entry]) = some ok := by
    rw [firstCompletion_append, hfirst]
    rfl
  cases hdone : (w.deferreds d).completed with
  | true =>
    rw [complete_of_completed hdone, ← hentry]
    refine ⟨h.before, hreported, h.unique, h.issued, ?_, ?_⟩
    · intro t ht hkeeps hwaiting
      have hne : t.slot ≠ d := by
        rintro rfl
        exact absurd (hdone.symm.trans hwaiting) (by decide)
      obtain ⟨hundrained, hfirst⟩ := h.waiting t ht hkeeps hwaiting
      exact ⟨hundrained, (hother ht hne).trans hfirst⟩
    · intro t ht hkeeps hcompleted
      obtain ⟨ok, hfirst, hresult⟩ := h.decided t ht hkeeps hcompleted
      exact ⟨ok, hkept hfirst, hresult⟩
  | false =>
    obtain ⟨response, result, error, ⟨hresult, -, -⟩, heq⟩ := complete_of_open hdone completion
    rw [heq, ← hentry]
    obtain ⟨call, hcall⟩ : ∃ call, { w.deferreds d with
      completed := true, response := response, result := result, error := error } = call := ⟨_, rfl⟩
    rw [hcall]
    have hrequest : call.request = (w.deferreds d).request := by rw [← hcall]
    have hcompleted : call.completed = true := by rw [← hcall]
    have hok : call.result = 0 ↔ completion.isOk = true := by
      rw [← hcall]
      exact hresult
    have happly (t : ℕ) : Function.update w.deferreds d call t =
        if t = d then call else w.deferreds t := Function.update_apply _ _ _ _
    have hrequests (t : ℕ) : (Function.update w.deferreds d call t).request =
        (w.deferreds t).request := by
      rw [happly]
      split_ifs with htd
      · rw [htd, hrequest]
      · rfl
    refine ⟨h.before, hreported, h.unique, ?_, ?_, ?_⟩
    · intro t ht
      change Handle.mk t (Function.update w.deferreds d call t).request ∈ H
      rw [hrequests]
      exact h.issued t ht
    · intro t ht hkeeps hwaiting
      change (Function.update w.deferreds d call t.slot).request = _ at hkeeps
      change (Function.update w.deferreds d call t.slot).completed = _ at hwaiting
      rw [hrequests] at hkeeps
      rw [happly] at hwaiting
      split_ifs at hwaiting with htd
      · exact absurd (hcompleted.symm.trans hwaiting) (by decide)
      · obtain ⟨hundrained, hfirst⟩ := h.waiting t ht hkeeps hwaiting
        exact ⟨hundrained, (hother ht htd).trans hfirst⟩
    · intro t ht hkeeps hset
      change (Function.update w.deferreds d call t.slot).request = _ at hkeeps
      change (Function.update w.deferreds d call t.slot).completed = _ at hset
      rw [hrequests] at hkeeps
      rw [happly] at hset
      split_ifs at hset with htd
      · -- this is the call that was completed, for the first time
        have hkeeps' : (w.deferreds d).request = t.request := htd ▸ hkeeps
        obtain ⟨-, hfirst⟩ := h.waiting t ht hkeeps (htd ▸ hdone)
        change ∃ ok, firstCompletion t.request (w.log ++ [entry]) = some ok ∧
          ((Function.update w.deferreds d call t.slot).result = 0 ↔ ok = true)
        refine ⟨completion.isOk, ?_, ?_⟩
        · rw [firstCompletion_append, hfirst, hentry, firstCompletion_singleton, if_pos hkeeps']
          rfl
        · rw [happly, if_pos htd]
          exact hok
      · obtain ⟨ok, hfirst, hres⟩ := h.decided t ht hkeeps hset
        change ∃ ok, firstCompletion t.request (w.log ++ [entry]) = some ok ∧
          ((Function.update w.deferreds d call t.slot).result = 0 ↔ ok = true)
        rw [happly, if_neg htd]
        exact ⟨ok, hkept hfirst, hres⟩

/-- A drain forgets a call that is completed. -/
theorem HandleInv.drain (h : HandleInv w H) (hd : (w.deferreds d).completed = true)
    (hlog : w'.log = w.log ++ entries) (hentries : NoCompletion entries) (htick : w.tick ≤ w'.tick)
    (hundrained : w'.undrained = w.undrained.erase d) (hdeferreds : w'.deferreds = w.deferreds) :
    HandleInv w' H := by
  have hframe : HandleInv { w' with undrained := w.undrained } H :=
    h.frame hlog hentries htick rfl hdeferreds
  refine ⟨hframe.before, hframe.reported, hframe.unique, ?_, ?_, hframe.decided⟩
  · intro t ht
    rw [hundrained] at ht
    exact hframe.issued t (List.mem_of_mem_erase ht)
  · intro t ht hkeeps hwaiting
    obtain ⟨hold, hfirst⟩ := hframe.waiting t ht hkeeps hwaiting
    refine ⟨?_, hfirst⟩
    rw [hundrained]
    refine (List.mem_erase_of_ne ?_).mpr hold
    rintro rfl
    rw [hdeferreds] at hwaiting
    exact absurd (hd.symm.trans hwaiting) (by decide)

/-- Queueing a packet completes no call. -/
theorem HandleInv.queues (h : HandleInv w H) {request : Request} {op : Op} {procId callId : UInt64}
    {data : List UInt8} {result : Rc × Worker}
    (hqueues : Queues cfg w c request op procId callId data result) : HandleInv result.2 H := by
  obtain ⟨conns, writes, entries, failed, hentries, heq⟩ := hqueues.eq
  rw [heq]
  refine h.frame rfl ?_ le_rfl rfl rfl
  rcases hentries with rfl | rfl <;> exact fun request ok h => by simp at h

/-- **Handling a packet** may issue a call, which its handler may complete. -/
theorem HandleInv.handle {e : Env} {header : Header} {payload : List UInt8} {rc : Rc}
    {done : List ℕ} (h : HandleInv w H) (hdefer : DeferInv w done)
    (hhandles : Handles cfg e w c header payload (rc, w')) :
    ∃ H', H ⊆ H' ∧ HandleInv w' H' := by
  have hentry : NoCompletion
      [.dispatched (w.request c) header payload w.deferredArena.alloc.isSome] :=
    fun request ok h => by simp at h
  have hdispatching : HandleInv (w.dispatching c header payload) H :=
    h.frame rfl hentry (Nat.le_succ _) rfl rfl
  generalize hresult : (rc, w') = result at hhandles
  cases hhandles with
  | @replied w₁ _ _ _ _ _ hchurn hreply hqueues =>
    subst hresult
    have hchurned : HandleInv w₁ H := by
      cases hchurn with
      | none => exact hdispatching
      | deferred call halloc htick =>
        exact h.overwrite (hdefer.not_mem_undrained halloc) (Nat.succ.inj htick) rfl hentry
          (Nat.le_succ _) rfl rfl
      | call call halloc =>
        exact hdispatching.frame (List.append_nil _).symm .nil le_rfl rfl rfl
    exact ⟨H, subset_rfl, hchurned.queues hqueues⟩
  | @notStarted k arena call op procId callId data result halloc hreply hqueues =>
    cases hresult
    have htaken : HandleInv ((w.dispatching c header payload).takeCall k arena call) H :=
      hdispatching.frame (List.append_nil _).symm .nil le_rfl rfl rfl
    refine ⟨H, subset_rfl, ?_⟩
    exact (htaken.queues hqueues).frame (List.append_nil _).symm .nil le_rfl rfl rfl
  | disconnected hop =>
    cases hresult
    exact ⟨H, subset_rfl, hdispatching.frame (List.append_nil _).symm .nil le_rfl rfl rfl⟩
  | @issued d arena outcome hop halloc hsucceeds =>
    cases hresult
    refine ⟨_, Set.subset_insert ⟨d, w.request c⟩ H, ?_⟩
    have hissued : HandleInv (issueDeferred ((w.dispatching c header payload).takeDeferred d arena
        (newDeferred c (w.request c) header)) c d) (insert ⟨d, w.request c⟩ H) := by
      refine h.issue (newDeferred c (w.request c) header) (hdefer.not_mem_undrained halloc) rfl rfl
        rfl hentry ?_ rfl rfl
      exact Nat.lt_succ_self _
    -- the handler completes its own call, any number of times
    refine (runDeferred_rule (P := fun w' => HandleInv w' (insert ⟨d, w.request c⟩ H) ∧
      d ∈ w'.undrained) ?_ ⟨hissued, List.mem_append_right _ (List.mem_singleton_self d)⟩ outcome).1
    rintro w' completion ⟨hw', hd⟩
    refine ⟨hw'.complete (hw'.issued d hd) completion, ?_⟩
    rw [(complete_undrained w' d completion).1]
    exact hd
  | submitted call args hop hasync halloc hconn hrequest =>
    cases hresult
    exact ⟨H, subset_rfl, hdispatching.frame (List.append_nil _).symm .nil le_rfl rfl rfl⟩

theorem HandleInv.destroy (h : HandleInv w H) (c : ℕ) : HandleInv (connectionDestroy cfg w c) H := by
  obtain ⟨conns, arena, connections, writes, entries, hentries, heq⟩ := connectionDestroy_eq cfg w c
  rw [heq]
  exact h.frame rfl hentries.noCompletion le_rfl rfl rfl

theorem HandleInv.add (h : HandleInv w H) (fd : Int) :
    HandleInv (workerAddConnection cfg env w fd) H := by
  cases halloc : w.connectionArena.alloc with
  | none =>
    rw [workerAddConnection, halloc]
    exact h
  | some slot =>
    obtain ⟨c, arena⟩ := slot
    have hadded : HandleInv (w.added c arena fd) H :=
      h.frame (List.append_nil _).symm .nil (Nat.le_succ _) rfl rfl
    rw [workerAddConnection_eq halloc]
    split_ifs
    · exact hadded.frame (List.append_nil _).symm .nil le_rfl rfl rfl
    · exact hadded.destroy c

theorem HandleInv.drainOne (h : HandleInv w H) (hd : (w.deferreds d).completed = true) :
    HandleInv (drainOne cfg env w d) H := by
  obtain ⟨w₁, w₂, hw₁, hw₂, heq⟩ := drainOne_eq cfg env w d
  obtain ⟨op, hattempts⟩ := replyDeferred_attempts cfg (env w.tick).mem w d
  obtain ⟨conns, writes, entries, failed, hentries, hreplied⟩ := hattempts.eq
  rw [hw₁] at hreplied
  have hnone : NoCompletion entries := by
    rcases hentries with rfl | rfl <;> exact fun request ok h => by simp at h
  have hsettled : HandleInv w₂ H := by
    rw [← hw₂, hreplied]
    exact h.drain hd rfl hnone (Nat.le_succ _) rfl rfl
  rw [heq]
  split_ifs
  · exact hsettled.destroy _
  · exact hsettled

theorem HandleInv.resume {resume : Resume} (h : HandleInv w H)
    (hresume : resumeCall cfg env w resume = some w') : HandleInv w' H := by
  obtain ⟨k, rest, call, -, -, rfl | ⟨op, w₁, hattempts, rfl⟩⟩ := resumeCall_cases hresume
  · exact h.frame (List.append_nil _).symm .nil (Nat.le_succ _) rfl rfl
  · obtain ⟨conns, writes, entries, failed, hentries, rfl⟩ := hattempts.eq
    refine h.frame rfl ?_ (Nat.le_succ _) rfl rfl
    rcases hentries with rfl | rfl <;> exact fun request ok h => by simp at h

end HandleInv

/-- A worker whose flags agree with the record, for the handles of `H` and those issued since. -/
def Tracked (H : Set Handle) (m : Mid) : Prop := Inv m ∧ ∃ H', H ⊆ H' ∧ HandleInv m.worker H'

/-- **Every action of the loop keeps the flags in step with the record.** -/
theorem handle_loopRule (cfg : ServerConfig) (env : ℕ → Env) (T : ℕ → Prop) (K : Worker → Prop)
    (H : Set Handle) : LoopRule cfg env T (fun _ => True) K (Tracked H) := by
  have hinv := inv_loopRule cfg env T K
  have hquiet {w w' : Worker} (h : ∃ H', H ⊆ H' ∧ HandleInv w H') (hlog : w'.log = w.log)
      (htick : w.tick ≤ w'.tick) (hundrained : w'.undrained = w.undrained)
      (hdeferreds : w'.deferreds = w.deferreds) : ∃ H', H ⊆ H' ∧ HandleInv w' H' := by
    obtain ⟨H', hsub, hH'⟩ := h
    refine ⟨H', hsub, hH'.frame ?_ .nil htick hundrained hdeferreds⟩
    rw [hlog, List.append_nil]
  exact
    { isOpen := fun h hc => hinv.isOpen h.1 hc
      touch := fun readBuf readCap received closing ticks failed h hT hc =>
        ⟨hinv.touch _ _ _ _ _ _ h.1 hT hc, hquiet h.2 rfl (Nat.le_add_right _ _) rfl rfl⟩
      handle := fun h hT hc hvalid hhandles => by
        refine ⟨hinv.handle h.1 hT hc hvalid hhandles, ?_⟩
        obtain ⟨H', hsub, hH'⟩ := h.2
        obtain ⟨H'', hsub', hH''⟩ := hH'.handle h.1.defer hhandles
        exact ⟨H'', hsub.trans hsub', hH''⟩
      write := fun script h hT hc =>
        ⟨hinv.write script h.1 hT hc, hquiet h.2 rfl (Nat.le_succ _) rfl rfl⟩
      close := fun h hU hc hwrites hclosing hsent hfds => by
        refine ⟨hinv.close h.1 hU hc hwrites hclosing hsent hfds, ?_⟩
        obtain ⟨H', hsub, hH'⟩ := h.2
        exact ⟨H', hsub, hH'.destroy _⟩
      takeFds := fun h hK => ⟨hinv.takeFds h.1 hK, hquiet h.2 rfl le_rfl rfl rfl⟩
      add := fun h => by
        refine ⟨hinv.add h.1, ?_⟩
        obtain ⟨H', hsub, hH'⟩ := h.2
        exact ⟨H', hsub, hH'.add _⟩
      takeDone := fun h => ⟨hinv.takeDone h.1, hquiet h.2 rfl le_rfl rfl rfl⟩
      drain := fun {w d done} h => by
        have hd : (w.deferreds d).completed = true :=
          ((h.1.defer.mem_done d).mp (List.mem_append_right _ List.mem_cons_self)).2
        refine ⟨hinv.drain h.1, ?_⟩
        obtain ⟨H', hsub, hH'⟩ := h.2
        exact ⟨H', hsub, hH'.drainOne hd⟩
      accept := fun fds h => ⟨hinv.accept fds h.1, hquiet h.2 rfl le_rfl rfl rfl⟩
      closes := fun _ => trivial
      complete := fun {w d} completion h hd => by
        refine ⟨hinv.complete completion h.1 hd, ?_⟩
        obtain ⟨H', hsub, hH'⟩ := h.2
        exact ⟨H', hsub, hH'.complete (hH'.issued d hd) completion⟩
      resume := fun h hresume => by
        refine ⟨hinv.resume h.1 hresume, ?_⟩
        obtain ⟨H', hsub, hH'⟩ := h.2
        exact ⟨H', hsub, hH'.resume hresume⟩
      takeWrites := fun h => ⟨hinv.takeWrites h.1, hquiet h.2 rfl le_rfl rfl rfl⟩
      queued := fun h => hinv.queued h.1
      flush := fun script h => by
        refine ⟨hinv.flush script h.1, ?_⟩
        refine flushWrite_rule (P := fun w' => ∃ H', H ⊆ H' ∧ HandleInv w' H')
          (hquiet h.2 rfl le_rfl rfl rfl) ?_
        exact fun w' hw' _ => hquiet hw' rfl (Nat.le_succ _) rfl rfl }

/-! ## Runs -/

/-- **What a call on a handle does**: if none was made before it returns `0`, sets the flag and the
result of the call and queues it; otherwise it returns `-1` and changes no call. Of the calls made
so far, those of the handler itself among them, the flag and the result show the first. -/
structure FirstWins (w : Worker) (h : Handle) (completion : Completion) : Prop where
  flag : (w.deferreds h.slot).completed = (firstCompletion h.request w.log).isSome
  result : ∀ ok, firstCompletion h.request w.log = some ok →
    ((w.deferreds h.slot).result = 0 ↔ ok = true)
  first : firstCompletion h.request w.log = none →
    (deferredCall w h.slot completion).1 = .ok ∧
    (deferredCall w h.slot completion).2.completed = w.completed ++ [h.slot] ∧
    ∃ call, call.completed = true ∧ (call.result = 0 ↔ completion.isOk = true) ∧
      (deferredCall w h.slot completion).2.deferreds = Function.update w.deferreds h.slot call
  later : firstCompletion h.request w.log ≠ none →
    (deferredCall w h.slot completion).1 = .err ∧
    (deferredCall w h.slot completion).2.completed = w.completed ∧
    (deferredCall w h.slot completion).2.deferreds = w.deferreds

theorem HandleInv.firstWins {w : Worker} {H : Set Handle} {h : Handle} (hH : HandleInv w H)
    (hh : h ∈ H) (hkeeps : w.Keeps h) (completion : Completion) : FirstWins w h completion := by
  cases hdone : (w.deferreds h.slot).completed with
  | true =>
    obtain ⟨ok, hfirst, hresult⟩ := hH.decided h hh hkeeps hdone
    refine ⟨by rw [hdone, hfirst]; rfl, fun ok' hok' => ?_, fun hnone => ?_, fun _ => ?_⟩
    · obtain rfl : ok = ok' := Option.some.inj (hfirst.symm.trans hok')
      exact hresult
    · rw [hnone] at hfirst
      cases hfirst
    · rw [deferredCall_fst, deferredCall_snd, complete_of_completed hdone, hdone]
      exact ⟨rfl, rfl, rfl⟩
  | false =>
    obtain ⟨-, hfirst⟩ := hH.waiting h hh hkeeps hdone
    obtain ⟨response, result, error, ⟨hresult, -, -⟩, heq⟩ := complete_of_open hdone completion
    refine ⟨by rw [hdone, hfirst]; rfl, fun ok hok => ?_, fun _ => ?_,
      fun hsome => absurd hfirst hsome⟩
    · rw [hfirst] at hok
      cases hok
    rw [deferredCall_fst, deferredCall_snd, heq, hdone]
    exact ⟨rfl, rfl, _, rfl, hresult, rfl⟩

/-- What a run has to keep: events are for allocated slots, and a call is made on a handle only
while its slot was not handed out again. -/
def Unrecycled (s : Threaded) : HandleStep → Prop
  | .loop l => Allocated s.loop l
  | .call h _ => s.loop.worker.Keeps h

instance (s : Threaded) : DecidablePred (Unrecycled s)
  | .loop l => inferInstanceAs (Decidable (Allocated s.loop l))
  | .call h _ => inferInstanceAs (Decidable (s.loop.worker.Keeps h))

/-- What holds all along such a run. -/
structure Coherent (s : Threaded) : Prop where
  inv : Inv s.loop.worker.mid
  marked : s.loop.worker.Marked
  handles : HandleInv s.loop.worker {h | h ∈ s.handles}

theorem Coherent.step {cfg : ServerConfig} {env : ℕ → Env} {s s' : Threaded} {l : HandleStep}
    (h : Coherent s) (hkeeps : Unrecycled s l) (hstep : s.step cfg env l = some s') :
    Coherent s' := by
  cases l with
  | loop l =>
    obtain ⟨t, ht, rfl⟩ := Option.map_eq_some_iff.mp hstep
    obtain ⟨⟨-, H', hsub, hH'⟩, hinv, hmarked⟩ :=
      (handle_loopRule cfg env (fun _ => True) (fun _ => True) {h | h ∈ s.handles}).stepFrom
        (fun _ _ _ => trivial) ⟨h.inv, _, subset_rfl, h.handles⟩ h.inv h.marked hkeeps
        (.of_forall (fun _ => trivial) s.loop l) ht
    refine ⟨hinv, hmarked, ?_⟩
    -- the handles on record are those there were, and those of the undrained calls
    have hmem : ∀ t' ∈ s.handles ++ t.worker.undrained.map t.worker.handleAt, t' ∈ H' := by
      intro t' ht'
      rcases List.mem_append.mp ht' with hold | hnew
      · exact hsub hold
      · obtain ⟨d, hd, rfl⟩ := List.mem_map.mp hnew
        exact hH'.issued d hd
    refine ⟨fun t' ht' => hH'.before t' (hmem t' ht'), hH'.reported,
      fun t' ht' t'' ht'' => hH'.unique t' (hmem t' ht') t'' (hmem t'' ht''), ?_,
      fun t' ht' => hH'.waiting t' (hmem t' ht'), fun t' ht' => hH'.decided t' (hmem t' ht')⟩
    exact fun d hd => List.mem_append_right _ (List.mem_map_of_mem hd)
  | call handle completion =>
    simp only [Threaded.step] at hstep
    split_ifs at hstep with hissued
    cases hstep
    rw [deferredCall_snd]
    have hat : s.loop.worker.handleAt handle.slot = handle := by
      rw [Worker.handleAt, show (s.loop.worker.deferreds handle.slot).request = _ from hkeeps]
    have hH : HandleInv (complete s.loop.worker handle.slot completion) {h | h ∈ s.handles} :=
      h.handles.complete (hat.symm ▸ hissued) completion
    refine ⟨?_, ?_, hH⟩
    · -- a call that is not completed is undrained; another completion changes the record only
      cases hdone : (s.loop.worker.deferreds handle.slot).completed with
      | true =>
        rw [complete_of_completed hdone]
        exact h.inv.logEntry rfl
      | false =>
        obtain ⟨hd, -⟩ := h.handles.waiting handle hissued hkeeps hdone
        exact h.inv.complete hd completion
    · obtain ⟨deferreds, completed, log, heq⟩ := complete_eq s.loop.worker handle.slot completion
      rw [heq]
      exact h.marked

/-- **The first call on a handle wins**: in every run in which a call is made on a handle only while
its slot was not handed out again, before or after the drain of its call, the first call on it takes
effect and returns `0`, and every other returns `-1` and changes no deferred call. -/
theorem deferred_first_wins (cfg : ServerConfig) {env : ℕ → Env} {steps : List HandleStep}
    {s : Threaded} (hkept : Machine.Meets (Threaded.step cfg env) Unrecycled Threaded.init steps)
    (hrun : Machine.exec (Threaded.step cfg env) Threaded.init steps = some s) {h : Handle}
    (hissued : h ∈ s.handles) (hkeeps : s.loop.worker.Keeps h) (completion : Completion) :
    FirstWins s.loop.worker h completion := by
  have hinit : Coherent Threaded.init := by
    refine ⟨inv_workerInit, fun c hlive => absurd hlive (Arena.not_live_init _ _), ?_⟩
    exact ⟨(fun _ h => by cases h), (fun _ _ h => by cases h), (fun _ h => by cases h),
      (fun _ h => by cases h), (fun _ h => by cases h), fun _ h => by cases h⟩
  have hcoherent : Coherent s :=
    Machine.exec_invariant (fun _ _ _ h hkeeps hstep => h.step hkeeps hstep) hinit hkept hrun
  exact hcoherent.handles.firstWins hissued hkeeps completion

/-- A call of a deferred procedure arrives. -/
def calling (callId : UInt8) : List HandleStep :=
  [.loop (.poll [.conn 0 ⟨true, false⟩]), .loop (.event [.data (callBytes callId)] []),
    .loop .schedule]

/-- The iteration ends: completed calls are drained and answered. -/
def draining : HandleStep := .loop (.finish fun _ => [.sent 100])

/-- A handle is used before and after its call is drained. -/
theorem deferred_first_wins_drained :
    let steps := (connecting 3).map .loop ++ calling 7 ++
      [.call ⟨0, ⟨0, 2⟩⟩ (.complete ⟨[], Nat.zero_le _⟩), draining, .call ⟨0, ⟨0, 2⟩⟩ (.fail none)]
    ∃ s, Machine.exec (Threaded.step .plain fun _ => deferringEnv) Threaded.init steps = some s ∧
      s.loop.worker.undrained = [] ∧ FirstWins s.loop.worker ⟨0, ⟨0, 2⟩⟩ (.fail none) := by
  intro steps
  have hrun : (Machine.exec (Threaded.step .plain fun _ => deferringEnv) Threaded.init steps).any
      (fun s => decide (s.loop.worker.undrained = [] ∧ ⟨0, ⟨0, 2⟩⟩ ∈ s.handles ∧
        s.loop.worker.Keeps ⟨0, ⟨0, 2⟩⟩)) = true := by decide +kernel
  obtain ⟨s, hs, hfacts⟩ := Machine.exists_of_any hrun
  obtain ⟨hundrained, hissued, hkeeps⟩ := of_decide_eq_true hfacts
  exact ⟨s, hs, hundrained, deferred_first_wins .plain (by decide +kernel) hs hissued hkeeps _⟩

/-- **A late completion takes another call**: the call of request `7` is completed, answered and
drained, and its slot is handed to the call of request `8`. A second completion through the handle
of the first call returns `0`, and sets the flag and the result of the other one. -/
theorem late_completion_takes_another :
    let steps := (connecting 3).map .loop ++ calling 7 ++
      [.call ⟨0, ⟨0, 2⟩⟩ (.complete ⟨[], Nat.zero_le _⟩), draining] ++ calling 8
    ∃ s, Machine.exec (Threaded.step .plain fun _ => deferringEnv) Threaded.init steps = some s ∧
      ⟨0, ⟨0, 2⟩⟩ ∈ s.handles ∧ firstCompletion ⟨0, 2⟩ s.loop.worker.log = some true ∧
      repliesOf 0 s.loop.worker.log = [7] ∧ (s.loop.worker.deferreds 0).callId = 8 ∧
      (s.loop.worker.deferreds 0).completed = false ∧
      (deferredCall s.loop.worker 0 (.fail none)).1 = .ok ∧
      ((deferredCall s.loop.worker 0 (.fail none)).2.deferreds 0).completed = true ∧
      ((deferredCall s.loop.worker 0 (.fail none)).2.deferreds 0).result = -1 ∧
      (deferredCall s.loop.worker 0 (.fail none)).2.completed = [0] := by
  intro steps
  have hrun : (Machine.exec (Threaded.step .plain fun _ => deferringEnv) Threaded.init steps).any
      (fun s => decide (⟨0, ⟨0, 2⟩⟩ ∈ s.handles ∧
        firstCompletion ⟨0, 2⟩ s.loop.worker.log = some true ∧
        repliesOf 0 s.loop.worker.log = [7] ∧ (s.loop.worker.deferreds 0).callId = 8 ∧
        (s.loop.worker.deferreds 0).completed = false ∧
        (deferredCall s.loop.worker 0 (.fail none)).1 = .ok ∧
        ((deferredCall s.loop.worker 0 (.fail none)).2.deferreds 0).completed = true ∧
        ((deferredCall s.loop.worker 0 (.fail none)).2.deferreds 0).result = -1 ∧
        (deferredCall s.loop.worker 0 (.fail none)).2.completed = [0])) = true := by
    decide +kernel
  obtain ⟨s, hs, hfacts⟩ := Machine.exists_of_any hrun
  exact ⟨s, hs, of_decide_eq_true hfacts⟩

end Wirecall

import Wirecall.Server.Runs

/-!
# One reply for each request

A request is answered while its packet is handled, or it becomes a deferred call that is answered
when it is drained. The record of a worker is a ledger of this: on every connection that is not to
be closed, the replies queued so far and the calls that are still undrained are, call id by call
id, the requests dispatched so far. A reply to a call is a response exactly if the call succeeded,
and a deferred call succeeds by its first completion, whatever the later ones say.

## Main definitions

* `requestsOf`, `repliesOf`, `Worker.undrainedOf`: the three columns of the ledger
* `firstCompletion`: the completion that decides a deferred call
* `LogOk`, `CallsOk`, `Worker.Balanced`: what holds of the record, of the undrained calls, and of
  the columns
* `Ledger`: all of it, in terms of the record

## Main results

* `ledger_loopRule`: every action of the loop keeps the ledger
* `one_reply_per_request`: the ledger of every run without async calls in which events are for
  connections that are allocated
* `reply_without_request`: with two events for a connection that the first of them closes, the
  columns differ
-/

namespace Wirecall

open scoped List

/-! ## The columns -/

/-- The packet asks for a reply: it is an RPC, a PING, a RESPONSE or an ERROR. -/
def Header.Asks (header : Header) : Prop :=
  header.op = Op.rpc.code ∨ header.op = Op.ping.code ∨ header.op = Op.response.code ∨
    header.op = Op.error.code

instance (header : Header) : Decidable header.Asks := inferInstanceAs (Decidable (_ ∨ _))

/-- Of the operations a decoded header can have, DISCONNECT is the one without a reply. -/
theorem Header.asks_iff {header : Header} (hvalid : validOp header.op = true) :
    header.Asks ↔ header.op ≠ Op.disconnect.code := by
  simp only [validOp, Bool.or_eq_true, beq_iff_eq] at hvalid
  constructor
  · rintro (h | h | h | h) <;> rw [h] <;> decide
  · intro hne
    rcases hvalid with (((h | h) | h) | h) | h
    · exact .inl h
    · exact .inr (.inl h)
    · exact absurd h hne
    · exact .inr (.inr (.inl h))
    · exact .inr (.inr (.inr h))

/-- The call ids of the requests dispatched from a connection. -/
def requestsOf (inst : ℕ) (log : List Entry) : List UInt64 :=
  log.filterMap fun
    | .dispatched request header _ _ =>
      if request.inst = inst ∧ header.Asks then some header.callId else none
    | _ => none

/-- The call ids of the replies queued on a connection. -/
def repliesOf (inst : ℕ) (log : List Entry) : List UInt64 :=
  log.filterMap fun
    | .reply target _ _ _ callId => if target = inst then some callId else none
    | _ => none

/-- The call ids of the undrained deferred calls of a connection. -/
def Worker.undrainedOf (w : Worker) (c : ℕ) : List UInt64 :=
  (w.undrained.filter fun d => (w.deferreds d).conn = c).map fun d => (w.deferreds d).callId

/-- What the first completion of a deferred call reports. -/
def firstCompletion (request : Request) (log : List Entry) : Option Bool :=
  log.findSome? fun
    | .completion request' ok => if request' = request then some ok else none
    | _ => none

theorem requestsOf_append (inst : ℕ) (log entries : List Entry) :
    requestsOf inst (log ++ entries) = requestsOf inst log ++ requestsOf inst entries :=
  List.filterMap_append

theorem repliesOf_append (inst : ℕ) (log entries : List Entry) :
    repliesOf inst (log ++ entries) = repliesOf inst log ++ repliesOf inst entries :=
  List.filterMap_append

theorem firstCompletion_append (request : Request) (log entries : List Entry) :
    firstCompletion request (log ++ entries) =
      (firstCompletion request log).or (firstCompletion request entries) :=
  List.findSome?_append

theorem firstCompletion_singleton (request request' : Request) (ok : Bool) :
    firstCompletion request [.completion request' ok] =
      if request' = request then some ok else none := by
  simp only [firstCompletion, List.findSome?_cons, List.findSome?_nil]
  split_ifs <;> rfl

/-! ## The record -/

/-- An entry speaks of dispatches before `tick` and of connections before `next`. -/
def Entry.Before (tick next : ℕ) : Entry → Prop
  | .dispatched request _ _ _ => request.tick < tick ∧ request.inst < next
  | .reply target _ _ _ _ => target < next
  | .completion request _ => request.tick < tick
  | .freed _ _ _ _ => True

theorem Entry.Before.mono {tick tick' next next' : ℕ} {e : Entry} (h : e.Before tick next)
    (htick : tick ≤ tick') (hnext : next ≤ next') : e.Before tick' next' := by
  cases e with
  | dispatched request header payload slotFree => exact ⟨h.1.trans_le htick, h.2.trans_le hnext⟩
  | reply target request op procId callId => exact Nat.lt_of_lt_of_le h hnext
  | completion request ok => exact Nat.lt_of_lt_of_le h htick
  | freed slot inst detached pointing => trivial

/-- The kind of a reply is decided: whatever completions may follow, or by the first completion,
which is on record. -/
def Decided (env : Env) (log : List Entry) (request : Request) (header : Header)
    (payload : List UInt8) (slotFree : Bool) (op : Op) : Prop :=
  (∀ first, op = .response ↔ CallSucceeds env header payload slotFree first) ∨
    ∃ ok, firstCompletion request log = some ok ∧
      (op = .response ↔ CallSucceeds env header payload slotFree (some ok))

/-- A reply on record goes to the connection of its request, which is on record too, and carries
what the request asks for. -/
structure Justified (env : ℕ → Env) (log : List Entry) (target : ℕ) (request : Request) (op : Op)
    (procId callId : UInt64) : Prop where
  target_eq : target = request.inst
  op_eq : op = .response ∨ op = .error
  source : ∃ header payload slotFree, .dispatched request header payload slotFree ∈ log ∧
    callId = header.callId ∧ (header.op = Op.rpc.code → procId = header.procId ∧
      Decided (env request.tick) log request header payload slotFree op)

/-- An undrained call was issued for a dispatched RPC, and knows its first completion. -/
structure Awaited (env : ℕ → Env) (log : List Entry) (call : Deferred) : Prop where
  source : ∃ header payload slotFree, .dispatched call.request header payload slotFree ∈ log ∧
    header.op = Op.rpc.code ∧ call.callId = header.callId ∧ call.procId = header.procId ∧
    ∀ first, CallSucceeds (env call.request.tick) header payload slotFree first ↔
      first = some true
  waiting : call.completed = false → firstCompletion call.request log = none
  decided : call.completed = true →
    firstCompletion call.request log = some (decide (call.result = 0))
  response_le : call.response.length ≤ maxPayloadSize
  error_le : call.error.length ≤ 1000

/-- **The record**: requests are told apart by their number, and every reply is justified. -/
structure LogOk (env : ℕ → Env) (log : List Entry) (tick next : ℕ) : Prop where
  before : ∀ e ∈ log, e.Before tick next
  unique : ∀ {request header payload slotFree header' payload' slotFree'},
    .dispatched request header payload slotFree ∈ log →
    .dispatched request header' payload' slotFree' ∈ log →
    header' = header ∧ payload' = payload ∧ slotFree' = slotFree
  replies : ∀ {target request op procId callId}, .reply target request op procId callId ∈ log →
    Justified env log target request op procId callId

/-- **The undrained calls**: each is awaited, and no two have the same request. -/
structure CallsOk (env : ℕ → Env) (w : Worker) : Prop where
  awaited : ∀ d ∈ w.undrained, Awaited env w.log (w.deferreds d)
  distinct : ∀ d ∈ w.undrained, ∀ d' ∈ w.undrained,
    (w.deferreds d).request = (w.deferreds d').request → d = d'

/-- **The columns agree** for a connection. -/
def Worker.BalancedAt (w : Worker) (c : ℕ) : Prop :=
  (repliesOf (w.conns c).inst w.log ++ w.undrainedOf c).Perm (requestsOf (w.conns c).inst w.log)

/-- The columns agree for every connection that is not to be closed. -/
def Worker.Balanced (w : Worker) : Prop :=
  ∀ c ∈ w.connections, (w.conns c).closing = false → w.BalancedAt c

/-- What holds of a worker as long as no buffer for a reply was refused. -/
structure LedgerInv (env : ℕ → Env) (w : Worker) : Prop where
  log : LogOk env w.log w.tick w.nextInst
  calls : CallsOk env w
  balanced : w.Balanced

section Record

variable {env : ℕ → Env} {log entries : List Entry} {tick next : ℕ} {request : Request}

theorem Justified.append {target : ℕ} {op : Op} {procId callId : UInt64}
    (h : Justified env log target request op procId callId) (entries : List Entry) :
    Justified env (log ++ entries) target request op procId callId := by
  refine ⟨h.target_eq, h.op_eq, ?_⟩
  obtain ⟨header, payload, slotFree, hmem, hcall, hrpc⟩ := h.source
  refine ⟨header, payload, slotFree, List.mem_append_left _ hmem, hcall, fun hop => ?_⟩
  obtain ⟨hproc, hdecided⟩ := hrpc hop
  refine ⟨hproc, hdecided.imp_right ?_⟩
  -- a first completion that is on record stays the first
  rintro ⟨ok, hfirst, hiff⟩
  exact ⟨ok, by rw [firstCompletion_append, hfirst]; rfl, hiff⟩

theorem Awaited.append {call : Deferred} (h : Awaited env log call)
    (hentries : firstCompletion call.request entries = none) :
    Awaited env (log ++ entries) call := by
  have hfirst : firstCompletion call.request (log ++ entries) = firstCompletion call.request log := by
    rw [firstCompletion_append, hentries, Option.or_none]
  obtain ⟨header, payload, slotFree, hmem, hrest⟩ := h.source
  refine ⟨⟨header, payload, slotFree, List.mem_append_left _ hmem, hrest⟩, ?_, ?_, h.response_le,
    h.error_le⟩
  · rw [hfirst]
    exact h.waiting
  · rw [hfirst]
    exact h.decided

/-- A further completion of a call that is completed. -/
theorem Awaited.append_of_completed {call : Deferred} (h : Awaited env log call)
    (hcompleted : call.completed = true) (entries : List Entry) :
    Awaited env (log ++ entries) call := by
  obtain ⟨header, payload, slotFree, hmem, hrest⟩ := h.source
  refine ⟨⟨header, payload, slotFree, List.mem_append_left _ hmem, hrest⟩, ?_, ?_, h.response_le,
    h.error_le⟩
  · intro hopen
    exact absurd (hcompleted.symm.trans hopen) (by decide)
  · intro _
    rw [firstCompletion_append, h.decided hcompleted]
    rfl

theorem LogOk.mono {tick' next' : ℕ} (h : LogOk env log tick next) (htick : tick ≤ tick')
    (hnext : next ≤ next') : LogOk env log tick' next' :=
  ⟨fun e he => (h.before e he).mono htick hnext, h.unique, h.replies⟩

/-- The record grows by an entry that is no dispatch. -/
theorem LogOk.append_entry {e : Entry} (h : LogOk env log tick next) (hbefore : e.Before tick next)
    (hdispatch : ∀ request header payload slotFree, e ≠ .dispatched request header payload slotFree)
    (hreply : ∀ target request op procId callId, e = .reply target request op procId callId →
      Justified env log target request op procId callId) :
    LogOk env (log ++ [e]) tick next := by
  have hmem {e' : Entry} (he' : e' ∈ log ++ [e]) : e' ∈ log ∨ e' = e := by simpa using he'
  refine ⟨?_, ?_, ?_⟩
  · intro e' he'
    rcases hmem he' with he' | rfl
    · exact h.before e' he'
    · exact hbefore
  · intro request header payload slotFree header' payload' slotFree' h₁ h₂
    have hold₁ := (hmem h₁).resolve_right fun he => hdispatch _ _ _ _ he.symm
    have hold₂ := (hmem h₂).resolve_right fun he => hdispatch _ _ _ _ he.symm
    exact h.unique hold₁ hold₂
  · intro target request op procId callId hr
    rcases hmem hr with hr | hr
    · exact (h.replies hr).append _
    · exact (hreply _ _ _ _ _ hr.symm).append _

/-- The record grows by a dispatch, which gets the next number. -/
theorem LogOk.append_dispatched (h : LogOk env log tick next) {inst : ℕ} (hinst : inst < next)
    (header : Header) (payload : List UInt8) (slotFree : Bool) :
    LogOk env (log ++ [.dispatched ⟨inst, tick⟩ header payload slotFree]) (tick + 1) next := by
  have hnew {header' payload' slotFree'} :
      .dispatched ⟨inst, tick⟩ header' payload' slotFree' ∉ log :=
    fun hmem => lt_irrefl _ (h.before _ hmem).1
  refine ⟨?_, ?_, ?_⟩
  · intro e he
    rcases List.mem_append.mp he with he | he
    · exact (h.before e he).mono (Nat.le_succ _) le_rfl
    · rw [List.mem_singleton.mp he]
      exact ⟨Nat.lt_succ_self _, hinst⟩
  · intro request header₁ payload₁ slotFree₁ header₂ payload₂ slotFree₂ h₁ h₂
    rcases List.mem_append.mp h₁ with h₁ | h₁ <;> rcases List.mem_append.mp h₂ with h₂ | h₂
    · exact h.unique h₁ h₂
    · cases List.mem_singleton.mp h₂
      exact absurd h₁ hnew
    · cases List.mem_singleton.mp h₁
      exact absurd h₂ hnew
    · cases List.mem_singleton.mp h₁
      cases List.mem_singleton.mp h₂
      exact ⟨rfl, rfl, rfl⟩
  · intro target request op procId callId hr
    rcases List.mem_append.mp hr with hr | hr
    · exact (h.replies hr).append _
    · cases List.mem_singleton.mp hr

/-- A request that is yet to be numbered has no completion. -/
theorem LogOk.firstCompletion_eq_none (h : LogOk env log tick next) (htick : tick ≤ request.tick) :
    firstCompletion request log = none := by
  refine List.findSome?_eq_none_iff.mpr fun e he => ?_
  cases e with
  | completion request' ok =>
    refine if_neg ?_
    rintro rfl
    have hlt : request'.tick < tick := h.before _ he
    omega
  | _ => rfl

end Record

/-! ## What keeps the columns -/

section Columns

variable {env : ℕ → Env} {w w' : Worker} {c : ℕ} {entries : List Entry}

theorem Worker.undrainedOf_congr (hundrained : w'.undrained = w.undrained)
    (hdeferreds : ∀ d ∈ w.undrained, (w'.deferreds d).conn = (w.deferreds d).conn ∧
      (w'.deferreds d).callId = (w.deferreds d).callId) (c : ℕ) :
    w'.undrainedOf c = w.undrainedOf c := by
  unfold Worker.undrainedOf
  rw [hundrained]
  have hfilter : (w.undrained.filter fun d => (w'.deferreds d).conn = c) =
      w.undrained.filter fun d => (w.deferreds d).conn = c :=
    List.filter_congr fun d hd => by rw [(hdeferreds d hd).1]
  rw [hfilter]
  exact List.map_congr_left fun d hd => (hdeferreds d (List.mem_of_mem_filter hd)).2

/-- **The columns change together**: what is new on the left is new on the right. -/
theorem Worker.BalancedAt.step (h : w.BalancedAt c) (hinst : (w'.conns c).inst = (w.conns c).inst)
    (hlog : w'.log = w.log ++ entries)
    (hnew : (repliesOf (w.conns c).inst entries ++ w'.undrainedOf c).Perm
      (requestsOf (w.conns c).inst entries ++ w.undrainedOf c)) : w'.BalancedAt c := by
  unfold Worker.BalancedAt
  rw [hinst, hlog, repliesOf_append, requestsOf_append, List.append_assoc]
  calc
    _ ~ repliesOf (w.conns c).inst w.log ++
        (requestsOf (w.conns c).inst entries ++ w.undrainedOf c) := hnew.append_left _
    _ ~ repliesOf (w.conns c).inst w.log ++
        (w.undrainedOf c ++ requestsOf (w.conns c).inst entries) :=
      List.perm_append_comm.append_left _
    _ ~ requestsOf (w.conns c).inst w.log ++ requestsOf (w.conns c).inst entries := by
      rw [← List.append_assoc]
      exact h.append_right _

/-- Entries about other connections and calls of others leave the columns alone. -/
theorem Worker.BalancedAt.frame (h : w.BalancedAt c)
    (hinst : (w'.conns c).inst = (w.conns c).inst) (hlog : w'.log = w.log ++ entries)
    (hreplies : repliesOf (w.conns c).inst entries = [])
    (hrequests : requestsOf (w.conns c).inst entries = [])
    (hundrained : w'.undrainedOf c = w.undrainedOf c) : w'.BalancedAt c := by
  refine h.step hinst hlog ?_
  rw [hreplies, hrequests, hundrained]

/-- Calls that are neither issued, completed nor drained are awaited as before. -/
theorem CallsOk.frame (h : CallsOk env w) (hlog : w'.log = w.log ++ entries)
    (hentries : ∀ request, firstCompletion request entries = none)
    (hundrained : w'.undrained = w.undrained)
    (hdeferreds : ∀ d ∈ w.undrained, w'.deferreds d = w.deferreds d) : CallsOk env w' := by
  refine ⟨?_, ?_⟩
  · intro d hd
    rw [hundrained] at hd
    rw [hlog, hdeferreds d hd]
    exact (h.awaited d hd).append (hentries _)
  · intro d hd d' hd'
    rw [hundrained] at hd hd'
    rw [hdeferreds d hd, hdeferreds d' hd']
    exact h.distinct d hd d' hd'

theorem OnlyFrees.columns (h : OnlyFrees entries) (inst : ℕ) (request : Request) :
    repliesOf inst entries = [] ∧ requestsOf inst entries = [] ∧
      firstCompletion request entries = none := by
  cases h <;> exact ⟨rfl, rfl, rfl⟩

/-- **An action that dispatches, answers and completes nothing.** -/
theorem LedgerInv.quiet (h : LedgerInv env w) (hlog : w'.log = w.log ++ entries)
    (hentries : OnlyFrees entries) (htick : w.tick ≤ w'.tick) (hnext : w.nextInst ≤ w'.nextInst)
    (hundrained : w'.undrained = w.undrained)
    (hdeferreds : ∀ d ∈ w.undrained, w'.deferreds d = w.deferreds d)
    (hconns : ∀ c ∈ w'.connections, (w'.conns c).closing = false → w'.BalancedAt c ∨
      (c ∈ w.connections ∧ (w.conns c).closing = false ∧
        (w'.conns c).inst = (w.conns c).inst)) : LedgerInv env w' := by
  refine ⟨?_, ?_, ?_⟩
  · have hlogok := h.log.mono htick hnext
    rw [hlog]
    cases hentries with
    | nothing =>
      rw [List.append_nil]
      exact hlogok
    | freed slot inst detached pointing =>
      exact hlogok.append_entry trivial (fun _ _ _ _ he => by cases he) fun _ _ _ _ _ he => by cases he
  · exact h.calls.frame hlog (fun request => (hentries.columns 0 request).2.2) hundrained hdeferreds
  · intro c hc hclosing
    rcases hconns c hc hclosing with hbalanced | ⟨hold, hopen, hinst⟩
    · exact hbalanced
    · obtain ⟨hreplies, hrequests, -⟩ := hentries.columns (w.conns c).inst ⟨0, 0⟩
      exact (h.balanced c hold hopen).frame hinst hlog hreplies hrequests
        (Worker.undrainedOf_congr hundrained (fun d hd => hdeferreds d hd ▸ ⟨rfl, rfl⟩) c)

end Columns

/-! ## Completions -/

section Completions

variable {env : ℕ → Env} {w : Worker} {d : ℕ}

/-- **A completion**: the first decides the call, and no other call is concerned. -/
theorem LedgerInv.complete (h : LedgerInv env w) (hd : d ∈ w.undrained) (completion : Completion) :
    LedgerInv env (complete w d completion) := by
  obtain ⟨entry, hentry⟩ : ∃ entry,
    entry = Entry.completion (w.deferreds d).request completion.isOk := ⟨_, rfl⟩
  have hbefore : entry.Before w.tick w.nextInst := by
    obtain ⟨header, payload, slotFree, hmem, -⟩ := (h.calls.awaited d hd).source
    rw [hentry]
    exact (h.log.before _ hmem).1
  have hlog : LogOk env (w.log ++ [entry]) w.tick w.nextInst := by
    refine h.log.append_entry hbefore ?_ ?_
    · rw [hentry]
      exact fun _ _ _ _ he => by cases he
    · rw [hentry]
      exact fun _ _ _ _ _ he => by cases he
  have hother : ∀ t ∈ w.undrained, t ≠ d → Awaited env (w.log ++ [entry]) (w.deferreds t) := by
    intro t ht hne
    refine (h.calls.awaited t ht).append ?_
    rw [hentry, firstCompletion_singleton]
    exact if_neg fun heq => hne (h.calls.distinct t ht d hd heq.symm)
  have hcolumns (inst : ℕ) : repliesOf inst [entry] = [] ∧ requestsOf inst [entry] = [] := by
    rw [hentry]
    exact ⟨rfl, rfl⟩
  cases hdone : (w.deferreds d).completed with
  | true =>
    rw [complete_of_completed hdone, ← hentry]
    refine ⟨hlog, ⟨fun t ht => ?_, h.calls.distinct⟩, fun c hc hclosing => ?_⟩
    · by_cases htd : t = d
      · subst htd
        exact (h.calls.awaited t ht).append_of_completed hdone _
      · exact hother t ht htd
    · have hframe : (w.logEntry entry).BalancedAt c :=
        (h.balanced c hc hclosing).frame rfl rfl (hcolumns _).1 (hcolumns _).2 rfl
      exact hframe
  | false =>
    obtain ⟨response, result, error, ⟨hresult, hresponse, herror⟩, heq⟩ :=
      complete_of_open hdone completion
    rw [heq, ← hentry]
    obtain ⟨call, hcall⟩ : ∃ call, { w.deferreds d with
      completed := true, response := response, result := result, error := error } = call := ⟨_, rfl⟩
    rw [hcall]
    have happly (t : ℕ) : Function.update w.deferreds d call t =
        if t = d then call else w.deferreds t := Function.update_apply _ _ _ _
    -- the new state of the call differs in nothing that tells calls apart
    have hfields (t : ℕ) : (Function.update w.deferreds d call t).conn = (w.deferreds t).conn ∧
        (Function.update w.deferreds d call t).callId = (w.deferreds t).callId ∧
        (Function.update w.deferreds d call t).request = (w.deferreds t).request := by
      rw [happly]
      split_ifs with htd
      · rw [htd, ← hcall]
        exact ⟨rfl, rfl, rfl⟩
      · exact ⟨rfl, rfl, rfl⟩
    have hawaited : Awaited env (w.log ++ [entry]) call := by
      have hd := h.calls.awaited d hd
      obtain ⟨header, payload, slotFree, hmem, hrest⟩ := hd.source
      rw [← hcall]
      refine ⟨⟨header, payload, slotFree, List.mem_append_left _ hmem, hrest⟩,
        (fun hopen => by cases hopen), fun _ => ?_, hresponse hd.response_le, herror hd.error_le⟩
      have hfirst : firstCompletion (w.deferreds d).request (w.log ++ [entry]) =
          some completion.isOk := by
        rw [firstCompletion_append, hd.waiting hdone, hentry, firstCompletion_singleton, if_pos rfl]
        rfl
      refine hfirst.trans (congrArg some ?_)
      cases hok : completion.isOk with
      | true => exact (decide_eq_true (hresult.mpr hok)).symm
      | false =>
        refine (decide_eq_false fun hzero => ?_).symm
        exact absurd (hok.symm.trans (hresult.mp hzero)) (by decide)
    refine ⟨hlog, ⟨fun t ht => ?_, ?_⟩, fun c hc hclosing => ?_⟩
    · change Awaited env (w.log ++ [entry]) (Function.update w.deferreds d call t)
      rw [happly]
      split_ifs with htd
      · exact hawaited
      · exact hother t ht htd
    · intro t ht t' ht'
      change (Function.update w.deferreds d call t).request =
        (Function.update w.deferreds d call t').request → _
      rw [(hfields t).2.2, (hfields t').2.2]
      exact h.calls.distinct t ht t' ht'
    · refine (h.balanced c hc hclosing).frame rfl rfl (hcolumns _).1 (hcolumns _).2 ?_
      apply Worker.undrainedOf_congr
      · rfl
      · exact fun t _ => ⟨(hfields t).1, (hfields t).2.1⟩

/-- What the completions of a call leave alone. -/
theorem complete_undrained (w : Worker) (d : ℕ) (completion : Completion) :
    (complete w d completion).undrained = w.undrained ∧
      (complete w d completion).queueFailed = w.queueFailed ∧
      (complete w d completion).ready = w.ready := by
  obtain ⟨deferreds, completed, log, heq⟩ := complete_eq w d completion
  rw [heq]
  exact ⟨rfl, rfl, rfl⟩

/-- The completions a handler makes before it returns. -/
theorem LedgerInv.runDeferred (h : LedgerInv env w) (hd : d ∈ w.undrained)
    (outcome : DeferredOutcome) : LedgerInv env (runDeferred w d outcome) := by
  have hrun := runDeferred_rule
    (P := fun w' => LedgerInv env w' ∧ w'.undrained = w.undrained) (d := d) ?_ ⟨h, rfl⟩ outcome
  · exact hrun.1
  · rintro w' completion ⟨hw', hundrained⟩
    exact ⟨hw'.complete (hundrained ▸ hd) completion,
      (complete_undrained w' d completion).1.trans hundrained⟩

end Completions

/-! ## Handling a packet -/

/-- The dispatch of a packet is on record, and nothing else of the ledger changed. -/
structure Dispatched (w w₁ : Worker) (c : ℕ) (header : Header) (payload : List UInt8) : Prop where
  log : w₁.log =
    w.log ++ [.dispatched (w.request c) header payload w.deferredArena.alloc.isSome]
  tick : w₁.tick = w.tick + 1
  nextInst : w₁.nextInst = w.nextInst
  undrained : w₁.undrained = w.undrained
  deferreds : ∀ d ∈ w.undrained, w₁.deferreds d = w.deferreds d
  conns : w₁.conns = w.conns
  connections : w₁.connections = w.connections

section Handling

variable {cfg : ServerConfig} {env : ℕ → Env} {m : Mid} {w w₁ : Worker} {c : ℕ} {header : Header}
  {payload : List UInt8}

/-- Slots that are taken and given back concern no undrained call. -/
theorem Churn.dispatched {done : List ℕ} (hdefer : DeferInv w done)
    (h : Churn (w.dispatching c header payload) w₁) : Dispatched w w₁ c header payload := by
  cases h with
  | none => exact ⟨rfl, rfl, rfl, rfl, fun _ _ => rfl, rfl, rfl⟩
  | deferred call halloc =>
    refine ⟨rfl, rfl, rfl, rfl, fun t ht => ?_, rfl, rfl⟩
    refine Function.update_of_ne ?_ _ _
    rintro rfl
    exact hdefer.not_mem_undrained halloc ht
  | call call halloc => exact ⟨rfl, rfl, rfl, rfl, fun _ _ => rfl, rfl, rfl⟩

/-- Whether a dispatch is a request of a connection. -/
theorem requestsOf_dispatched (hvalid : validOp header.op = true)
    (hop : header.op ≠ Op.disconnect.code) (inst : ℕ) (request : Request) (slotFree : Bool) :
    requestsOf inst [.dispatched request header payload slotFree] =
      if request.inst = inst then [header.callId] else [] := by
  have hasks : header.Asks := (Header.asks_iff hvalid).mpr hop
  simp only [requestsOf, List.filterMap_cons, List.filterMap_nil, hasks, and_true]
  split_ifs <;> rfl

theorem repliesOf_singleton (inst target : ℕ) (request : Request) (op : Op)
    (procId callId : UInt64) :
    repliesOf inst [.reply target request op procId callId] =
      if target = inst then [callId] else [] := by
  simp only [repliesOf, List.filterMap_cons, List.filterMap_nil]
  split_ifs <;> rfl

/-- A connection on the list and another have different numbers. -/
theorem ConnInv.inst_ne (h : ConnInv w none) {c c' : ℕ} (hc : c ∈ w.connections)
    (hc' : c' ∈ w.connections) (hne : c' ≠ c) : (w.conns c).inst ≠ (w.conns c').inst := by
  intro heq
  refine hne (h.inst_inj c' c ?_ ?_ heq.symm)
  · exact ((h.mem_connections c').mp hc').1
  · exact ((h.mem_connections c).mp hc).1

/-- A reply is on record, and nothing else of the ledger changed. -/
structure Replied (w w' : Worker) (entry : Entry) : Prop where
  log : w'.log = w.log ++ [entry]
  tick : w'.tick = w.tick
  nextInst : w'.nextInst = w.nextInst
  undrained : w'.undrained = w.undrained
  deferreds : w'.deferreds = w.deferreds
  connections : w'.connections = w.connections
  inst : ∀ c, (w'.conns c).inst = (w.conns c).inst
  closing : ∀ c, (w'.conns c).closing = (w.conns c).closing

/-- A packet is on record once it is queued. -/
theorem Queues.replied {request : Request} {op : Op} {procId callId : UInt64} {data : List UInt8}
    {result : Rc × Worker} (h : Queues cfg w c request op procId callId data result)
    (hok : result.2.queueFailed = false) :
    Replied w result.2 (.reply (w.conns c).inst request op procId callId) := by
  cases h with
  | failed bytes cap => cases hok
  | @queued front cap hfront =>
    have hconns (c' : ℕ) : ((w.setConn c { (w.conns c).appendOut (front ++ data) cap with
          writeQueued := true }).conns c').inst = (w.conns c').inst ∧
        ((w.setConn c { (w.conns c).appendOut (front ++ data) cap with
          writeQueued := true }).conns c').closing = (w.conns c').closing := by
      by_cases hc : c' = c
      · subst hc
        rw [Worker.conns_setConn_self]
        exact ⟨rfl, rfl⟩
      · rw [Worker.conns_setConn_of_ne _ _ _ hc]
        exact ⟨rfl, rfl⟩
    rw [Worker.queued_eq]
    exact ⟨rfl, rfl, rfl, rfl, rfl, rfl, fun c' => (hconns c').1, fun c' => (hconns c').2⟩

/-- **A request is answered while its packet is handled**: both columns of its connection grow by
its call id. -/
theorem LedgerInv.answer {op : Op} {procId callId : UInt64} {w' : Worker} (hconn : ConnInv w none)
    (h : LedgerInv env w) (hc : c ∈ w.connections) (hvalid : validOp header.op = true)
    (hsync : header.op = Op.rpc.code → NotAsync (env w.tick) header)
    (hdispatched : Dispatched w w₁ c header payload)
    (hreply : IsReply (env w.tick) header payload w.deferredArena.alloc.isSome op procId callId)
    (hreplied : Replied w₁ w' (.reply (w₁.conns c).inst (w.request c) op procId callId)) :
    LedgerInv env w' := by
  have hlt : (w.request c).inst < w.nextInst :=
    hconn.inst_lt c ((hconn.mem_connections c).mp hc).1
  have hinst (c' : ℕ) : (w'.conns c').inst = (w.conns c').inst :=
    (hreplied.inst c').trans (by rw [hdispatched.conns])
  have hlog : w'.log =
      w.log ++ ([.dispatched (w.request c) header payload w.deferredArena.alloc.isSome] ++
        [.reply (w.request c).inst (w.request c) op procId callId]) := by
    rw [hreplied.log, hdispatched.log, hdispatched.conns, List.append_assoc]
    rfl
  have hundrained : w'.undrained = w.undrained := hreplied.undrained.trans hdispatched.undrained
  have hdeferreds : ∀ d ∈ w.undrained, w'.deferreds d = w.deferreds d := fun d hd =>
    (congrFun hreplied.deferreds d).trans (hdispatched.deferreds d hd)
  refine ⟨?_, ?_, ?_⟩
  · have hdispatch := h.log.append_dispatched hlt header payload w.deferredArena.alloc.isSome
    rw [hlog, hreplied.tick, hreplied.nextInst, hdispatched.tick, hdispatched.nextInst,
      ← List.append_assoc]
    refine hdispatch.append_entry hlt (fun _ _ _ _ he => by cases he) ?_
    rintro target request op procId callId he
    cases he
    refine ⟨rfl, hreply.op_eq, header, payload, _,
      List.mem_append_right _ (List.mem_singleton_self _), hreply.callId_eq, fun hrpc => ?_⟩
    exact ⟨hreply.procId_eq hrpc, .inl (hreply.response_iff hrpc (hsync hrpc))⟩
  · exact h.calls.frame hlog (fun _ => rfl) hundrained hdeferreds
  · intro c' hc' hclosing
    have hold : c' ∈ w.connections := by
      rwa [hreplied.connections, hdispatched.connections] at hc'
    have hopen : (w.conns c').closing = false := by
      rwa [hreplied.closing, hdispatched.conns] at hclosing
    have hcolumn : w'.undrainedOf c' = w.undrainedOf c' :=
      Worker.undrainedOf_congr hundrained (fun d hd => hdeferreds d hd ▸ ⟨rfl, rfl⟩) c'
    refine (h.balanced c' hold hopen).step (hinst c') hlog ?_
    rw [hcolumn, repliesOf_append, requestsOf_append, repliesOf_singleton,
      requestsOf_dispatched hvalid hreply.op_ne, hreply.callId_eq]
    -- the two new entries are both of this connection, or neither is
    split_ifs with hmine
    · exact .refl _
    · exact .refl _

/-- A DISCONNECT is no request, and its connection is not looked at any more. -/
theorem LedgerInv.disconnect (hconn : ConnInv w none) (h : LedgerInv env w)
    (hc : c ∈ w.connections) (hop : header.op = Op.disconnect.code) :
    LedgerInv env ((w.dispatching c header payload).setClosing c) := by
  have hlt : (w.request c).inst < w.nextInst :=
    hconn.inst_lt c ((hconn.mem_connections c).mp hc).1
  have hasks : ¬ header.Asks := by
    simp only [Header.Asks, hop]
    decide
  have hnone (inst : ℕ) : requestsOf inst
      [.dispatched (w.request c) header payload w.deferredArena.alloc.isSome] = [] := by
    simp [requestsOf, hasks]
  refine ⟨h.log.append_dispatched hlt header payload _, ?_, ?_⟩
  · exact h.calls.frame rfl (fun _ => rfl) rfl fun _ _ => rfl
  · intro c' hc' hclosing
    have hne : c' ≠ c := by
      rintro rfl
      rw [Worker.setClosing, Worker.conns_setConn_self] at hclosing
      cases hclosing
    have hother : ((w.dispatching c header payload).setClosing c).conns c' = w.conns c' :=
      Worker.conns_setConn_of_ne _ _ _ hne
    rw [hother] at hclosing
    exact (h.balanced c' hc' hclosing).frame (congrArg Conn.inst hother) rfl rfl (hnone _) rfl

/-- **A deferred call is issued**: its request is on record, and it is undrained. -/
theorem LedgerInv.issue {d : ℕ} {arena : Arena} (hinv : Inv m) (h : LedgerInv env m.worker)
    (hc : c ∈ m.worker.connections) (hop : header.op = Op.rpc.code)
    (halloc : m.worker.deferredArena.alloc = some (d, arena))
    (hsucceeds : ∀ first, CallSucceeds (env m.worker.tick) header payload
      m.worker.deferredArena.alloc.isSome first ↔ first = some true) :
    LedgerInv env (issueDeferred ((m.worker.dispatching c header payload).takeDeferred d arena
      (newDeferred c (m.worker.request c) header)) c d) := by
  obtain ⟨w, writes, done, fds⟩ := m
  simp only at h hc halloc hsucceeds ⊢
  have hlive := ((hinv.conn.mem_connections c).mp hc).1
  have hlt : (w.request c).inst < w.nextInst := hinv.conn.inst_lt c hlive
  have hnew : d ∉ w.undrained := hinv.defer.not_mem_undrained halloc
  obtain ⟨call, hcall⟩ : ∃ call, newDeferred c (w.request c) header = call := ⟨_, rfl⟩
  have hself : Function.update w.deferreds d call d = call := Function.update_self _ _ _
  have hother : ∀ t ∈ w.undrained, Function.update w.deferreds d call t = w.deferreds t := by
    intro t ht
    refine Function.update_of_ne ?_ _ _
    rintro rfl
    exact hnew ht
  have hmem (t : ℕ) (ht : t ∈ w.undrained ++ [d]) : t ∈ w.undrained ∨ t = d := by simpa using ht
  obtain ⟨w', hw'⟩ : ∃ w', issueDeferred
    ((w.dispatching c header payload).takeDeferred d arena call) c d = w' := ⟨_, rfl⟩
  have hfields : w'.log = w.log ++
        [.dispatched (w.request c) header payload w.deferredArena.alloc.isSome] ∧
      w'.tick = w.tick + 1 ∧ w'.nextInst = w.nextInst ∧ w'.undrained = w.undrained ++ [d] ∧
      w'.deferreds = Function.update w.deferreds d call ∧ w'.connections = w.connections := by
    rw [← hw']
    exact ⟨rfl, rfl, rfl, rfl, rfl, rfl⟩
  have hconns (c' : ℕ) : (w'.conns c').inst = (w.conns c').inst ∧
      (w'.conns c').closing = (w.conns c').closing := by
    rw [← hw']
    by_cases hcc : c' = c
    · subst hcc
      have hset : (issueDeferred ((w.dispatching c' header payload).takeDeferred d arena call)
        c' d).conns c' = _ := Worker.conns_setConn_self _ _ _
      rw [hset]
      exact ⟨rfl, rfl⟩
    · have hset : (issueDeferred ((w.dispatching c header payload).takeDeferred d arena call)
        c d).conns c' = w.conns c' := Worker.conns_setConn_of_ne _ _ _ hcc
      rw [hset]
      exact ⟨rfl, rfl⟩
  obtain ⟨hlog, htick, hnext, hundrained, hdeferreds, hlist⟩ := hfields
  rw [hcall, hw']
  refine ⟨?_, ⟨?_, ?_⟩, ?_⟩
  · rw [hlog, htick, hnext]
    exact h.log.append_dispatched hlt header payload _
  · intro t ht
    rw [hundrained] at ht
    rw [hlog, hdeferreds]
    rcases hmem t ht with ht | rfl
    · rw [hother t ht]
      exact (h.calls.awaited t ht).append rfl
    · rw [hself, ← hcall]
      refine ⟨⟨header, payload, _, List.mem_append_right _ (List.mem_singleton_self _), hop, rfl,
        rfl, hsucceeds⟩, fun _ => ?_, (fun h => by cases h), Nat.zero_le _, Nat.zero_le _⟩
      rw [firstCompletion_append]
      exact congrArg (Option.or · none) (h.log.firstCompletion_eq_none le_rfl)
  · -- the number of the new request is larger than those of all others
    have hfresh : ∀ t ∈ w.undrained, (w.deferreds t).request ≠ w.request c := by
      intro t ht heq
      obtain ⟨_, _, _, hdispatched, -⟩ := (h.calls.awaited t ht).source
      have hbefore := (h.log.before _ hdispatched).1
      rw [heq] at hbefore
      exact lt_irrefl _ hbefore
    have hrequest : call.request = w.request c := by rw [← hcall]; rfl
    intro t ht t' ht'
    rw [hundrained] at ht ht'
    rw [hdeferreds]
    rcases hmem t ht with hold | rfl <;> rcases hmem t' ht' with hold' | rfl
    · rw [hother t hold, hother t' hold']
      exact h.calls.distinct t hold t' hold'
    · rw [hother t hold, hself, hrequest]
      exact fun heq => absurd heq (hfresh t hold)
    · rw [hother t' hold', hself, hrequest]
      exact fun heq => absurd heq.symm (hfresh t' hold')
    · exact fun _ => rfl
  · intro c' hc' hclosing
    rw [hlist] at hc'
    rw [(hconns c').2] at hclosing
    have hrequests : requestsOf (w.conns c').inst
        [.dispatched (w.request c) header payload w.deferredArena.alloc.isSome] =
        if (w.request c).inst = (w.conns c').inst then [header.callId] else [] :=
      requestsOf_dispatched (by rw [hop]; rfl) (op_ne_disconnect hop) _ _ _
    have hcolumn : w'.undrainedOf c' =
        w.undrainedOf c' ++ if c = c' then [header.callId] else [] := by
      have hold : Worker.undrainedOf { w with deferreds := Function.update w.deferreds d call } c' =
          w.undrainedOf c' := by
        apply Worker.undrainedOf_congr
        · rfl
        · exact fun t ht => ⟨congrArg Deferred.conn (hother t ht),
            congrArg Deferred.callId (hother t ht)⟩
      have hlast : (([d].filter fun t => (Function.update w.deferreds d call t).conn = c').map
          fun t => (Function.update w.deferreds d call t).callId) =
          if c = c' then [header.callId] else [] := by
        have hfields : call.conn = c ∧ call.callId = header.callId := by
          rw [← hcall]
          exact ⟨rfl, rfl⟩
        by_cases hcc : c = c'
        · simp [hfields, hcc]
        · simp [hfields, hcc]
      rw [← hold, ← hlast]
      unfold Worker.undrainedOf
      rw [hundrained, hdeferreds, List.filter_append, List.map_append]
    have hsame : (w.request c).inst = (w.conns c').inst ↔ c = c' := by
      refine ⟨fun heq => ?_, fun heq => heq ▸ rfl⟩
      by_contra hne
      exact hinv.conn.inst_ne hc hc' (Ne.symm hne) heq
    refine (h.balanced c' hc' hclosing).step (hconns c').1 hlog ?_
    rw [hcolumn, hrequests]
    simp only [hsame]
    change (w.undrainedOf c' ++ _).Perm _
    exact List.perm_append_comm

/-- **Handling a packet keeps the ledger**, unless a buffer for the reply is refused. -/
theorem LedgerInv.handle {rc : Rc} {w' : Worker} (hinv : Inv m) (h : LedgerInv env m.worker)
    (hc : c ∈ m.worker.connections) (hvalid : validOp header.op = true)
    (hsync : header.op = Op.rpc.code → NotAsync (env m.worker.tick) header)
    (hhandles : Handles cfg (env m.worker.tick) m.worker c header payload (rc, w'))
    (hok : w'.queueFailed = false) : LedgerInv env w' := by
  generalize hresult : (rc, w') = result at hhandles
  cases hhandles with
  | replied hchurn hreply hqueues =>
    subst hresult
    exact h.answer hinv.conn hc hvalid hsync (hchurn.dispatched hinv.defer) hreply
      (hqueues.replied hok)
  | @notStarted k arena call op procId callId data result halloc hreply hqueues =>
    cases hresult
    have hdispatched : Dispatched m.worker
        ((m.worker.dispatching c header payload).takeCall k arena call) c header payload :=
      ⟨rfl, rfl, rfl, rfl, fun _ _ => rfl, rfl, rfl⟩
    have hanswered : LedgerInv env result.2 :=
      h.answer hinv.conn hc hvalid hsync hdispatched hreply (hqueues.replied hok)
    exact ⟨hanswered.log, ⟨hanswered.calls.awaited, hanswered.calls.distinct⟩, hanswered.balanced⟩
  | disconnected hop =>
    cases hresult
    exact h.disconnect hinv.conn hc hop
  | issued outcome hop halloc hsucceeds =>
    cases hresult
    refine (h.issue hinv hc hop halloc hsucceeds).runDeferred ?_ outcome
    exact List.mem_append_right _ (List.mem_singleton_self _)
  | submitted call args hop hasync halloc hconn hrequest => exact absurd (hsync hop) hasync

end Handling

/-! ## The end of a connection, and new ones -/

section Connections

variable {cfg : ServerConfig} {env : ℕ → Env} {m : Mid} {w : Worker} {c : ℕ}

/-- The end of a connection concerns no call and no other connection. -/
theorem connectionDestroy_frame (cfg : ServerConfig) (w : Worker) (c : ℕ) :
    ∃ entries, OnlyFrees entries ∧ (connectionDestroy cfg w c).log = w.log ++ entries ∧
      (connectionDestroy cfg w c).tick = w.tick ∧
      (connectionDestroy cfg w c).nextInst = w.nextInst ∧
      (connectionDestroy cfg w c).undrained = w.undrained ∧
      (connectionDestroy cfg w c).deferreds = w.deferreds ∧
      (connectionDestroy cfg w c).queueFailed = w.queueFailed ∧
      (connectionDestroy cfg w c).ready = w.ready := by
  obtain ⟨conns, arena, connections, writes, entries, hentries, heq⟩ := connectionDestroy_eq cfg w c
  rw [heq]
  exact ⟨entries, hentries, rfl, rfl, rfl, rfl, rfl, rfl, rfl⟩

theorem LedgerInv.destroy (hinv : Inv m) (h : LedgerInv env m.worker)
    (hc : c ∈ m.worker.connections) : LedgerInv env (connectionDestroy cfg m.worker c) := by
  obtain ⟨entries, hentries, hlog, htick, hnext, hundrained, hdeferreds, -, -⟩ :=
    connectionDestroy_frame cfg m.worker c
  refine h.quiet hlog hentries htick.ge hnext.ge hundrained
    (fun d _ => congrFun hdeferreds d) fun c' hc' hclosing => .inr ?_
  rw [connectionDestroy_connections cfg (hinv.isOpen hc).1] at hc'
  obtain ⟨hne, hold⟩ := hinv.conn.nodup.mem_erase_iff.mp hc'
  rw [connectionDestroy_of_ne cfg _ hne] at hclosing ⊢
  exact ⟨hold, hclosing, rfl⟩

/-- A number that is yet to be given out is on no entry. -/
theorem LogOk.columns_eq_nil {log : List Entry} {tick next : ℕ} (h : LogOk env log tick next) :
    repliesOf next log = [] ∧ requestsOf next log = [] := by
  refine ⟨List.filterMap_eq_nil_iff.mpr fun e he => ?_,
    List.filterMap_eq_nil_iff.mpr fun e he => ?_⟩
  · cases e with
    | reply target request op procId callId =>
      have hlt : target < next := h.before _ he
      exact if_neg hlt.ne
    | _ => rfl
  · cases e with
    | dispatched request header payload slotFree =>
      have hlt : request.inst < next := (h.before _ he).2
      exact if_neg fun h => hlt.ne h.1
    | _ => rfl

/-- **A new connection** starts with empty columns. -/
theorem LedgerInv.added {fd : Int} {fds : List Int} {arena : Arena}
    (hinv : Inv ⟨w, [], [], fd :: fds⟩) (h : LedgerInv env w)
    (halloc : w.connectionArena.alloc = some (c, arena)) :
    LedgerInv env (w.added c arena fd) := by
  have hdead := (Arena.live_alloc hinv.conn.arena halloc).1
  refine h.quiet (List.append_nil _).symm .nothing (Nat.le_succ _) (Nat.le_succ _) rfl
    (fun _ _ => rfl) fun c' hc' hclosing => ?_
  rcases List.mem_cons.mp hc' with rfl | hold
  · left
    obtain ⟨hreplies, hrequests⟩ := h.log.columns_eq_nil
    have hnone : w.undrainedOf c' = [] := by
      have hfilter : (w.undrained.filter fun d => (w.deferreds d).conn = c') = [] := by
        refine List.filter_eq_nil_iff.mpr fun d hd => ?_
        simp only [decide_eq_true_eq]
        rintro rfl
        exact hdead (hinv.defer.conn_live d hd)
      rw [Worker.undrainedOf, hfilter]
      rfl
    unfold Worker.BalancedAt
    rw [Worker.added_self]
    change (repliesOf w.nextInst w.log ++ w.undrainedOf c').Perm (requestsOf w.nextInst w.log)
    rw [hreplies, hrequests, hnone]
    exact .refl _
  · have hne : c' ≠ c := by
      rintro rfl
      exact hdead ((hinv.conn.mem_connections c').mp hold).1
    rw [Worker.added_of_ne _ _ _ hne] at hclosing ⊢
    exact .inr ⟨hold, hclosing, rfl⟩

theorem LedgerInv.add {fd : Int} {fds : List Int} (hinv : Inv ⟨w, [], [], fd :: fds⟩)
    (h : LedgerInv env w) : LedgerInv env (workerAddConnection cfg env w fd) := by
  cases halloc : w.connectionArena.alloc with
  | none =>
    rw [workerAddConnection, halloc]
    exact h
  | some slot =>
    obtain ⟨c, arena⟩ := slot
    have hadded := h.added hinv halloc
    rw [workerAddConnection_eq halloc]
    split_ifs
    · refine hadded.quiet (List.append_nil _).symm .nothing le_rfl le_rfl rfl (fun _ _ => rfl)
        fun c' hc' hclosing => .inr ⟨hc', ?_⟩
      by_cases hcc : c' = c
      · subst hcc
        rw [Worker.conns_setConn_self] at hclosing ⊢
        exact ⟨hclosing, rfl⟩
      · rw [Worker.conns_setConn_of_ne _ _ _ hcc] at hclosing ⊢
        exact ⟨hclosing, rfl⟩
    · exact hadded.destroy (m := ⟨w.added c arena fd, [], [], fds⟩) (hinv.added halloc)
        List.mem_cons_self

end Connections

/-! ## Draining completed calls -/

section Drain

variable {cfg : ServerConfig} {env : ℕ → Env} {w w₁ : Worker} {done : List ℕ} {d : ℕ}

/-- A call that is drained is answered, unless its connection is gone or is to be closed. -/
theorem replyDeferred_cases (mem : Mem) (hinv : Inv ⟨w, [], d :: done, []⟩)
    (hd : d ∈ w.undrained) (hawaited : Awaited env w.log (w.deferreds d))
    (hok : (replyDeferred cfg mem w d).queueFailed = false) :
    replyDeferred cfg mem w d = w ∧ ((w.deferreds d).conn ∈ w.connections →
        (w.conns (w.deferreds d).conn).closing = true) ∨
      Replied w (replyDeferred cfg mem w d)
        (.reply (w.conns (w.deferreds d).conn).inst (w.deferreds d).request
          (if (w.deferreds d).result = 0 then .response else .error) (w.deferreds d).procId
          (w.deferreds d).callId) := by
  unfold replyDeferred at hok ⊢
  simp only at hok ⊢
  by_cases hattached : (w.conns (w.deferreds d).conn).detached = false ∧
      (w.conns (w.deferreds d).conn).closing = false
  · rw [if_pos hattached] at hok ⊢
    have hlive := hinv.defer.conn_live d hd
    have hmem := (hinv.conn.mem_connections _).mpr ⟨hlive, hattached.1⟩
    have hopen : (w.conns (w.deferreds d).conn).Open := hinv.isOpen hmem
    right
    by_cases hresult : (w.deferreds d).result = 0
    · rw [if_pos hresult] at hok ⊢
      rw [if_pos hresult]
      exact (queuePacket_cases cfg mem hopen _ _ _ _ hawaited.response_le).replied hok
    · rw [if_neg hresult] at hok ⊢
      rw [if_neg hresult]
      refine (queueStringError_cases cfg mem hopen _ _ _ ?_).replied hok
      split
      · exact hawaited.error_le
      · decide
  · rw [if_neg hattached]
    refine .inl ⟨rfl, fun hmem => ?_⟩
    by_contra hclosing
    exact hattached ⟨((hinv.conn.mem_connections _).mp hmem).2, by simpa using hclosing⟩

/-- The first completion decides the kind of the reply. -/
theorem Awaited.justified {log : List Entry} {call : Deferred} (h : Awaited env log call)
    (hcompleted : call.completed = true) :
    Justified env log call.request.inst call.request
      (if call.result = 0 then .response else .error) call.procId call.callId := by
  obtain ⟨header, payload, slotFree, hmem, hrpc, hcall, hproc, hsucceeds⟩ := h.source
  refine ⟨rfl, ?_, header, payload, slotFree, hmem, hcall, fun _ => ⟨hproc, .inr ⟨_,
    h.decided hcompleted, ?_⟩⟩⟩
  · split_ifs
    · exact .inl rfl
    · exact .inr rfl
  · rw [hsucceeds]
    split_ifs with hresult
    · simp [hresult]
    · simp [hresult]

/-- What settling a call leaves of the columns. -/
theorem settleDeferred_undrainedOf (hd : d ∈ w.undrained) (c : ℕ) :
    (w.undrainedOf c).Perm ((if (w.deferreds d).conn = c then [(w.deferreds d).callId] else []) ++
      (settleDeferred w d).undrainedOf c) := by
  change (w.undrainedOf c).Perm (_ ++ ((w.undrained.erase d).filter fun t =>
    (w.deferreds t).conn = c).map fun t => (w.deferreds t).callId)
  have hperm := ((List.perm_cons_erase hd).filter fun t => (w.deferreds t).conn = c).map
    fun t => (w.deferreds t).callId
  refine hperm.trans ?_
  by_cases hc : (w.deferreds d).conn = c
  · rw [if_pos hc, List.filter_cons_of_pos (by simpa using hc)]
    exact .refl _
  · rw [if_neg hc, List.filter_cons_of_neg (by simpa using hc)]
    exact .refl _

/-- A slot that waited for its last call is given back. -/
theorem LedgerInv.release {c : ℕ} (h : LedgerInv env w) (hdetached : (w.conns c).detached = true) :
    LedgerInv env (connectionDestroy cfg w c) := by
  obtain ⟨entries, hentries, hlog, htick, hnext, hundrained, hdeferreds, -, -⟩ :=
    connectionDestroy_frame cfg w c
  refine h.quiet hlog hentries htick.ge hnext.ge hundrained
    (fun d _ => congrFun hdeferreds d) fun c' hc' hclosing => .inr ?_
  simp only [connectionDestroy, if_pos hdetached] at hc' hclosing ⊢
  split_ifs at hc' hclosing ⊢
  · exact ⟨hc', hclosing, rfl⟩
  · obtain ⟨fd, hconn, -⟩ := freeConnection_conns cfg w c c'
    rw [hconn] at hclosing ⊢
    exact ⟨hc', hclosing, rfl⟩

/-- **A call is settled**: whether there is a reply for it or not, the columns of its connection
agree if the reply is the only change. -/
theorem LedgerInv.settle {entries : List Entry} (h : LedgerInv env w) (hd : d ∈ w.undrained)
    (hlog : w₁.log = w.log ++ entries) (hlogok : LogOk env (w.log ++ entries) w.tick w.nextInst)
    (hfirst : ∀ request, firstCompletion request entries = none)
    (hundrained : w₁.undrained = w.undrained) (hdeferreds : w₁.deferreds = w.deferreds)
    (htick : w₁.tick = w.tick) (hnext : w₁.nextInst = w.nextInst)
    (hlist : w₁.connections = w.connections) (hinst : ∀ c, (w₁.conns c).inst = (w.conns c).inst)
    (hclosing : ∀ c, (w₁.conns c).closing = (w.conns c).closing)
    (hcolumns : ∀ c ∈ w.connections, (w.conns c).closing = false →
      requestsOf (w.conns c).inst entries = [] ∧ repliesOf (w.conns c).inst entries =
        if (w.deferreds d).conn = c then [(w.deferreds d).callId] else []) :
    LedgerInv env (settleDeferred w₁ d) := by
  have hmem (t : ℕ) (ht : t ∈ (settleDeferred w₁ d).undrained) : t ∈ w.undrained :=
    hundrained ▸ List.mem_of_mem_erase ht
  have hcalls : (settleDeferred w₁ d).deferreds = w.deferreds := hdeferreds
  have hlog₂ : (settleDeferred w₁ d).log = w.log ++ entries := hlog
  refine ⟨?_, ⟨?_, ?_⟩, ?_⟩
  · rw [hlog₂]
    exact hlogok.mono htick.ge hnext.ge
  · intro t ht
    rw [hcalls, hlog₂]
    exact (h.calls.awaited t (hmem t ht)).append (hfirst _)
  · intro t ht t' ht'
    rw [hcalls]
    exact h.calls.distinct t (hmem t ht) t' (hmem t' ht')
  · intro c hc hopen
    obtain ⟨n, hn, -⟩ := settleDeferred_conns w₁ d c
    rw [hn] at hopen
    have hold : c ∈ w.connections := hlist ▸ hc
    have hopen' : (w.conns c).closing = false := (hclosing c).symm.trans hopen
    have hinst' : ((settleDeferred w₁ d).conns c).inst = (w.conns c).inst := by
      rw [hn]
      exact hinst c
    obtain ⟨hrequests, hreplies⟩ := hcolumns c hold hopen'
    refine (h.balanced c hold hopen').step hinst' hlog₂ ?_
    have hundrainedOf : w₁.undrainedOf c = w.undrainedOf c :=
      Worker.undrainedOf_congr hundrained (fun t _ => hdeferreds ▸ ⟨rfl, rfl⟩) c
    have hperm := settleDeferred_undrainedOf (hundrained ▸ hd) c
    rw [hundrainedOf, hdeferreds] at hperm
    rw [hrequests, hreplies, List.nil_append]
    exact hperm.symm

/-- **A completed call is drained**: its call id moves from the undrained calls to the replies. -/
theorem LedgerInv.drainOne (hinv : Inv ⟨w, [], d :: done, []⟩) (h : LedgerInv env w)
    (hok : (drainOne cfg env w d).queueFailed = false) :
    LedgerInv env (drainOne cfg env w d) := by
  obtain ⟨hd, hcompleted⟩ : d ∈ w.undrained ∧ (w.deferreds d).completed = true :=
    (hinv.defer.mem_done d).mp (List.mem_append_right _ List.mem_cons_self)
  have hawaited := h.calls.awaited d hd
  have hinst : (w.conns (w.deferreds d).conn).inst = (w.deferreds d).request.inst :=
    hinv.defer.inst_eq d hd
  have hlive : w.connectionArena.Live (w.deferreds d).conn := hinv.defer.conn_live d hd
  obtain ⟨w₁, w₂, hw₁, hw₂, heq⟩ := drainOne_eq cfg env w d
  have hok₁ : w₁.queueFailed = false := by
    have hsettled : w₂.queueFailed = w₁.queueFailed := by
      rw [← hw₂]
      rfl
    obtain ⟨-, -, -, -, -, -, -, hdestroy, -⟩ :=
      connectionDestroy_frame cfg w₂ (w.deferreds d).conn
    rw [heq] at hok
    split_ifs at hok
    · rw [← hsettled, ← hdestroy, hok]
    · rw [← hsettled, hok]
  have hcases := replyDeferred_cases (env w.tick).mem hinv hd hawaited (hw₁ ▸ hok₁)
  rw [hw₁] at hcases
  have hsettled : LedgerInv env (settleDeferred w₁ d) := by
    rcases hcases with ⟨rfl, hclosing⟩ | hreplied
    · -- no reply: the connection is gone or is to be closed, and nobody looks at its columns
      refine h.settle hd (List.append_nil _).symm (by rw [List.append_nil]; exact h.log)
        (fun _ => rfl) rfl rfl rfl rfl rfl (fun _ => rfl) (fun _ => rfl) fun c hc hopen => ⟨rfl, ?_⟩
      rw [if_neg]
      · rfl
      · rintro rfl
        exact absurd (hopen.symm.trans (hclosing hc)) (by decide)
    · rw [hinst] at hreplied
      refine h.settle hd hreplied.log ?_ (fun _ => rfl) hreplied.undrained hreplied.deferreds
        hreplied.tick hreplied.nextInst hreplied.connections hreplied.inst hreplied.closing ?_
      · refine h.log.append_entry ?_ (fun _ _ _ _ he => by cases he) ?_
        · exact hinst ▸ hinv.conn.inst_lt _ hlive
        · rintro target request op procId callId he
          cases he
          exact hawaited.justified hcompleted
      · intro c hc _
        have hiff : (w.deferreds d).request.inst = (w.conns c).inst ↔ (w.deferreds d).conn = c := by
          rw [← hinst]
          refine ⟨hinv.conn.inst_inj _ _ hlive ((hinv.conn.mem_connections c).mp hc).1, ?_⟩
          rintro rfl
          rfl
        refine ⟨rfl, ?_⟩
        rw [repliesOf_singleton]
        simp only [hiff]
  have hledger : LedgerInv env w₂ := by
    refine hw₂ ▸ hsettled.quiet (List.append_nil _).symm .nothing (Nat.le_succ _) le_rfl rfl
      (fun _ _ => rfl) fun c hc hclosing => .inr ⟨hc, hclosing, rfl⟩
  rw [heq]
  split_ifs with hgone
  · exact hledger.release hgone.1
  · exact hledger

end Drain

/-! ## The loop -/

/-- The record only grows, and a refused buffer is not forgotten. -/
structure Worker.Continues (w w' : Worker) : Prop where
  log : ∃ entries, w'.log = w.log ++ entries
  failed : w'.queueFailed = false → w.queueFailed = false

theorem Worker.Continues.trans {w w' w'' : Worker} (h : w.Continues w') (h' : w'.Continues w'') :
    w.Continues w'' := by
  obtain ⟨entries, hlog⟩ := h.log
  obtain ⟨entries', hlog'⟩ := h'.log
  refine ⟨⟨entries ++ entries', ?_⟩, fun hok => h.failed (h'.failed hok)⟩
  rw [hlog', hlog, List.append_assoc]

theorem Worker.Continues.of_eq {w w' : Worker} (hlog : w'.log = w.log)
    (hfailed : w'.queueFailed = w.queueFailed) : w.Continues w' :=
  ⟨⟨[], by rw [hlog, List.append_nil]⟩, fun hok => hfailed.symm.trans hok⟩

section Run

variable {cfg : ServerConfig} {env : ℕ → Env} {w w' : Worker} {c d : ℕ}

theorem Queues.continues {request : Request} {op : Op} {procId callId : UInt64}
    {data : List UInt8} {result : Rc × Worker}
    (h : Queues cfg w c request op procId callId data result) : w.Continues result.2 := by
  cases h with
  | failed bytes cap => exact ⟨⟨[], (List.append_nil _).symm⟩, (fun hok => by cases hok)⟩
  | queued hfront =>
    rw [Worker.queued_eq]
    exact ⟨⟨_, rfl⟩, id⟩

theorem Attempts.continues {request : Request} {op : Op} {procId callId : UInt64}
    (h : Attempts cfg w c request op procId callId w') : w.Continues w' := by
  cases h with
  | refused => exact .of_eq rfl rfl
  | failed => exact ⟨⟨[], (List.append_nil _).symm⟩, (fun hok => by cases hok)⟩
  | queues hopen hqueues => exact hqueues.continues

theorem connectionDestroy_continues (cfg : ServerConfig) (w : Worker) (c : ℕ) :
    w.Continues (connectionDestroy cfg w c) := by
  obtain ⟨entries, -, hlog, -, -, -, -, hfailed, -⟩ := connectionDestroy_frame cfg w c
  exact ⟨⟨entries, hlog⟩, fun hok => hfailed.symm.trans hok⟩

theorem complete_continues (w : Worker) (d : ℕ) (completion : Completion) :
    w.Continues (complete w d completion) := by
  refine ⟨?_, fun hok => (complete_undrained w d completion).2.1.symm.trans hok⟩
  cases hdone : (w.deferreds d).completed with
  | true =>
    rw [complete_of_completed hdone]
    exact ⟨_, rfl⟩
  | false =>
    obtain ⟨response, result, error, -, heq⟩ := complete_of_open hdone completion
    rw [heq]
    exact ⟨_, rfl⟩

theorem drainOne_continues (cfg : ServerConfig) (env : ℕ → Env) (w : Worker) (d : ℕ) :
    w.Continues (drainOne cfg env w d) := by
  obtain ⟨w₁, w₂, hw₁, hw₂, heq⟩ := drainOne_eq cfg env w d
  obtain ⟨op, hattempts⟩ := replyDeferred_attempts cfg (env w.tick).mem w d
  rw [hw₁] at hattempts
  have hsettled : w.Continues w₂ := by
    rw [← hw₂]
    exact hattempts.continues.trans (.of_eq rfl rfl)
  rw [heq]
  split_ifs
  · exact hsettled.trans (connectionDestroy_continues _ _ _)
  · exact hsettled

/-- A new connection starts no call. -/
theorem workerAddConnection_frame (cfg : ServerConfig) (env : ℕ → Env) (w : Worker) (fd : Int) :
    w.Continues (workerAddConnection cfg env w fd) ∧
      (workerAddConnection cfg env w fd).ready = w.ready := by
  cases halloc : w.connectionArena.alloc with
  | none =>
    rw [workerAddConnection, halloc]
    exact ⟨.of_eq rfl rfl, rfl⟩
  | some slot =>
    obtain ⟨c, arena⟩ := slot
    have hadded : w.Continues (w.added c arena fd) := .of_eq rfl rfl
    rw [workerAddConnection_eq halloc]
    split_ifs
    · exact ⟨.of_eq rfl rfl, rfl⟩
    · obtain ⟨-, -, -, -, -, -, -, -, hready⟩ := connectionDestroy_frame cfg (w.added c arena fd) c
      exact ⟨hadded.trans (connectionDestroy_continues _ _ _), hready⟩

/-- A packet that is handled is on record. -/
theorem Handles.continues {e : Env} {header : Header} {payload : List UInt8} {rc : Rc}
    (h : Handles cfg e w c header payload (rc, w')) :
    (w.dispatching c header payload).Continues w' := by
  generalize hresult : (rc, w') = result at h
  cases h with
  | replied hchurn hreply hqueues =>
    subst hresult
    exact (Worker.Continues.of_eq hchurn.log hchurn.queueFailed).trans hqueues.continues
  | notStarted halloc hreply hqueues =>
    cases hresult
    have hcontinues := hqueues.continues
    exact ⟨hcontinues.log, hcontinues.failed⟩
  | disconnected hop =>
    cases hresult
    exact .of_eq rfl rfl
  | issued outcome hop halloc hsucceeds =>
    cases hresult
    refine runDeferred_rule
      (P := fun w' => (w.dispatching c header payload).Continues w') ?_ ?_ outcome
    · exact fun w' completion hw' => hw'.trans (complete_continues w' _ completion)
    · exact .of_eq rfl rfl
  | submitted call args hop hasync halloc hconn hrequest =>
    cases hresult
    exact .of_eq rfl rfl

/-- Without async routes no call is submitted. -/
theorem Handles.ready {e : Env} {header : Header} {payload : List UInt8} {rc : Rc}
    (hsync : header.op = Op.rpc.code → NotAsync e header)
    (h : Handles cfg e w c header payload (rc, w')) : w'.ready = w.ready := by
  generalize hresult : (rc, w') = result at h
  cases h with
  | replied hchurn hreply hqueues =>
    subst hresult
    refine hqueues.scheduler.2.1.trans ?_
    cases hchurn <;> rfl
  | notStarted halloc hreply hqueues =>
    cases hresult
    exact hqueues.scheduler.2.1
  | disconnected hop =>
    cases hresult
    rfl
  | issued outcome hop halloc hsucceeds =>
    cases hresult
    refine runDeferred_rule (P := fun w' => w'.ready = w.ready) ?_ ?_ outcome
    · exact fun w' completion hw' => (complete_undrained w' _ completion).2.2.trans hw'
    · rfl
  | submitted call args hop hasync halloc hconn hrequest => exact absurd (hsync hop) hasync

/-- No RPC on record called an async route. -/
def AllSync (env : ℕ → Env) (log : List Entry) : Prop :=
  ∀ {request header payload slotFree}, .dispatched request header payload slotFree ∈ log →
    header.op = Op.rpc.code → NotAsync (env request.tick) header

/-- What the ledger asks of a run so far: no async route was called, and no buffer for a reply was
refused. -/
structure Fair (env : ℕ → Env) (w : Worker) : Prop where
  sync : AllSync env w.log
  memory : w.queueFailed = false

theorem Fair.of_continues (h : Fair env w') (hcontinues : w.Continues w') : Fair env w := by
  refine ⟨fun hmem => ?_, hcontinues.failed h.memory⟩
  obtain ⟨entries, hlog⟩ := hcontinues.log
  exact h.sync (by rw [hlog]; exact List.mem_append_left _ hmem)

/-- A worker with its ledger. -/
structure Accounted (env : ℕ → Env) (m : Mid) : Prop where
  inv : Inv m
  ready : Fair env m.worker → m.worker.ready = []
  ledger : Fair env m.worker → LedgerInv env m.worker

/-- Changes of one connection that leave its number and only ever set the mark for closing. -/
theorem LedgerInv.setConn (h : LedgerInv env w) {conn : Conn}
    (hinst : conn.inst = (w.conns c).inst)
    (hclosing : conn.closing = false → (w.conns c).closing = false) :
    LedgerInv env (w.setConn c conn) := by
  refine h.quiet (List.append_nil _).symm .nothing le_rfl le_rfl rfl (fun _ _ => rfl)
    fun c' hc' hopen => .inr ⟨hc', ?_⟩
  by_cases hcc : c' = c
  · subst hcc
    rw [Worker.conns_setConn_self] at hopen ⊢
    exact ⟨hclosing hopen, hinst⟩
  · rw [Worker.conns_setConn_of_ne _ _ _ hcc] at hopen ⊢
    exact ⟨hopen, rfl⟩

/-- Numbers may be skipped, and lists that are no part of the ledger may change. -/
theorem LedgerInv.later (h : LedgerInv env w) (hlog : w'.log = w.log) (htick : w.tick ≤ w'.tick)
    (hnext : w'.nextInst = w.nextInst) (hundrained : w'.undrained = w.undrained)
    (hdeferreds : w'.deferreds = w.deferreds) (hconns : w'.conns = w.conns)
    (hlist : w'.connections = w.connections) : LedgerInv env w' := by
  refine h.quiet (by rw [hlog, List.append_nil]) .nothing htick hnext.ge hundrained
    (fun d _ => by rw [hdeferreds]) fun c hc hclosing => .inr ?_
  rw [hconns] at hclosing ⊢
  exact ⟨hlist ▸ hc, hclosing, rfl⟩

theorem LedgerInv.touch (h : LedgerInv env w) (c : ℕ) (readBuf : List UInt8) (readCap : ℕ)
    (received : List UInt8) (closing : Bool) (ticks : ℕ) (failed : Bool) :
    LedgerInv env (w.touchRead c readBuf readCap received closing ticks failed) := by
  have hset : LedgerInv env (w.setConn c
      { w.conns c with
        readBuf := readBuf
        readCap := readCap
        received := received
        closing := (w.conns c).closing || closing }) := by
    refine h.setConn ?_ ?_
    · rfl
    · exact fun hopen => (Bool.or_eq_false_iff.mp hopen).1
  exact hset.later rfl (Nat.le_add_right _ _) rfl rfl rfl rfl rfl

theorem LedgerInv.write (h : LedgerInv env w) (c : ℕ) (script : List SendResult) :
    LedgerInv env (connectionWrite env w c script) := by
  have hsends := sendLoop_sends (env w.tick).modify script (w.conns c)
  have hset : LedgerInv env (w.setConn c (sendLoop (env w.tick).modify script (w.conns c))) := by
    refine h.setConn ?_ fun hopen => ?_
    · rw [hsends.same]
      rfl
    · by_contra hclosing
      have htrue := hsends.closing_le (by simpa using hclosing)
      exact absurd (hopen.symm.trans htrue) (by decide)
  exact hset.later rfl (Nat.le_succ _) rfl rfl rfl rfl rfl

/-- An action that leaves the queue of the scheduler alone. -/
theorem Accounted.next {m m' : Mid} (h : Accounted env m) (hinv : Inv m')
    (hcontinues : m.worker.Continues m'.worker) (hready : m'.worker.ready = m.worker.ready)
    (hledger : Fair env m'.worker → LedgerInv env m.worker → LedgerInv env m'.worker) :
    Accounted env m' :=
  ⟨hinv, fun hfair => hready.trans (h.ready (hfair.of_continues hcontinues)),
    fun hfair => hledger hfair (h.ledger (hfair.of_continues hcontinues))⟩

/-- **Every action of the loop keeps the ledger.** -/
theorem ledger_loopRule (cfg : ServerConfig) (env : ℕ → Env) (T : ℕ → Prop) (K : Worker → Prop) :
    LoopRule cfg env T (fun _ => True) K (Accounted env) := by
  have hinv := inv_loopRule cfg env T K
  exact
    { isOpen := fun h hc => hinv.isOpen h.inv hc
      touch := fun readBuf readCap received closing ticks failed h hT hc =>
        h.next (hinv.touch _ _ _ _ _ _ h.inv hT hc) (.of_eq rfl rfl) rfl
          fun _ hledger => hledger.touch _ _ _ _ _ _ _
      handle := fun {m c header payload rc w'} h hT hc hvalid hhandles => by
        -- the packet that is handled is on record, so it called no async route
        have hsync (hfair : Fair env w') (hop : header.op = Op.rpc.code) :
            NotAsync (env m.worker.tick) header := by
          have hdispatching := hfair.of_continues hhandles.continues
          exact hdispatching.sync (List.mem_append_right _ (List.mem_singleton_self _)) hop
        have hdispatching : m.worker.Continues (m.worker.dispatching c header payload) :=
          ⟨⟨_, rfl⟩, id⟩
        have hcontinues : m.worker.Continues w' := hdispatching.trans hhandles.continues
        refine ⟨hinv.handle h.inv hT hc hvalid hhandles, fun hfair => ?_, fun hfair => ?_⟩
        · exact (hhandles.ready (hsync hfair)).trans (h.ready (hfair.of_continues hcontinues))
        · exact (h.ledger (hfair.of_continues hcontinues)).handle h.inv hc hvalid (hsync hfair)
            hhandles hfair.memory
      write := fun script h hT hc =>
        h.next (hinv.write script h.inv hT hc) (.of_eq rfl rfl) rfl
          fun _ hledger => hledger.write _ script
      close := fun {m c} h hU hc hwrites hclosing hsent hfds => by
        obtain ⟨-, -, -, -, -, -, -, -, hready⟩ := connectionDestroy_frame cfg m.worker c
        exact h.next (hinv.close h.inv hU hc hwrites hclosing hsent hfds)
          (connectionDestroy_continues _ _ _) hready fun _ hledger => hledger.destroy h.inv hc
      takeFds := fun h hK =>
        h.next (hinv.takeFds h.inv hK) (.of_eq rfl rfl) rfl
          fun _ hledger => hledger.later rfl le_rfl rfl rfl rfl rfl rfl
      add := fun {w fd fds} h =>
        h.next (hinv.add h.inv) (workerAddConnection_frame cfg env w fd).1
          (workerAddConnection_frame cfg env w fd).2 fun _ hledger => hledger.add h.inv
      takeDone := fun h =>
        h.next (hinv.takeDone h.inv) (.of_eq rfl rfl) rfl
          fun _ hledger => hledger.later rfl le_rfl rfl rfl rfl rfl rfl
      drain := fun {w d done} h =>
        h.next (hinv.drain h.inv) (drainOne_continues cfg env w d) (drainOne_ready cfg env w d)
          fun hfair hledger => hledger.drainOne h.inv hfair.memory
      accept := fun fds h =>
        h.next (hinv.accept fds h.inv) (.of_eq rfl rfl) rfl
          fun _ hledger => hledger.later rfl le_rfl rfl rfl rfl rfl rfl
      closes := fun _ => trivial
      complete := fun {w d} completion h hd =>
        h.next (hinv.complete completion h.inv hd) (complete_continues w d completion)
          (complete_undrained w d completion).2.2 fun _ hledger => hledger.complete hd completion
      resume := fun {w w' resume} h hresume => by
        obtain ⟨k, rest, call, hready, -, hcases⟩ := resumeCall_cases hresume
        have hcontinues : w.Continues w' := by
          rcases hcases with rfl | ⟨op, w₁, hattempts, rfl⟩
          · exact .of_eq rfl rfl
          · exact ⟨hattempts.continues.log, hattempts.continues.failed⟩
        -- a call was submitted, so an async route was called before
        have hnot (hfair : Fair env w') : False :=
          List.cons_ne_nil k rest
            (hready.symm.trans (h.ready (hfair.of_continues hcontinues)))
        exact ⟨hinv.resume h.inv hresume, fun hfair => (hnot hfair).elim,
          fun hfair => (hnot hfair).elim⟩
      takeWrites := fun h =>
        h.next (hinv.takeWrites h.inv) (.of_eq rfl rfl) rfl
          fun _ hledger => hledger.later rfl le_rfl rfl rfl rfl rfl rfl
      queued := fun h => hinv.queued h.inv
      flush := fun {w c writes} script h => by
        have hflush : w.Continues (flushWrite env script w c) ∧
            (flushWrite env script w c).ready = w.ready := by
          refine flushWrite_rule (P := fun w' => w.Continues w' ∧ w'.ready = w.ready)
            ⟨.of_eq rfl rfl, rfl⟩ ?_
          exact fun w' hw' _ => ⟨hw'.1.trans (.of_eq rfl rfl), hw'.2⟩
        exact h.next (hinv.flush script h.inv) hflush.1 hflush.2 fun _ hledger =>
          flushWrite_rule (hledger.setConn rfl id) fun w' hw' _ => hw'.write c script }

end Run

/-! ## The ledger of a run -/

/-- **The ledger of a worker.** -/
structure Ledger (env : ℕ → Env) (w : Worker) : Prop where
  /-- On a connection that is not marked for closing, the replies queued and the calls undrained
  are the requests dispatched, call id by call id. -/
  balanced : ∀ c ∈ w.connections, (w.conns c).closing = false →
    (repliesOf (w.conns c).inst w.log : Multiset UInt64) + (w.undrainedOf c : Multiset UInt64) =
      (requestsOf (w.conns c).inst w.log : Multiset UInt64)
  /-- Every reply is a RESPONSE or an ERROR on the connection of a dispatched packet. -/
  sourced : ∀ {target request op procId callId}, .reply target request op procId callId ∈ w.log →
    target = request.inst ∧ (op = .response ∨ op = .error) ∧
      ∃ header payload slotFree, .dispatched request header payload slotFree ∈ w.log
  /-- A reply carries the call id of its packet; a reply to an RPC carries its procedure, and is a
  RESPONSE exactly if the call succeeded. -/
  replies : ∀ {target request op procId callId header payload slotFree},
    .reply target request op procId callId ∈ w.log →
    .dispatched request header payload slotFree ∈ w.log →
    callId = header.callId ∧ (header.op = Op.rpc.code → procId = header.procId ∧
      (op = .response ↔ CallSucceeds (env request.tick) header payload slotFree
        (firstCompletion request w.log)))

theorem LedgerInv.ledger {env : ℕ → Env} {w : Worker} (h : LedgerInv env w) : Ledger env w where
  balanced c hc hclosing := by
    rw [Multiset.coe_add]
    exact Multiset.coe_eq_coe.mpr (h.balanced c hc hclosing)
  sourced hreply := by
    obtain ⟨htarget, hop, header, payload, slotFree, hmem, -⟩ := h.log.replies hreply
    exact ⟨htarget, hop, header, payload, slotFree, hmem⟩
  replies hreply hdispatched := by
    obtain ⟨-, -, header', payload', slotFree', hmem, hcall, hrpc⟩ := h.log.replies hreply
    obtain ⟨rfl, rfl, rfl⟩ := h.log.unique hdispatched hmem
    refine ⟨hcall, fun hop => ?_⟩
    obtain ⟨hproc, hall | ⟨ok, hfirst, hiff⟩⟩ := hrpc hop
    · exact ⟨hproc, hall _⟩
    · rw [hfirst]
      exact ⟨hproc, hiff⟩

/-- **One reply for each request**: in every run in which no async route is called, events are for
slots that are allocated and no buffer for a reply is refused, every request of a connection that
is not to be closed is answered once, or its deferred call is undrained. Deferred calls may be
completed by any thread, any number of times, until they are drained. -/
theorem one_reply_per_request (cfg : ServerConfig) {env : ℕ → Env} {labels : List Label} {s : Loop}
    (hevents : Machine.Meets (Loop.step cfg env) Allocated Loop.init labels)
    (hrun : Machine.exec (Loop.step cfg env) Loop.init labels = some s)
    (hsync : AllSync env s.worker.log) (hmemory : s.worker.queueFailed = false) :
    Ledger env s.worker := by
  have hinit : Accounted env workerInit.mid := by
    refine ⟨inv_workerInit, fun _ => rfl, fun _ => ⟨⟨?_, ?_, ?_⟩, ⟨?_, ?_⟩, ?_⟩⟩
    · exact fun e he => by cases he
    · exact fun he => by cases he
    · exact fun he => by cases he
    · exact fun d hd => by cases hd
    · exact fun d hd => by cases hd
    · exact fun c hc => by cases hc
  obtain ⟨haccounted, -⟩ :=
    (ledger_loopRule cfg env (fun _ => True) (fun _ => True)).exec hinit
      (hevents.mono fun s l h => ⟨h, .of_forall (fun _ => trivial) s l⟩) hrun
  exact (haccounted.ledger ⟨hsync, hmemory⟩).ledger

/-- A server with one procedure, whose handler defers every call. -/
def deferringEnv : Env :=
  .plenty (fun id => if id = 1 then some ⟨1, none, some 0, 0, none, false, true⟩ else none)
    (fun _ _ _ => ⟨-1, ⟨[], Nat.zero_le _⟩⟩) fun _ _ _ => ⟨0, []⟩

/-- The bytes of a call of the procedure `1` without arguments. -/
def callBytes (callId : UInt8) : List UInt8 :=
  [1, 0, 0, 0, 0, 0, 0, 0, 0, 1, 0, 0, 0, 0, 0, 0, 0, 0, 0, 0, 0, callId, 0, 0, 0, 0,
    0, 0, 0, 0, 0, 0, 0, 0]

theorem allSync_deferringEnv (log : List Entry) : AllSync (fun _ => deferringEnv) log := by
  intro request header payload slotFree _ _ route hroute
  simp only [deferringEnv, Env.plenty] at hroute
  split_ifs at hroute
  cases hroute
  exact .inl rfl

/-- Three calls and a PING. Of the calls one is failed and then completed, one is completed and
answered, and one is still undrained. -/
theorem one_reply_per_request_deferred :
    let labels := connecting 3 ++
      [.poll [.conn 0 ⟨true, false⟩],
        .event [.data (callBytes 7 ++ callBytes 8 ++ callBytes 9),
          .data (pingThenDisconnect.take 34)] [],
        .complete 0 (.fail none), .complete 0 (.complete ⟨[], Nat.zero_le _⟩), .schedule,
        .complete 2 (.complete ⟨[], Nat.zero_le _⟩), .finish fun _ => []]
    ∃ s, Machine.exec (Loop.step .plain fun _ => deferringEnv) Loop.init labels = some s ∧
      repliesOf 0 s.worker.log = [7, 7, 9] ∧ s.worker.undrainedOf 0 = [8] ∧
      Ledger (fun _ => deferringEnv) s.worker := by
  intro labels
  have hrun : (Machine.exec (Loop.step .plain fun _ => deferringEnv) Loop.init labels).map
      (fun s => (repliesOf 0 s.worker.log, s.worker.undrainedOf 0, s.worker.queueFailed)) =
      some ([7, 7, 9], [8], false) := by decide +kernel
  obtain ⟨s, hs, hcolumns⟩ := Option.map_eq_some_iff.mp hrun
  obtain ⟨hreplies, hundrained, hmemory⟩ : repliesOf 0 s.worker.log = [7, 7, 9] ∧
      s.worker.undrainedOf 0 = [8] ∧ s.worker.queueFailed = false := by simpa using hcolumns
  refine ⟨s, hs, hreplies, hundrained,
    one_reply_per_request .plain ?_ hs (allSync_deferringEnv _) hmemory⟩
  decide +kernel

/-- A batch holds two events for a connection, and the first read finds the end of the stream: the
connection is destroyed twice, and its slot is on the free list twice. Two connections then share the
slot; the first of them makes a deferred call, which is completed after the second was added. -/
def closedTwice : List Label :=
  connecting 3 ++
    [.poll [.conn 0 ⟨true, false⟩, .conn 0 ⟨true, false⟩], .event [.data []] [], .event [] [],
      .schedule, .finish fun _ => []] ++
    connecting 4 ++
    [.poll [.conn 0 ⟨true, false⟩], .event [.data (callBytes 7)] [], .schedule,
      .finish fun _ => []] ++
    connecting 5 ++
    [.complete 0 (.complete ⟨[], Nat.zero_le _⟩), .poll [.wake], .event [] []]

/-- **A reply without a request**: the third connection has sent nothing, is not to be closed, and
gets the reply to the call of the second. -/
theorem reply_without_request :
    ∃ s, Machine.exec (Loop.step .plain fun _ => deferringEnv) Loop.init closedTwice = some s ∧
      AllSync (fun _ => deferringEnv) s.worker.log ∧ s.worker.queueFailed = false ∧
      (0 ∈ s.worker.connections ∧ (s.worker.conns 0).inst = 2 ∧
        (s.worker.conns 0).closing = false) ∧
      requestsOf 2 s.worker.log = [] ∧ repliesOf 2 s.worker.log = [7] ∧
      s.worker.undrainedOf 2 = [] := by
  have hrun : (Machine.exec (Loop.step .plain fun _ => deferringEnv) Loop.init closedTwice).any
      (fun s => decide (s.worker.queueFailed = false ∧ (0 ∈ s.worker.connections ∧
        (s.worker.conns 0).inst = 2 ∧ (s.worker.conns 0).closing = false) ∧
        requestsOf 2 s.worker.log = [] ∧ repliesOf 2 s.worker.log = [7] ∧
        s.worker.undrainedOf 2 = [])) = true := by
    decide +kernel
  obtain ⟨s, hs, h⟩ := Machine.exists_of_any hrun
  exact ⟨s, hs, allSync_deferringEnv _, of_decide_eq_true h⟩

end Wirecall

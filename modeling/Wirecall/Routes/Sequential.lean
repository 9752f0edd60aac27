import Wirecall.Routes.Concurrent

/-!
# A call that runs alone

The atomic steps of a lookup or a mutation, taken one after the other with no other thread in
between, do what the functions of the table do. Other lookups may be inside meanwhile; they do not
step.

## Main results

* `lookup_alone`: **the steps of a lookup are `routesLookup`**
* `remove_alone`: **the steps of a removal are `routesRemove`**
* `addRoute_alone`: **the steps of an addition are `routesAddRoute`**
-/

namespace Wirecall

open Machine (Repeats)

section Alone

variable {s : Shared} {r : ℕ} {procId : UInt64} {mem : RouteMem} {old : List Node} {one : Bool}

theorem Shared.step_lookup (h : s.destroyed = false) (r : ℕ) :
    s.step (.lookup r) = lookupStep s r := by
  rw [Shared.step, h]
  rfl

theorem Shared.step_mutator (h : s.destroyed = false) : s.step .mutator = mutatorStep s := by
  rw [Shared.step, h]
  rfl

theorem Shared.step_startMutation (h : s.destroyed = false) (mem : RouteMem) (mutation : Mutation) :
    s.step (.startMutation mem mutation) = startMutation s mem mutation := by
  rw [Shared.step, h]
  rfl

/-! ## Lookups -/

/-- The walk along a chain ends at the first node of the id. -/
theorem walk_alone (hlive : s.destroyed = false) (seen : Option Route) (rest : List Node) :
    Repeats Shared.step (.lookup r) (s.put r (.walking procId seen rest))
      (s.put r (.found procId seen (rest.find? fun n => n.route.procId == procId))) := by
  have hstep (l : Lookup) := Shared.step_lookup (s := s.put r l) hlive r
  induction rest with
  | nil =>
    refine .single ((hstep _).trans ?_)
    simp only [lookupStep, Shared.put, Function.update_self, Function.update_idem, List.find?_nil]
  | cons node rest ih =>
    by_cases hid : node.route.procId = procId
    · -- two steps: the loop ends, and the node is copied
      rw [List.find?_cons_of_pos (by simpa using hid)]
      refine .head (t := s.put r (.matching procId seen node)) ((hstep _).trans ?_)
        (.single ((hstep _).trans ?_))
      · simp only [lookupStep, Shared.put, Function.update_self, Function.update_idem]
        rw [if_neg (not_not.mpr hid)]
      · simp only [lookupStep, Shared.put, Function.update_self, Function.update_idem]
    · rw [List.find?_cons_of_neg (by simpa using hid)]
      refine .head ((hstep _).trans ?_) ih
      simp only [lookupStep, Shared.put, Function.update_self, Function.update_idem]
      rw [if_pos hid]

/-- From the increment to the node that is copied out. -/
theorem search_alone (hlive : s.destroyed = false) (r : ℕ) (procId : UInt64) : ∃ seen,
    Repeats Shared.step (.lookup r) (s.put r (.entered procId))
      (s.put r (.found procId seen
        ((s.table.chainOf procId).find? fun n => n.route.procId == procId))) := by
  have hstep (l : Lookup) := Shared.step_lookup (s := s.put r l) hlive r
  refine ⟨s.table.entry procId, ?_⟩
  cases hpage : s.table.pages (pageIdx procId) with
  | none =>
    have hnil : s.table.chainOf procId = [] := by
      rw [Routes.chainOf, hpage]
      rfl
    rw [hnil]
    refine .single ((hstep _).trans ?_)
    simp only [lookupStep, Shared.put, Function.update_self, Function.update_idem, hpage,
      List.find?_nil]
  | some page =>
    refine .head (t := s.put r (.paged procId)) ((hstep _).trans ?_)
      (.head ((hstep _).trans ?_) (walk_alone hlive (s.table.entry procId) _))
    · simp only [lookupStep, Shared.put, Function.update_self, Function.update_idem, hpage]
    · simp only [lookupStep, Shared.put, Function.update_self, Function.update_idem]

/-- The last reader finds nobody in its way, and frees the retired list. -/
theorem last_alone (hlive : s.destroyed = false) (hnobody : s.owner = .nobody)
    (hcount : s.table.activeReaders = 0) (seen : Option Route) (result : Option Node) :
    Repeats Shared.step (.lookup r) (s.put r (.last procId seen result))
      { s.put r (.returned procId seen result) with table := reclaimRetired s.table } := by
  have hstep (l : Lookup) := Shared.step_lookup (s := s.put r l) hlive r
  -- the lock is taken, the count is read, and the list is freed
  refine .head (t := { s.put r (.checking procId seen result) with owner := .lookup r })
    ((hstep _).trans ?_)
    (.head (t := { s.put r (.freeing procId seen result) with owner := .lookup r }) ?_ (.single ?_))
  · simp only [lookupStep, Shared.put, Function.update_self, Function.update_idem, hnobody]
  · rw [Shared.step_lookup (by exact hlive)]
    simp only [lookupStep, Shared.put, Function.update_self, Function.update_idem]
    rw [if_neg (not_not.mpr hcount)]
  · rw [Shared.step_lookup (by exact hlive)]
    simp only [lookupStep, Shared.put, Function.update_self, Function.update_idem, hnobody]

/-- **The steps of a lookup are `routesLookup`.** -/
theorem lookup_alone (hlive : s.destroyed = false) (hnobody : s.owner = .nobody)
    (hidle : s.lookups r = .idle) (procId : UInt64) :
    ∃ t s', s.step (.beginLookup r procId) = some t ∧ Repeats Shared.step (.lookup r) t s' ∧
      s'.table = (routesLookup s.table procId).2 ∧ s'.owner = .nobody ∧
      ∃ seen result, s'.lookups r = .returned procId seen result ∧
        result.map Node.route = (routesLookup s.table procId).1 := by
  obtain ⟨count, hcount⟩ : ∃ count, s.table.activeReaders + 1 = count := ⟨_, rfl⟩
  obtain ⟨s₁, hs₁⟩ : ∃ s₁ : Shared, s₁ = { s with
    table := { s.table with activeReaders := count }
    inside := r :: s.inside } := ⟨_, rfl⟩
  obtain ⟨s₂, hs₂⟩ : ∃ s₂ : Shared, s₂ = { s₁ with
    table := { s₁.table with activeReaders := count - 1 }
    inside := s₁.inside.erase r } := ⟨_, rfl⟩
  have hlive₁ : s₁.destroyed = false := by rw [hs₁]; exact hlive
  have hlive₂ : s₂.destroyed = false := by rw [hs₂]; exact hlive₁
  have hbegin : s.step (.beginLookup r procId) = some (s₁.put r (.entered procId)) := by
    rw [Shared.step, hlive, hs₁, ← hcount]
    change beginLookup s r procId = _
    rw [beginLookup, hidle]
    rfl
  obtain ⟨seen, hsearch⟩ := search_alone hlive₁ r procId
  obtain ⟨result, hresult⟩ : ∃ result,
    (s₁.table.chainOf procId).find? (fun n => n.route.procId == procId) = result := ⟨_, rfl⟩
  rw [hresult] at hsearch
  have hleave : Repeats Shared.step (.lookup r) (s₁.put r (.found procId seen result))
      (s₂.put r (if count = 1 then .last procId seen result else .returned procId seen result)) := by
    refine .single ((Shared.step_lookup (by exact hlive₁) r).trans ?_)
    rw [lookupStep, Shared.put_self]
    simp only [leaveLookup, Shared.put, Function.update_idem, hs₂, hs₁]
  have hfound : result.map Node.route = (routesLookup s.table procId).1 := by
    rw [← hresult, hs₁]
    rfl
  have htable : (routesLookup s.table procId).2 =
      if count = 1 then freeRetired s₂.table else s₂.table := by
    rw [routesLookup, hcount, hs₂, hs₁]
  have hrun := hsearch.trans hleave
  by_cases hone : count = 1
  · have hzero : s₂.table.activeReaders = 0 := by
      rw [hs₂, hone]
      rfl
    have hnobody₂ : s₂.owner = .nobody := by rw [hs₂, hs₁]; exact hnobody
    rw [if_pos hone] at hrun htable
    refine ⟨_, _, hbegin, hrun.trans (last_alone hlive₂ hnobody₂ hzero seen result), ?_, hnobody₂,
      seen, result, Shared.put_self _ _ _, hfound⟩
    rw [htable, freeRetired_eq, if_neg (not_not.mpr hzero)]
  · rw [if_neg hone] at hrun htable
    refine ⟨_, _, hbegin, hrun, htable.symm, ?_, seen, result, Shared.put_self _ _ _, hfound⟩
    rw [hs₂, hs₁]
    exact hnobody

/-! ## Mutations -/

/-- The end of a mutation is `retireRoute`. -/
theorem retire_alone (hlive : s.destroyed = false)
    (howner : s.owner = .mutator (.retiring mem old one procId)) :
    Repeats Shared.step .mutator s
      { s with table := (retireRoute mem s.table old one procId).2, owner := .nobody } := by
  have hstep {owner : Owner} {table : Routes} :=
    Shared.step_mutator (s := { s with table := table, owner := owner }) hlive
  have hfirst := (Shared.step_mutator hlive).trans (mutatorStep.eq_def s)
  simp only [howner] at hfirst
  unfold retireRoute
  split_ifs with hempty hcount hmem
  · rw [if_pos hempty] at hfirst
    exact .single hfirst
  · rw [if_neg hempty, if_pos hcount] at hfirst
    exact .head hfirst (.single hstep)
  · -- the chain is pushed, and the count that was read is still there
    rw [if_neg hempty, if_neg hcount] at hfirst
    simp only [freeRetired_eq]
    rw [if_pos hcount]
    exact .head hfirst (.head (hstep.trans (if_pos hmem)) (.single (hstep.trans (if_pos hcount))))
  · rw [if_neg hempty, if_neg hcount] at hfirst
    exact .head hfirst (.single (hstep.trans (if_neg hmem)))

/-- The old chain of a head that was published is retired. -/
theorem publishHead_alone (hlive : s.destroyed = false) (page : UInt32 → List Node)
    (head published : List Node) :
    Repeats Shared.step .mutator
      { publishHead s mem procId page head one with published := published }
      { s with
        table := (retireRoute mem (s.table.publish procId page head) (s.table.chainOf procId) one
          procId).2
        owner := .nobody
        published := published } :=
  retire_alone (s := { publishHead s mem procId page head one with published := published }) hlive
    rfl

/-- **The steps of a removal are `routesRemove`.** -/
theorem remove_alone (hlive : s.destroyed = false) (hnobody : s.owner = .nobody) (mem : RouteMem)
    (procId : UInt64) : ∃ t, s.step (.startMutation mem (.remove procId)) = some t ∧
      Repeats Shared.step .mutator t
        { s with table := (routesRemove mem s.table procId).2, owner := .nobody } := by
  have hstart : s.step (.startMutation mem (.remove procId)) =
      some { s with owner := .mutator (.removing mem procId) } := by
    rw [Shared.step_startMutation hlive]
    unfold startMutation
    rw [hnobody]
  refine ⟨_, hstart, ?_⟩
  have hfirst : Shared.step { s with owner := .mutator (.removing mem procId) } .mutator =
      some (unlinkNode { s with owner := .mutator (.removing mem procId) } mem procId) :=
    Shared.step_mutator hlive
  rcases hcopy : copyChain mem.copy procId s.table.nextAddr (s.table.chainOf procId) [] false with
    ⟨rc, copies, removed⟩
  simp only [unlinkNode, hcopy] at hfirst
  simp only [routesRemove, hcopy]
  cases rc with
  | err => exact .single hfirst
  | ok =>
    cases hpage : s.table.pages (pageIdx procId) with
    | none =>
      simp only [hpage] at hfirst ⊢
      exact .single hfirst
    | some page =>
      cases removed with
      | false =>
        simp only [hpage] at hfirst ⊢
        exact .single hfirst
      | true =>
        simp only [hpage] at hfirst ⊢
        exact .head hfirst (retire_alone hlive rfl)

/-- Storing a page that is there changes nothing. -/
theorem withPage_of_some {table : Routes} {q : UInt64} {page : UInt32 → List Node}
    (hpage : table.pages (pageIdx q) = some page) : table.withPage q = table := by
  have hslot : table.chainOf q = page (slotIdx q) := by
    rw [Routes.chainOf, hpage]
    rfl
  rw [Routes.withPage, Routes.publish, hslot, hpage, Option.getD_some, Function.update_eq_self,
    ← hpage, Function.update_eq_self]

theorem withPage_of_none {table : Routes} {q : UInt64} (hpage : table.pages (pageIdx q) = none) :
    table.withPage q =
      { table with pages := Function.update table.pages (pageIdx q) (some fun _ => []) } := by
  have hslot : table.chainOf q = [] := by
    rw [Routes.chainOf, hpage]
    rfl
  rw [Routes.withPage, Routes.publish, hslot, hpage, Option.getD_none]
  congr 2
  exact congrArg some (Function.update_eq_self (slotIdx q) fun _ => [])

theorem pages_withPage (table : Routes) (q : UInt64) :
    ∃ page, (table.withPage q).pages (pageIdx q) = some page :=
  ⟨_, by rw [Routes.withPage, publish_pages, Function.update_self]⟩

/-- An addition does the same once its page is stored. -/
theorem routesAddRoute_withPage {table : Routes} {node : Node}
    (h : ¬ (table.pages (pageIdx node.route.procId) = none ∧ mem.page = false)) :
    routesAddRoute mem (table.withPage node.route.procId) node = routesAddRoute mem table node := by
  obtain ⟨page, hpage⟩ := pages_withPage table node.route.procId
  have hstored : ¬ ((table.withPage node.route.procId).pages (pageIdx node.route.procId) = none ∧
      mem.page = false) := by
    rw [hpage]
    exact fun h => by cases h.1
  have hnext : (table.withPage node.route.procId).nextAddr = table.nextAddr := rfl
  rw [routesAddRoute_eq h, routesAddRoute_eq hstored, withPage_of_some hpage, chainOf_withPage,
    getD_withPage, hnext]

/-- The steps from the copying loop on, with the page stored. -/
theorem link_alone {node : Node} {page : UInt32 → List Node} (hlive : s.destroyed = false)
    (howner : s.owner = .mutator (.linking mem node))
    (hpage : s.table.pages (pageIdx node.route.procId) = some page) : ∃ published,
      Repeats Shared.step .mutator s
        { s with
          table := (routesAddRoute mem s.table node).2
          owner := .nobody
          published := published } := by
  have hfirst : s.step .mutator = some (linkNode s mem node) := by
    rw [Shared.step_mutator hlive]
    unfold mutatorStep
    rw [howner]
  have hadd : routesAddRoute mem s.table node = _ :=
    routesAddRoute_eq (by rw [hpage]; exact fun h => by cases h.1)
  rcases hcopy : copyChain mem.copy node.route.procId s.table.nextAddr
    (s.table.chainOf node.route.procId) [] false with ⟨rc, copies, replaced⟩
  simp only [linkNode, hcopy] at hfirst
  rw [hcopy, withPage_of_some hpage] at hadd
  rw [hadd]
  cases rc with
  | err => exact ⟨s.published, .single hfirst⟩
  | ok =>
    exact ⟨node :: s.published,
      .head hfirst (publishHead_alone (s := s.allocate copies.length) hlive _ _ _)⟩

/-- **From the allocated node on, the steps of an addition are `routesAddRoute`.** -/
theorem addRoute_alone {node : Node} (hlive : s.destroyed = false)
    (howner : s.owner = .mutator (.adding mem node)) : ∃ published,
      Repeats Shared.step .mutator s
        { s with
          table := (routesAddRoute mem s.table node).2
          owner := .nobody
          published := published } := by
  have hfirst : s.step .mutator = some (storePage s mem node) := by
    rw [Shared.step_mutator hlive]
    unfold mutatorStep
    rw [howner]
  by_cases hmissing : s.table.pages (pageIdx node.route.procId) = none ∧ mem.page = false
  · -- there is no memory for the page
    refine ⟨s.published, .single (hfirst.trans ?_)⟩
    simp only [storePage, routesAddRoute, hmissing.1, hmissing.2, Bool.false_eq_true, if_false,
      and_self, if_true]
    rfl
  · -- the page is there or gets stored; the rest is the same from both
    have hstored : storePage s mem node = { s with
        table := s.table.withPage node.route.procId
        owner := .mutator (.linking mem node) } := by
      cases hpage : s.table.pages (pageIdx node.route.procId) with
      | some page => simp only [storePage, hpage, withPage_of_some hpage]
      | none =>
        have hmem : mem.page = true := Bool.of_not_eq_false fun hmem => hmissing ⟨hpage, hmem⟩
        simp only [storePage, hpage, hmem, if_true, withPage_of_none hpage]
    rw [hstored] at hfirst
    obtain ⟨page, hpage⟩ := pages_withPage s.table node.route.procId
    obtain ⟨published, hlink⟩ := link_alone (s := { s with
      table := s.table.withPage node.route.procId
      owner := .mutator (.linking mem node) }) hlive rfl hpage
    rw [routesAddRoute_withPage hmissing] at hlink
    exact ⟨published, .head hfirst hlink⟩

end Alone

end Wirecall

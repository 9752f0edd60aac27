import Mathlib

/-!
# Runs of labelled machines

A machine is a partial step function on states; its labels carry everything the environment
decides. A run is a list of labels, and a condition on the state before a step and its label can
be asked of every step of a run.

## Main definitions

* `exec step s ls`: the state after the labels `ls`, if each step is enabled
* `Meets step cond s ls`: every step of the run meets `cond`
* `Repeats step l s s'`: some number of steps with one label

## Main results

* `exec_invariant`: what every step that meets the condition preserves holds after the run
-/

namespace Machine

variable {S L : Type*} (step : S → L → Option S)

/-- The state after a list of labels. -/
def exec : S → List L → Option S
  | s, [] => some s
  | s, l :: ls => (step s l).bind fun s' => exec s' ls

/-- Every step of the run meets the condition. -/
def Meets (cond : S → L → Prop) : S → List L → Prop
  | _, [] => True
  | s, l :: ls => cond s l ∧ ∀ s', step s l = some s' → Meets cond s' ls

/-- A condition that can be decided can be decided along a run. -/
instance decidableMeets (cond : S → L → Prop) [∀ s l, Decidable (cond s l)] :
    ∀ (s : S) (ls : List L), Decidable (Meets step cond s ls)
  | _, [] => .isTrue trivial
  | s, l :: ls =>
    match h : step s l with
    | none => decidable_of_iff (cond s l)
        ⟨fun hcond => ⟨hcond, fun _ hs' => by simp [h] at hs'⟩, fun hmeets => hmeets.1⟩
    | some t =>
      have := decidableMeets cond t ls
      decidable_of_iff (cond s l ∧ Meets step cond t ls)
        ⟨fun hmeets => ⟨hmeets.1, fun s' hs' => Option.some.inj (h.symm.trans hs') ▸ hmeets.2⟩,
          fun hmeets => ⟨hmeets.1, hmeets.2 t h⟩⟩

variable {step} {cond : S → L → Prop} {s s' : S} {l : L} {ls : List L}

theorem exec_cons_eq_some : exec step s (l :: ls) = some s' ↔
    ∃ t, step s l = some t ∧ exec step t ls = some s' := by
  rw [exec, Option.bind_eq_some_iff]

/-- A run can be cut at any point. -/
theorem exec_append (ls ls' : List L) :
    exec step s (ls ++ ls') = (exec step s ls).bind fun t => exec step t ls' := by
  induction ls generalizing s with
  | nil => rfl
  | cons l ls ih =>
    simp only [List.cons_append, exec, Option.bind_assoc]
    congr 1
    funext t
    exact ih

/-- **Invariant rule**: what every step that meets the condition preserves holds after the run. -/
theorem exec_invariant {P : S → Prop}
    (hstep : ∀ s l s', P s → cond s l → step s l = some s' → P s')
    (hs : P s) (hmeets : Meets step cond s ls) (hexec : exec step s ls = some s') : P s' := by
  induction ls generalizing s with
  | nil => exact Option.some.inj hexec ▸ hs
  | cons l ls ih =>
    obtain ⟨t, ht, hrest⟩ := exec_cons_eq_some.mp hexec
    exact ih (hstep s l t hs hmeets.1 ht) (hmeets.2 t ht) hrest

/-- A condition that holds along a run holds along it for every weaker condition. -/
theorem Meets.mono {cond' : S → L → Prop} (himp : ∀ s l, cond s l → cond' s l)
    (h : Meets step cond s ls) : Meets step cond' s ls := by
  induction ls generalizing s with
  | nil => trivial
  | cons l ls ih => exact ⟨himp s l h.1, fun t ht => ih (h.2 t ht)⟩

/-- A run that was evaluated, and what was found at its end. -/
theorem exists_of_any {p : S → Bool} (h : (exec step s ls).any p = true) :
    ∃ s', exec step s ls = some s' ∧ p s' = true := by
  cases hexec : exec step s ls with
  | none =>
    rw [hexec] at h
    cases h
  | some s' =>
    rw [hexec] at h
    exact ⟨s', rfl, h⟩

theorem Meets.of_forall (h : ∀ s, ∀ l ∈ ls, cond s l) : Meets step cond s ls := by
  induction ls generalizing s with
  | nil => trivial
  | cons l ls ih =>
    exact ⟨h s l List.mem_cons_self, fun _ _ => ih fun s l hl => h s l (List.mem_cons_of_mem _ hl)⟩

/-- A run that is cut meets a condition if both parts do. -/
theorem Meets.append {ls' : List L} (h : Meets step cond s ls)
    (h' : ∀ t, exec step s ls = some t → Meets step cond t ls') :
    Meets step cond s (ls ++ ls') := by
  induction ls generalizing s with
  | nil => exact h' s rfl
  | cons l ls ih =>
    refine ⟨h.1, fun t ht => ih (h.2 t ht) fun u hu => h' u ?_⟩
    exact exec_cons_eq_some.mpr ⟨t, ht, hu⟩

/-- Some number of steps with the label lead from `s` to `s'`. -/
def Repeats (step : S → L → Option S) (l : L) (s s' : S) : Prop :=
  ∃ k, exec step s (List.replicate k l) = some s'

theorem Repeats.refl (s : S) : Repeats step l s s := ⟨0, rfl⟩

theorem Repeats.head {t : S} (hstep : step s l = some t) (h : Repeats step l t s') :
    Repeats step l s s' := by
  obtain ⟨k, hk⟩ := h
  refine ⟨k + 1, ?_⟩
  rw [List.replicate_succ]
  exact exec_cons_eq_some.mpr ⟨t, hstep, hk⟩

theorem Repeats.single (hstep : step s l = some s') : Repeats step l s s' :=
  .head hstep (.refl s')

theorem Repeats.trans {t : S} (h : Repeats step l s t) (h' : Repeats step l t s') :
    Repeats step l s s' := by
  obtain ⟨k, hk⟩ := h
  obtain ⟨k', hk'⟩ := h'
  refine ⟨k + k', ?_⟩
  rw [List.replicate_add, exec_append, hk]
  exact hk'

end Machine

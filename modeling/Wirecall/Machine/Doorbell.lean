import Mathlib.Data.List.Basic

/-!
# Doorbells

A thread sleeps until something happens. Other threads leave things for it, and ring after they
have: one that has left something and not rung yet still owes a ring. The sleeper looks for what was
left only when it hears the bell, so a ring must not be lost, in whatever state it finds the bell.

## Main definitions

* `Doorbell`: what is asked of a bell
* `Doorbell.Called`: the bell was rung, or a ring is owed

## Main results

* `Doorbell.Called.move`, `Doorbell.Called.missed`: only a sleeper that hears the bell takes a call
  back
* `Doorbell.Called.mem_owed`: at a bell that keeps silent, what was left is owed a ring
-/

namespace Machine

/-- **A doorbell.** Whoever left something calls `ring`; the sleeper is in `poll`, which comes back
with whether the bell was heard; `move` is all that happens otherwise. -/
structure Doorbell (β μ π : Type*) where
  ring : β → β
  move : β → μ → Option β
  poll : β → π → Option (Bool × β)
  /-- What holds of the bell at all times. -/
  Ok : β → Prop
  /-- The bell was rung and not heard since. -/
  Rung : β → Prop
  /-- The bell does not bring the sleeper back. -/
  Silent : β → Prop
  ok_ring : ∀ {b}, Ok b → Ok (ring b)
  ok_move : ∀ {b b' m}, Ok b → move b m = some b' → Ok b'
  ok_poll : ∀ {b b' p heard}, Ok b → poll b p = some (heard, b') → Ok b'
  rung_ring : ∀ {b}, Ok b → Rung (ring b)
  rung_move : ∀ {b b' m}, Ok b → move b m = some b' → Rung b → Rung b'
  rung_missed : ∀ {b b' p}, Ok b → poll b p = some (false, b') → Rung b → Rung b'
  not_silent : ∀ {b}, Ok b → Rung b → ¬ Silent b

namespace Doorbell

variable {β μ π κ : Type*} {bell : Doorbell β μ π} {b b' : β} {owed owed' : List κ} {k k' : κ}

variable (bell) in
/-- The bell was rung, or a ring for `k` is owed. -/
def Called (b : β) (owed : List κ) (k : κ) : Prop := bell.Rung b ∨ k ∈ owed

/-- Something was left. -/
theorem Called.posted : bell.Called b (owed ++ [k]) k :=
  .inr (List.mem_append_right _ List.mem_cons_self)

/-- Something else was left. -/
theorem Called.append (h : bell.Called b owed k) : bell.Called b (owed ++ owed') k :=
  h.imp_right fun hmem => List.mem_append_left _ hmem

/-- Whoever rings calls for all. -/
theorem Called.ring (hok : bell.Ok b) : bell.Called (bell.ring b) owed k :=
  .inl (bell.rung_ring hok)

theorem Called.move {m : μ} (h : bell.Called b owed k) (hok : bell.Ok b)
    (hmove : bell.move b m = some b') : bell.Called b' owed k :=
  h.imp_left (bell.rung_move hok hmove)

/-- The sleeper came back and did not hear the bell. -/
theorem Called.missed {p : π} (h : bell.Called b owed k) (hok : bell.Ok b)
    (hpoll : bell.poll b p = some (false, b')) : bell.Called b' owed k :=
  h.imp_left (bell.rung_missed hok hpoll)

/-- **The ring is still to come** if the bell does not bring the sleeper back. -/
theorem Called.mem_owed (h : bell.Called b owed k) (hok : bell.Ok b) (hsilent : bell.Silent b) :
    k ∈ owed := by
  rcases h with hrung | hmem
  · exact absurd hsilent (bell.not_silent hok hrung)
  · exact hmem

end Doorbell

end Machine

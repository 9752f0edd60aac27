import Wirecall.Payload.Appends

/-!
# The capacity of a writer

`writer_reserve` doubles the capacity from 64 until the bytes fit, with a branch that stops at the
limit of 1 MiB. The limit is itself reached by doubling, so that branch is never taken: a capacity
that is too small is at most half the limit.

## Main definitions

* `Writer.Sized`: what holds of the length and the capacity

## Main results

* `writerGrow_pow`: the loop goes from one power of two to another
* `Appending.step_sized`: every call keeps the length and the capacity in order
* `writer_growth`: **the capacity in every reachable state**, and what a push needs
-/

namespace Wirecall

/-- The bytes fit the buffer, and its capacity was doubled from 64 up to the limit at most. -/
structure Writer.Sized (w : Writer) : Prop where
  len_le : w.len ≤ w.cap
  cap_eq : w.cap = 0 ∨ ∃ k ≤ 14, w.cap = 64 * 2 ^ k

section Sized

variable {mem : Mem} {w w' : Writer} {data : List UInt8} {cap need fuel : ℕ}

theorem Writer.Sized.cap_le (h : w.Sized) : w.cap ≤ 2 ^ 20 := by
  obtain hzero | ⟨k, hk, hcap⟩ := h.cap_eq
  · rw [hzero]
    exact Nat.zero_le _
  · calc w.cap = 64 * 2 ^ k := hcap
      _ ≤ 64 * 2 ^ 14 := Nat.mul_le_mul_left 64 (Nat.pow_le_pow_right (by decide) hk)
      _ = 2 ^ 20 := by decide

/-- A capacity that is below what is needed can be doubled once more. -/
theorem lt_of_pow_lt {k : ℕ} (hneed : need ≤ maxPayloadSize) (hlt : 64 * 2 ^ k < need) : k < 14 := by
  -- the limit is `64 * 2 ^ 14`
  have hpow : 64 * 2 ^ k < 64 * 2 ^ 14 := lt_of_lt_of_le hlt hneed
  exact (Nat.pow_lt_pow_iff_right (by decide)).mp (Nat.lt_of_mul_lt_mul_left hpow)

/-- **The growth loop goes from one power of two to another**, whatever the number of turns. -/
theorem writerGrow_pow (hneed : need ≤ maxPayloadSize) (hcap : ∃ k ≤ 14, cap = 64 * 2 ^ k) :
    ∃ k ≤ 14, writerGrow fuel cap need = 64 * 2 ^ k := by
  induction fuel generalizing cap with
  | zero => exact hcap
  | succ fuel ih =>
    rw [writerGrow]
    split_ifs with hlt hclamp
    · -- the branch at the limit gives the limit
      exact ⟨14, le_rfl, rfl⟩
    · obtain ⟨k, -, rfl⟩ := hcap
      exact ih ⟨k + 1, lt_of_pow_lt hneed hlt, by rw [pow_succ, Nat.mul_assoc]⟩
    · exact hcap

/-- With a turn for each byte that is missing the loop is over, and more turns change nothing. -/
theorem writerGrow_fuel {more : ℕ} (hpos : 0 < cap) (hfuel : need ≤ cap + fuel)
    (hmore : fuel ≤ more) : writerGrow more cap need = writerGrow fuel cap need := by
  induction fuel generalizing cap more with
  | zero =>
    -- the loop condition is false from the start
    cases more with
    | zero => rfl
    | succ more => rw [writerGrow, writerGrow, if_neg (by omega)]
  | succ fuel ih =>
    obtain ⟨more, rfl⟩ : ∃ m, more = m + 1 := ⟨more - 1, by omega⟩
    rw [writerGrow, writerGrow]
    split_ifs
    · rfl
    · exact ih (by omega) (by omega) (by omega)
    · rfl

/-- The capacity the loop starts from. -/
def Writer.startCap (w : Writer) : ℕ := if w.cap ≠ 0 then w.cap else 64

theorem Writer.startCap_pos (w : Writer) : 0 < w.startCap := by
  unfold Writer.startCap
  split_ifs with hcap
  · exact Nat.pos_of_ne_zero hcap
  · decide

theorem Writer.Sized.nextCap (h : w.Sized) (hneed : need ≤ maxPayloadSize) :
    ∃ k ≤ 14, writerNextCap w need = 64 * 2 ^ k := by
  apply writerGrow_pow hneed
  split_ifs with hcap
  · exact h.cap_eq.resolve_left hcap
  · exact ⟨0, by decide, rfl⟩

theorem Writer.Sized.reserve {extra : ℕ} (h : w.Sized) : (writerReserve mem w extra).2.Sized := by
  unfold writerReserve
  by_cases hguard : extra > maxPayloadSize ∨ w.len > maxPayloadSize - extra
  · rw [if_pos hguard]
    exact h
  · rw [if_neg hguard]
    have hneed : w.len + extra ≤ maxPayloadSize := by omega
    dsimp only
    split_ifs
    · exact h
    · exact ⟨(Nat.le_add_right _ _).trans (le_writerNextCap w hneed), .inr (h.nextCap hneed)⟩
    · exact h

theorem Writer.Sized.push (h : w.Sized) : (writerPush mem w data).2.Sized := by
  have hreserve : (writerReserve mem w data.length).2.Sized := h.reserve
  unfold writerPush
  rcases hok : writerReserve mem w data.length with ⟨rc, w₁⟩
  rw [hok] at hreserve
  cases rc with
  | err => exact hreserve
  | ok =>
    obtain ⟨hdata, hfits, -⟩ := writerReserve_eq_ok hok
    refine ⟨?_, hreserve.cap_eq⟩
    show (w₁.data ++ data).length ≤ w₁.cap
    rw [hdata, List.length_append]
    exact hfits

theorem Writer.Sized.blob {type : ValueType} {blob : Blob} (h : w.Sized) :
    (writerBlob type mem w blob).2.Sized := by
  have hfront : (writerPush mem w (type.code :: putU32 blob.len)).2.Sized := h.push
  unfold writerBlob
  generalize writerPush mem w (type.code :: putU32 blob.len) = front at hfront
  obtain ⟨rc, w₁⟩ := front
  cases rc with
  | err => exact hfront
  | ok => exact hfront.push

theorem Writer.Sized.value (h : w.Sized) (v : Value) : (writeValue mem w v).2.Sized := by
  cases v with
  | null => exact h.push
  | bool => exact h.push
  | i64 => exact h.push
  | u64 => exact h.push
  | f64 => exact h.push
  | bytes => exact h.blob
  | string => exact h.blob

/-- A push is refused at the limit, and only there when its request for memory is granted. -/
theorem writerPush_refused_iff (hmem : mem (writerNextCap w (w.len + data.length)) = true) :
    (writerPush mem w data).1 = .err ↔ maxPayloadSize < w.len + data.length := by
  rw [writerPush_eq]
  split_ifs with hreserves
  · exact iff_of_false (fun herr => by cases herr) (not_lt.mpr hreserves.1)
  · refine iff_of_true rfl (not_le.mp fun hmax => ?_)
    exact hreserves ⟨hmax, .inr hmem⟩

end Sized

/-- **Every call keeps the length and the capacity in order.** -/
theorem Appending.step_sized {s s' : Appending} {call : WriterCall} (h : s.writer.Sized)
    (hstep : s.step call = some s') : s'.writer.Sized := by
  have hinit : writerInit.Sized := ⟨le_rfl, .inl rfl⟩
  cases call with
  | append mem v =>
    have hvalue : (writeValue mem s.writer v).2.Sized := h.value v
    rcases hwrite : writeValue mem s.writer v with ⟨rc, w⟩
    simp only [Appending.step, hwrite] at hstep
    rw [hwrite] at hvalue
    cases rc with
    | ok => cases hstep; exact hvalue
    | err => cases hstep; exact hvalue
  | reset =>
    cases hstep
    exact ⟨Nat.zero_le _, h.cap_eq⟩
  | free => cases hstep; exact hinit
  | init => cases hstep; exact hinit

/-- **The capacity of a writer** in every state that calls can reach: the length is within the
capacity, the capacity is zero or a power of two from 64 to 1 MiB, the growth loop ends with room for
what it is asked for, and a push whose request for memory is granted is refused exactly at the limit. -/
theorem writer_growth {calls : List WriterCall} {s : Appending}
    (hexec : Machine.exec Appending.step .init calls = some s) :
    s.writer.len ≤ s.writer.cap ∧ s.writer.cap ≤ 2 ^ 20 ∧
    (s.writer.cap = 0 ∨ ∃ k, s.writer.cap = 64 * 2 ^ k) ∧
    (∀ extra, ¬ (extra > maxPayloadSize ∨ s.writer.len > maxPayloadSize - extra) →
      s.writer.len + extra ≤ writerNextCap s.writer (s.writer.len + extra) ∧
      ∀ turns ≥ s.writer.len + extra,
        writerGrow turns s.writer.startCap (s.writer.len + extra) =
          writerNextCap s.writer (s.writer.len + extra)) ∧
    ∀ (mem : Mem) (data : List UInt8),
      mem (writerNextCap s.writer (s.writer.len + data.length)) = true →
        ((writerPush mem s.writer data).1 = .err ↔ s.writer.len + data.length > 2 ^ 20) := by
  have hsized : s.writer.Sized := by
    have hmeets : Machine.Meets Appending.step (fun _ _ => True) .init calls :=
      .of_forall fun _ _ _ => trivial
    refine Machine.exec_invariant (P := fun s => s.writer.Sized) ?_ ⟨le_rfl, .inl rfl⟩ hmeets hexec
    intro s call s' h _ hstep
    exact Appending.step_sized h hstep
  refine ⟨hsized.len_le, hsized.cap_le, ?_, ?_, ?_⟩
  · exact hsized.cap_eq.imp_right fun ⟨k, _, hk⟩ => ⟨k, hk⟩
  · intro extra hadmitted
    refine ⟨le_writerNextCap _ (by omega), ?_⟩
    intro turns hturns
    exact writerGrow_fuel s.writer.startCap_pos (Nat.le_add_left _ _) hturns
  · intro mem data hmem
    exact writerPush_refused_iff hmem

/-- A writer that has taken sixty bytes. -/
theorem writer_growth_sixty : ∃ s,
    Machine.exec Appending.step .init [.append (fun _ => true) (.bytes sixtyBytes)] = some s ∧
    s.writer.len = 65 ∧ s.writer.cap = 128 ∧
    ∀ data : List UInt8, (writerPush (fun _ => true) s.writer data).1 = .err ↔
      s.writer.len + data.length > 2 ^ 20 := by
  obtain ⟨s, hexec, hs⟩ := Machine.exists_of_any
    (p := fun s => s.writer.len = 65 ∧ s.writer.cap = 128)
    (show (Machine.exec Appending.step .init
      [.append (fun _ => true) (.bytes sixtyBytes)]).any _ = true by decide)
  obtain ⟨hlen, hcap⟩ := of_decide_eq_true hs
  exact ⟨s, hexec, hlen, hcap, fun data => (writer_growth hexec).2.2.2.2 _ data rfl⟩

end Wirecall

import Mathlib

/-!
# Blocking stream sockets

A socket gives its caller a part of what was asked for, is interrupted, or fails. The list of its
cuts says which, call after call; when the list ends, the socket does all it is asked for.

## Main definitions

* `Cut`: what one call of a socket comes to
* `Inbound`, `Inbound.recv`: a stream that is read in parts
* `Outbound`, `Outbound.send`: a stream that is written in parts

## Main results

* `Inbound.recv_outcome`: a call takes elements from the front of the stream, or nothing
* `Inbound.recv_cases`: a call that does not fail takes some, or is interrupted
* `Outbound.send_outcome`: a call accepts the front of what it is offered, or nothing
* `Outbound.send_cases`: a call that does not fail accepts some, or is interrupted
-/

namespace Socket

variable {α : Type*}

/-- What one call comes to. -/
inductive Cut where
  /-- At most `n + 1` elements are moved. -/
  | part (n : ℕ)
  | interrupted
  | error
  deriving DecidableEq, Repr

/-- No call fails. -/
def Clean (cuts : List Cut) : Prop := ∀ cut ∈ cuts, cut ≠ .error

instance (cuts : List Cut) : Decidable (Clean cuts) :=
  inferInstanceAs (Decidable (∀ cut ∈ cuts, cut ≠ .error))

theorem Clean.suffix {cuts cuts' : List Cut} (h : Clean cuts) (hsuffix : cuts' <:+ cuts) :
    Clean cuts' := fun cut hcut => h cut (hsuffix.subset hcut)

theorem Clean.tail {cut : Cut} {cuts : List Cut} (h : Clean (cut :: cuts)) : Clean cuts :=
  fun c hc => h c (List.mem_cons_of_mem _ hc)

/-! ## Receiving -/

/-- The elements that are still to be read, and how the calls cut them. After the last element
comes the end of the stream. -/
structure Inbound (α : Type*) where
  bytes : List α
  cuts : List Cut

/-- The result of a call that receives. -/
inductive Recv (α : Type*) where
  | data (bytes : List α)
  | interrupted
  | error

/-- A call with room for `room` elements. -/
def Inbound.recv (s : Inbound α) (room : ℕ) : Recv α × Inbound α :=
  match s.cuts with
  | [] => (.data (s.bytes.take room), ⟨s.bytes.drop room, []⟩)
  | .part n :: cuts =>
    (.data (s.bytes.take (min (n + 1) room)), ⟨s.bytes.drop (min (n + 1) room), cuts⟩)
  | .interrupted :: cuts => (.interrupted, ⟨s.bytes, cuts⟩)
  | .error :: cuts => (.error, ⟨s.bytes, cuts⟩)

/-- How many calls there can be before the stream ends. -/
def Inbound.size (s : Inbound α) : ℕ := s.bytes.length + s.cuts.length

/-- **Any call** takes elements from the front of the stream, as many as there is room for at most
and none only at its end, or it takes nothing. -/
theorem Inbound.recv_outcome {s s' : Inbound α} {room : ℕ} {r : Recv α} (hroom : 0 < room)
    (h : s.recv room = (r, s')) : s'.cuts <:+ s.cuts ∧
      ((∃ bytes, r = .data bytes ∧ s.bytes = bytes ++ s'.bytes ∧ bytes.length ≤ room ∧
          (bytes = [] → s.bytes = [])) ∨
        ((r = .interrupted ∨ r = .error) ∧ s'.bytes = s.bytes)) := by
  have hdata (k : ℕ) (hk : 0 < k) (hle : k ≤ room) :
      ∃ bytes, Recv.data (s.bytes.take k) = .data bytes ∧ s.bytes = bytes ++ s.bytes.drop k ∧
        bytes.length ≤ room ∧ (bytes = [] → s.bytes = []) := by
    refine ⟨_, rfl, (List.take_append_drop k s.bytes).symm, ?_, ?_⟩
    · exact (List.length_take_le k s.bytes).trans hle
    · intro hnil
      exact (List.take_eq_nil_iff.mp hnil).resolve_left (by omega)
  unfold Inbound.recv at h
  split at h
  · cases h
    exact ⟨List.nil_suffix, .inl (hdata room hroom le_rfl)⟩
  · rename_i n cuts hcuts
    cases h
    exact ⟨hcuts ▸ List.suffix_cons _ _, .inl (hdata _ (by omega) (by omega))⟩
  · rename_i cuts hcuts
    cases h
    exact ⟨hcuts ▸ List.suffix_cons _ _, .inr ⟨.inl rfl, rfl⟩⟩
  · rename_i cuts hcuts
    cases h
    exact ⟨hcuts ▸ List.suffix_cons _ _, .inr ⟨.inr rfl, rfl⟩⟩

/-- **A call that does not fail** takes elements from the front of the stream, as many as there is
room for at most and none only at its end, or it is interrupted. -/
theorem Inbound.recv_cases {s s' : Inbound α} {room : ℕ} {r : Recv α} (hclean : Clean s.cuts)
    (hroom : 0 < room) (h : s.recv room = (r, s')) :
    Clean s'.cuts ∧
      ((∃ bytes, r = .data bytes ∧ s.bytes = bytes ++ s'.bytes ∧ bytes.length ≤ room ∧
          (bytes = [] → s.bytes = []) ∧ (bytes ≠ [] → s'.size < s.size)) ∨
        (r = .interrupted ∧ s'.bytes = s.bytes ∧ s'.size < s.size)) := by
  have hdata (k : ℕ) (hk : 0 < k) (hle : k ≤ room) (cuts : List Cut)
      (hcuts : cuts.length ≤ s.cuts.length) :
      ∃ bytes, Recv.data (s.bytes.take k) = .data bytes ∧ s.bytes = bytes ++ s.bytes.drop k ∧
        bytes.length ≤ room ∧ (bytes = [] → s.bytes = []) ∧
        (bytes ≠ [] → Inbound.size ⟨s.bytes.drop k, cuts⟩ < s.size) := by
    refine ⟨_, rfl, (List.take_append_drop k s.bytes).symm, ?_, ?_, ?_⟩
    · exact (List.length_take_le k s.bytes).trans hle
    · intro hnil
      exact (List.take_eq_nil_iff.mp hnil).resolve_left (by omega)
    · intro hne
      have hpos := List.length_pos_iff.mpr hne
      simp only [List.length_take] at hpos
      simp only [Inbound.size, List.length_drop]
      omega
  unfold Inbound.recv at h
  match hs : s.cuts with
  | [] =>
    rw [hs] at h
    obtain ⟨rfl, rfl⟩ := Prod.mk.inj h
    exact ⟨(fun _ hc => by cases hc), .inl (hdata room hroom le_rfl [] (Nat.zero_le _))⟩
  | .part n :: cuts =>
    rw [hs] at h hclean
    obtain ⟨rfl, rfl⟩ := Prod.mk.inj h
    exact ⟨hclean.tail, .inl (hdata _ (by omega) (by omega) cuts (by simp [hs]))⟩
  | .interrupted :: cuts =>
    rw [hs] at h hclean
    obtain ⟨rfl, rfl⟩ := Prod.mk.inj h
    exact ⟨hclean.tail, .inr ⟨rfl, rfl, by simp [Inbound.size, hs]⟩⟩
  | .error :: cuts =>
    rw [hs] at hclean
    exact absurd rfl (hclean .error List.mem_cons_self)

/-! ## Sending -/

/-- The elements accepted so far, and how the calls to come cut what they are offered. -/
structure Outbound (α : Type*) where
  accepted : List α
  cuts : List Cut

/-- The result of a call that sends. -/
inductive Send where
  | sent (n : ℕ)
  | interrupted
  | error

/-- A call that offers elements. -/
def Outbound.send (s : Outbound α) (offered : List α) : Send × Outbound α :=
  match s.cuts with
  | [] => (.sent offered.length, ⟨s.accepted ++ offered, []⟩)
  | .part n :: cuts =>
    (.sent (min (n + 1) offered.length), ⟨s.accepted ++ offered.take (n + 1), cuts⟩)
  | .interrupted :: cuts => (.interrupted, ⟨s.accepted, cuts⟩)
  | .error :: cuts => (.error, ⟨s.accepted, cuts⟩)

/-- **Any call** accepts some of what it is offered, or nothing. -/
theorem Outbound.send_outcome {s s' : Outbound α} {offered : List α} {r : Send}
    (hne : offered ≠ []) (h : s.send offered = (r, s')) :
    (∃ n, r = .sent n ∧ 0 < n ∧ n ≤ offered.length ∧
        s'.accepted = s.accepted ++ offered.take n) ∨
      ((r = .interrupted ∨ r = .error) ∧ s'.accepted = s.accepted) := by
  have hpos := List.length_pos_iff.mpr hne
  unfold Outbound.send at h
  split at h
  · cases h
    exact .inl ⟨_, rfl, hpos, le_rfl, by rw [List.take_length]⟩
  · cases h
    refine .inl ⟨_, rfl, by omega, by omega, ?_⟩
    rw [← List.take_eq_take_min]
  · cases h
    exact .inr ⟨.inl rfl, rfl⟩
  · cases h
    exact .inr ⟨.inr rfl, rfl⟩

/-- **A call that does not fail** accepts some of what it is offered, or it is interrupted. -/
theorem Outbound.send_cases {s s' : Outbound α} {offered : List α} {r : Send}
    (hclean : Clean s.cuts) (hne : offered ≠ []) (h : s.send offered = (r, s')) :
    Clean s'.cuts ∧
      ((∃ n, r = .sent n ∧ 0 < n ∧ n ≤ offered.length ∧
          s'.accepted = s.accepted ++ offered.take n ∧ s'.cuts.length ≤ s.cuts.length) ∨
        (r = .interrupted ∧ s'.accepted = s.accepted ∧ s'.cuts.length < s.cuts.length)) := by
  have hpos := List.length_pos_iff.mpr hne
  unfold Outbound.send at h
  match hs : s.cuts with
  | [] =>
    rw [hs] at h
    obtain ⟨rfl, rfl⟩ := Prod.mk.inj h
    exact ⟨(fun _ hc => by cases hc),
      .inl ⟨_, rfl, hpos, le_rfl, by rw [List.take_length], Nat.zero_le _⟩⟩
  | .part n :: cuts =>
    rw [hs] at h hclean
    obtain ⟨rfl, rfl⟩ := Prod.mk.inj h
    refine ⟨hclean.tail, .inl ⟨_, rfl, by omega, by omega, ?_, by simp⟩⟩
    rw [← List.take_eq_take_min]
  | .interrupted :: cuts =>
    rw [hs] at h hclean
    obtain ⟨rfl, rfl⟩ := Prod.mk.inj h
    exact ⟨hclean.tail, .inr ⟨rfl, rfl, by simp⟩⟩
  | .error :: cuts =>
    rw [hs] at hclean
    exact absurd rfl (hclean .error List.mem_cons_self)

end Socket

import Wirecall.Client.Transport

/-!
# Sending exactly

`send_iov_full` offers what is left of the header and the payload until nothing is. The socket takes
any part of it, is interrupted or fails. Whatever it does, at any moment the bytes it has taken are
the first bytes of header and payload.

## Main results

* `sendIovFull_accepts`: the bytes taken are a prefix, and the call returns `0` exactly if they are
  all
* `sendIovFull_stable`: once they are, there is no further call
* `send_exact`: **sends are exact**
-/

namespace Wirecall

open Socket

section Sending

variable {bufs : List (List UInt8)}

/-- **What was taken after any number of calls**: the first `k` bytes of the buffers, and all of
them exactly if `0` is returned. -/
theorem sendIovFull_accepts (fuel : ℕ) (hbufs : FrontFull bufs) (s : Outbound UInt8) :
    ∃ k ≤ bufs.flatten.length,
      (sendIovFull fuel bufs s).2.accepted = s.accepted ++ bufs.flatten.take k ∧
      ((sendIovFull fuel bufs s).1 = .ok ↔ k = bufs.flatten.length) := by
  have hnothing (bufs : List (List UInt8)) (s : Outbound UInt8) :
      s.accepted = s.accepted ++ bufs.flatten.take 0 := by
    simp
  induction fuel generalizing bufs s with
  | zero =>
    refine ⟨0, Nat.zero_le _, hnothing bufs s, ?_⟩
    rw [sendIovFull]
    by_cases hnil : bufs = []
    · simp [hnil]
    · have hpos := List.length_pos_iff.mpr (hbufs.flatten_ne_nil hnil)
      simp only [hnil, if_false]
      exact ⟨(fun h => by cases h), fun h => by omega⟩
  | succ fuel ih =>
    rw [sendIovFull]
    by_cases hnil : bufs = []
    · rw [if_pos hnil]
      exact ⟨0, Nat.zero_le _, hnothing bufs s, by simp [hnil]⟩
    have hne := hbufs.flatten_ne_nil hnil
    have hpos := List.length_pos_iff.mpr hne
    rw [if_neg hnil]
    rcases hsend : s.send bufs.flatten with ⟨r, s₁⟩
    obtain ⟨n, rfl, hn, hle, haccepted⟩ | ⟨rfl | rfl, haccepted⟩ :=
      Outbound.send_outcome hne hsend
    · -- the buffers move on by what was taken
      obtain ⟨n, rfl⟩ := Nat.exists_eq_add_one.mpr hn
      obtain ⟨k, hk, htaken, hok⟩ := ih (frontFull_advance (n + 1) bufs) s₁
      rw [flatten_advance, List.length_drop] at hk hok
      simp only
      refine ⟨n + 1 + k, by omega, ?_, ?_⟩
      · rw [htaken, haccepted, flatten_advance, List.append_assoc, ← List.take_add]
      · rw [hok]
        omega
    · obtain ⟨k, hk, htaken, hok⟩ := ih hbufs s₁
      exact ⟨k, hk, htaken.trans (by rw [haccepted]), hok⟩
    · refine ⟨0, Nat.zero_le _, haccepted.trans (hnothing bufs s), ?_⟩
      exact ⟨(fun h => by cases h), fun h => by omega⟩

/-- Once everything is taken there is no further call. -/
theorem sendIovFull_stable {fuel fuel' : ℕ} {s : Outbound UInt8} (hle : fuel ≤ fuel')
    (hok : (sendIovFull fuel bufs s).1 = .ok) :
    sendIovFull fuel' bufs s = sendIovFull fuel bufs s := by
  induction fuel generalizing fuel' bufs s with
  | zero =>
    rw [sendIovFull] at hok
    split_ifs at hok with hnil
    cases fuel' with
    | zero => rfl
    | succ fuel' => simp [sendIovFull, hnil]
  | succ fuel ih =>
    obtain ⟨fuel', rfl⟩ : ∃ n, fuel' = n + 1 := ⟨fuel' - 1, by omega⟩
    rw [sendIovFull] at hok ⊢
    rw [sendIovFull]
    split_ifs at hok ⊢ with hnil
    · rfl
    · -- the same call comes first
      rcases hsend : s.send bufs.flatten with ⟨r, s₁⟩
      rw [hsend] at hok
      cases r with
      | sent n =>
        cases n with
        | zero => cases hok
        | succ n => exact ih (by omega) hok
      | interrupted => exact ih (by omega) hok
      | error => cases hok

/-- **Sends are exact**: for a header and a payload, given as two buffers or as one if the payload
is empty, at any moment the bytes handed to the socket are the first ones of header and payload,
`0` is returned exactly if they are all, no call is made after that, and a socket that does not fail
takes them all. -/
theorem send_exact {header payload : List UInt8} (hheader : header ≠ [])
    (hbufs : bufs = [header, payload] ∨ bufs = [header] ∧ payload = []) (s : Outbound UInt8) :
    (∀ fuel, ∃ k ≤ (header ++ payload).length,
      (sendIovFull fuel bufs s).2.accepted = s.accepted ++ (header ++ payload).take k) ∧
    (∀ fuel, (sendIovFull fuel bufs s).1 = .ok ↔
      (sendIovFull fuel bufs s).2.accepted = s.accepted ++ (header ++ payload)) ∧
    (∀ fuel fuel', fuel ≤ fuel' → (sendIovFull fuel bufs s).1 = .ok →
      sendIovFull fuel' bufs s = sendIovFull fuel bufs s) ∧
    (Clean s.cuts →
      (sendIovFull ((header ++ payload).length + s.cuts.length + 1) bufs s).1 = .ok) := by
  obtain ⟨hfull, hflatten⟩ : FrontFull bufs ∧ bufs.flatten = header ++ payload := by
    rcases hbufs with rfl | ⟨rfl, rfl⟩
    · exact ⟨frontFull_cons hheader _, by simp⟩
    · exact ⟨frontFull_cons hheader _, by simp⟩
  have haccepts := fun fuel => sendIovFull_accepts fuel hfull s
  rw [hflatten] at haccepts
  refine ⟨?_, ?_, fun fuel fuel' => sendIovFull_stable, ?_⟩
  · intro fuel
    obtain ⟨k, hk, htaken, -⟩ := haccepts fuel
    exact ⟨k, hk, htaken⟩
  · intro fuel
    obtain ⟨k, hk, htaken, hok⟩ := haccepts fuel
    rw [hok, htaken, List.append_right_inj]
    constructor
    · rintro rfl
      exact List.take_length
    · intro htake
      have hlen := congrArg List.length htake
      rw [List.length_take] at hlen
      omega
  · intro hclean
    obtain ⟨s', hs', -⟩ := sendIovFull_spec hclean hfull (Nat.lt_succ_self _)
    rw [hflatten] at hs'
    rw [hs']

/-- A header and a payload, cut inside the header and across the boundary. -/
theorem send_exact_cut :
    (sendIovFull 41 [List.replicate 34 7, [1, 2, 3]] ⟨[], [.part 9, .interrupted, .part 24]⟩).1 =
        .ok ∧
      (sendIovFull 41 [List.replicate 34 7, [1, 2, 3]]
        ⟨[], [.part 9, .interrupted, .part 24]⟩).2.accepted = List.replicate 34 7 ++ [1, 2, 3] := by
  have hheader : (List.replicate 34 7 : List UInt8) ≠ [] := by decide
  have hexact := @send_exact [List.replicate 34 7, [1, 2, 3]] _ _ hheader (.inl rfl)
    ⟨[], [.part 9, .interrupted, .part 24]⟩
  have hok := hexact.2.2.2 (by decide)
  exact ⟨hok, (hexact.2.1 41).mp hok⟩

end Sending

end Wirecall

import Wirecall.Machine.Run
import Wirecall.Payload.Writer

/-!
# Appends that fail

A null, a bool and a number are one push each, so they are in the buffer or they are not. A bytes or
string value is two pushes: first its tag and its length, then its data. When the second one fails,
for lack of memory or at the limit of 1 MiB, the first one stays in the buffer, and whoever sends
the buffer all the same sends a value without its data.

## Main definitions

* `Writer.Reserves`: a reservation can be made
* `AppendsWhole`: the data of a value can follow its tag and length, or not even these fit
* `Appending`, `Appending.step`: a writer and the values it took, call after call

## Main results

* `writeValue_err_iff`: exactly under this condition an append that fails changes nothing
* `appends_atomic`: **in every run that meets it the content is the encoding of the values whose
  append returned `0`**
* `writerBlob_over_limit`: a value that crosses the limit leaves its tag and its length behind
* `failed_append_leaves_front`: so does one that runs out of memory
-/

namespace Wirecall

/-! ## What a reservation and a push guarantee -/

section Push

variable {mem : Mem} {w w' : Writer} {extra : ℕ} {data : List UInt8}

/-- The growth loop of the writer reaches what is needed, up to 1 MiB. -/
theorem le_writerGrow {fuel cap need : ℕ} (hpos : 0 < cap) (hmax : need ≤ maxPayloadSize)
    (hfuel : need ≤ cap + fuel) : need ≤ writerGrow fuel cap need := by
  induction fuel generalizing cap with
  | zero => simpa [writerGrow] using hfuel
  | succ fuel ih =>
    rw [writerGrow]
    split_ifs
    · exact hmax
    · exact ih (by omega) (by omega)
    · omega

theorem le_writerNextCap (w : Writer) {need : ℕ} (hmax : need ≤ maxPayloadSize) :
    need ≤ writerNextCap w need := by
  unfold writerNextCap
  split_ifs
  · exact le_writerGrow (by omega) hmax (by omega)
  · exact le_writerGrow (by decide) hmax (by omega)

/-- After a reservation that succeeds the bytes fit, and they are within the limit. -/
theorem writerReserve_eq_ok (h : writerReserve mem w extra = (.ok, w')) :
    w'.data = w.data ∧ w.len + extra ≤ w'.cap ∧ w.len + extra ≤ maxPayloadSize := by
  have hdata := writerReserve_data mem w extra
  rw [h] at hdata
  unfold writerReserve at h
  by_cases hguard : extra > maxPayloadSize ∨ w.len > maxPayloadSize - extra
  · rw [if_pos hguard] at h
    cases h
  rw [if_neg hguard] at h
  have hmax : w.len + extra ≤ maxPayloadSize := by omega
  dsimp only at h
  split_ifs at h with hfits hgranted
  · cases h
    exact ⟨rfl, hfits, hmax⟩
  · cases h
    exact ⟨rfl, le_writerNextCap w hmax, hmax⟩
  · cases h

/-- A reservation of `extra` bytes can be made: they are within the limit, and there is room for them
or the growth that is asked for is granted. -/
def Writer.Reserves (w : Writer) (mem : Mem) (extra : ℕ) : Prop :=
  w.len + extra ≤ maxPayloadSize ∧
    (w.len + extra ≤ w.cap ∨ mem (writerNextCap w (w.len + extra)) = true)

instance (w : Writer) (mem : Mem) (extra : ℕ) : Decidable (w.Reserves mem extra) :=
  inferInstanceAs (Decidable (_ ∧ _))

/-- The writer after a push that succeeds. -/
def Writer.pushed (w : Writer) (data : List UInt8) : Writer where
  data := w.data ++ data
  cap := if w.len + data.length ≤ w.cap then w.cap else writerNextCap w (w.len + data.length)

/-- **A push adds its bytes, or changes nothing.** -/
theorem writerPush_eq (mem : Mem) (w : Writer) (data : List UInt8) :
    writerPush mem w data =
      if w.Reserves mem data.length then (.ok, w.pushed data) else (.err, w) := by
  unfold writerPush writerReserve Writer.pushed
  by_cases hreserves : w.Reserves mem data.length
  · rw [if_pos hreserves]
    obtain ⟨hmax, hroom⟩ := hreserves
    rw [if_neg (by omega)]
    by_cases hfits : w.len + data.length ≤ w.cap
    · simp [hfits]
    · simp [hfits, hroom.resolve_left hfits]
  · rw [if_neg hreserves]
    by_cases hmax : w.len + data.length ≤ maxPayloadSize
    · have hnone : ¬ (w.len + data.length ≤ w.cap ∨
          mem (writerNextCap w (w.len + data.length)) = true) := fun hroom => hreserves ⟨hmax, hroom⟩
      rw [if_neg (by omega)]
      simp [not_or.mp hnone]
    · rw [if_pos (by omega)]

/-- A push that fails changes nothing. -/
theorem writerPush_err (h : (writerPush mem w data).1 = .err) :
    (writerPush mem w data).2.data = w.data := by
  rw [writerPush_eq] at h ⊢
  split_ifs at h ⊢
  rfl

end Push

/-! ## One append -/

/-- The data of a bytes or string value can follow its tag and its length, or not even these fit. -/
def BlobFollows (type : ValueType) (mem : Mem) (w : Writer) (blob : Blob) : Prop :=
  w.Reserves mem 5 → (w.pushed (type.code :: putU32 blob.len)).Reserves mem blob.data.length

/-- The append is one push, or its second push does not fail after the first. -/
def AppendsWhole (mem : Mem) (w : Writer) : Value → Prop
  | .bytes blob => BlobFollows .bytes mem w blob
  | .string blob => BlobFollows .string mem w blob
  | _ => True

section Append

variable {mem : Mem} {w : Writer} {v : Value} {type : ValueType} {blob : Blob}

theorem length_blobFront (type : ValueType) (blob : Blob) :
    (type.code :: putU32 blob.len).length = 5 := by
  rw [List.length_cons, length_putU32]

/-- **A value that fails changes nothing exactly if its data can follow its tag and its length.** -/
theorem writerBlob_err_iff : ((writerBlob type mem w blob).1 = .err →
    (writerBlob type mem w blob).2.data = w.data) ↔ BlobFollows type mem w blob := by
  unfold writerBlob BlobFollows
  rw [writerPush_eq, length_blobFront]
  by_cases hfront : w.Reserves mem 5
  swap
  · -- not even the tag and the length are pushed
    rw [if_neg hfront]
    exact iff_of_true (fun _ => rfl) fun h => absurd h hfront
  rw [if_pos hfront]
  dsimp only
  rw [writerPush_eq, forall_prop_of_true hfront]
  split_ifs with hdata
  · exact iff_of_true (fun h => by cases h) hdata
  · -- the five bytes stay
    refine iff_of_false (fun h => ?_) hdata
    have hlen := congrArg List.length (h rfl)
    simp only [Writer.pushed, List.length_append, length_blobFront] at hlen
    omega

/-- **An append that fails changes nothing exactly if it is whole.** -/
theorem writeValue_err_iff : ((writeValue mem w v).1 = .err →
    (writeValue mem w v).2.data = w.data) ↔ AppendsWhole mem w v := by
  cases v with
  | null => exact iff_of_true writerPush_err trivial
  | bool => exact iff_of_true writerPush_err trivial
  | i64 => exact iff_of_true writerPush_err trivial
  | u64 => exact iff_of_true writerPush_err trivial
  | f64 => exact iff_of_true writerPush_err trivial
  | bytes blob => exact writerBlob_err_iff
  | string blob => exact writerBlob_err_iff

/-- **A value that crosses the limit leaves its tag and its length behind**, with all the memory
there is. -/
theorem writerBlob_over_limit (hfront : w.len + 5 ≤ maxPayloadSize)
    (hover : maxPayloadSize < w.len + (5 + blob.data.length)) :
    ∃ w', writerBlob type (fun _ => true) w blob = (.err, w') ∧
      w'.data = w.data ++ (type.code :: putU32 blob.len) := by
  obtain ⟨w₁, hw₁, hdata⟩ := writerPush_fits w (type.code :: putU32 blob.len)
    (by rw [length_blobFront]; exact hfront)
  have hlen : w₁.len = w.len + 5 := by
    rw [Writer.len, hdata, List.length_append, length_blobFront, Writer.len]
  have hguard : blob.data.length > maxPayloadSize ∨ w₁.len > maxPayloadSize - blob.data.length := by
    omega
  refine ⟨w₁, ?_, hdata⟩
  rw [writerBlob, hw₁]
  simp only [writerPush, writerReserve]
  rw [if_pos hguard]

end Append

/-! ## Sequences of calls -/

/-- A writer, and the values whose append returned `0` since it was last emptied. -/
structure Appending where
  writer : Writer
  kept : List Value
  deriving DecidableEq

/-- A call of a `wirecall_writer_*` function, with the allocator during the call. -/
inductive WriterCall where
  | append (mem : Mem) (v : Value)
  | reset
  | free
  | init

/-- A writer after `wirecall_writer_init`. -/
def Appending.init : Appending := ⟨writerInit, []⟩

/-- The calls. `wirecall_writer_free` leaves the writer as `wirecall_writer_init` does. -/
def Appending.step (s : Appending) : WriterCall → Option Appending
  | .append mem v =>
    match writeValue mem s.writer v with
    | (.ok, w) => some ⟨w, s.kept ++ [v]⟩
    | (.err, w) => some ⟨w, s.kept⟩
  | .reset => some ⟨writerReset s.writer, []⟩
  | .free => some .init
  | .init => some .init

/-- The data of the value that is appended can follow its tag and its length. -/
def Appending.Whole (s : Appending) : WriterCall → Prop
  | .append mem v => AppendsWhole mem s.writer v
  | _ => True

/-- One call keeps the content in step with the values. -/
theorem Appending.step_content {s s' : Appending} {call : WriterCall}
    (h : s.writer.data = encode s.kept) (hwhole : s.Whole call) (hstep : s.step call = some s') :
    s'.writer.data = encode s'.kept := by
  cases call with
  | append mem v =>
    rcases hwrite : writeValue mem s.writer v with ⟨rc, w⟩
    simp only [Appending.step, hwrite] at hstep
    cases rc with
    | ok =>
      cases hstep
      rw [writeValue_eq_ok hwrite, h, encode_append, encode_cons, encode_nil, List.append_nil]
    | err =>
      cases hstep
      have hdata := writeValue_err_iff.mpr hwhole (by rw [hwrite])
      rw [hwrite] at hdata
      rw [hdata, h]
  | reset =>
    cases hstep
    rfl
  | free =>
    cases hstep
    rfl
  | init =>
    cases hstep
    rfl

/-- **Appends are atomic** in every run in which the data of each value can follow its tag and its
length: a failed append leaves length and content as they were, and the content is the encoding of
exactly the values whose append returned `0`. Where it cannot follow, a failed append leaves something
behind. -/
theorem appends_atomic {calls : List WriterCall} {s : Appending}
    (hmeets : Machine.Meets Appending.step Appending.Whole .init calls)
    (hexec : Machine.exec Appending.step .init calls = some s) :
    s.writer.data = encode s.kept ∧
      ∀ mem v, AppendsWhole mem s.writer v ↔ ((writeValue mem s.writer v).1 = .err →
        (writeValue mem s.writer v).2.len = s.writer.len ∧
          (writeValue mem s.writer v).2.data = s.writer.data) := by
  refine ⟨?_, ?_⟩
  · refine Machine.exec_invariant (P := fun s => s.writer.data = encode s.kept) ?_ rfl hmeets hexec
    intro s call s' h hwhole hstep
    exact Appending.step_content h hwhole hstep
  · intro mem v
    rw [← writeValue_err_iff]
    refine ⟨fun h herr => ?_, fun h herr => (h herr).2⟩
    exact ⟨congrArg List.length (h herr), h herr⟩

/-- Sixty bytes. -/
def sixtyBytes : Blob := ⟨List.replicate 60 0, by decide⟩

/-- A string that finds no memory, and a value that is taken after it. -/
theorem appends_atomic_refused : ∃ s,
    Machine.exec Appending.step .init [.append (fun _ => false) (.string sixtyBytes),
      .append (fun _ => true) (.bool true)] = some s ∧
    s.kept = [.bool true] ∧ s.writer.data = encode s.kept := by
  obtain ⟨s, hexec, hkept⟩ := Machine.exists_of_any (p := fun s => s.kept = [.bool true])
    (show (Machine.exec Appending.step .init [.append (fun _ => false) (.string sixtyBytes),
      .append (fun _ => true) (.bool true)]).any _ = true by decide)
  have hmeets : Machine.Meets Appending.step Appending.Whole .init
      [.append (fun _ => false) (.string sixtyBytes), .append (fun _ => true) (.bool true)] := by
    -- not even the tag and the length of the string fit, and a bool is one push
    have hnone : ¬ Appending.init.writer.Reserves (fun _ => false) 5 := by decide
    exact ⟨fun hfits => absurd hfits hnone, fun t _ => ⟨trivial, fun _ _ => trivial⟩⟩
  exact ⟨s, hexec, of_decide_eq_true hkept, (appends_atomic hmeets hexec).1⟩

/-- **A failed append that leaves something behind**: there is memory for the tag and the length,
and none for the data. -/
theorem failed_append_leaves_front : ∃ s,
    Machine.exec Appending.step .init [.append (fun n => n ≤ 64) (.bytes sixtyBytes)] = some s ∧
    s.kept = [] ∧ s.writer.data = [5, 0, 0, 0, 60] := by
  obtain ⟨s, hexec, hs⟩ := Machine.exists_of_any
    (p := fun s => s.kept = [] ∧ s.writer.data = [5, 0, 0, 0, 60])
    (show (Machine.exec Appending.step .init
      [.append (fun n => n ≤ 64) (.bytes sixtyBytes)]).any _ = true by decide)
  exact ⟨s, hexec, of_decide_eq_true hs⟩

end Wirecall

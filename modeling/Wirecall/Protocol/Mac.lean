import Wirecall.Protocol.Integrity
import Wirecall.Stream.SipHash

/-!
# The MAC is SipHash-2-4

`wirecall_packet_mac` feeds the metadata and the payload of a packet to `sip_update`, which keeps up
to seven bytes in a word until the next ones come. On a little-endian host this is the hash of the
two put together: the state always holds what the absorbed bytes come to, whatever the cut.

## Main definitions

* `SipState.Holds s a`: the state `s` of the code holds the state `a` of the fold
* `sipStart`, `sipFinish`: the beginning and the end of `wirecall_packet_mac`

## Main results

* `sipUpdate_holds`: `sip_update` absorbs
* `sipUpdate_append`: **the bytes may be cut anywhere**
* `packetMac_sipHash`: **the MAC is SipHash-2-4** of the metadata and the payload
-/

namespace Wirecall

open Blocks

/-! ## Words -/

/-- `rotl64` is a rotation. -/
theorem toBitVec_rotl64 (value : UInt64) (shift : ℕ) (hpos : 0 < shift) (hlt : shift < 64) :
    (rotl64 value (UInt64.ofNat shift)).toBitVec = value.toBitVec.rotateLeft shift := by
  have hshift : (UInt64.ofNat shift).toNat = shift :=
    UInt64.toNat_ofNat_of_lt' (lt_trans hlt (by decide))
  have hsub : (64 - UInt64.ofNat shift).toNat = 64 - shift := by
    rw [UInt64.toNat_sub_of_le _ _ (UInt64.le_iff_toNat_le.mpr (by rw [hshift]; exact hlt.le)), hshift]
    rfl
  rw [BitVec.rotateLeft_def, Nat.mod_eq_of_lt hlt]
  simp only [rotl64, UInt64.toBitVec_or, UInt64.toBitVec_shiftLeft, UInt64.toBitVec_shiftRight,
    BitVec.shiftLeft_eq', BitVec.ushiftRight_eq', BitVec.toNat_umod, UInt64.toNat_toBitVec, hsub,
    hshift]
  rw [show BitVec.toNat (64 : BitVec 64) = 64 from rfl, Nat.mod_eq_of_lt hlt,
    Nat.mod_eq_of_lt (show 64 - shift < 64 by omega)]

/-- Eight bytes or fewer, as the host loads them. -/
theorem toNat_getU64Native_little {bytes : List UInt8} (hlen : bytes.length ≤ 8) :
    (getU64Native .little bytes).toNat = Nat.ofDigits 256 (bytes.map UInt8.toNat) := by
  unfold getU64Native
  induction bytes with
  | nil => rfl
  | cons b bytes ih =>
    rw [List.length_cons] at hlen
    have hrest := SipHash.ofDigits_lt bytes
    have hbound : Nat.ofDigits 256 (bytes.map UInt8.toNat) < 2 ^ 56 :=
      lt_of_lt_of_le hrest (Nat.pow_le_pow_right (by decide) (by omega))
    have hb := b.toNat_lt
    simp only at ih
    rw [List.foldr_cons, List.map_cons, Nat.ofDigits_cons, UInt64.toNat_or, UInt64.toNat_shiftLeft,
      ih (by omega), UInt8.toNat_toUInt64, Nat.shiftLeft_eq]
    generalize Nat.ofDigits 256 (bytes.map UInt8.toNat) = n at hbound
    rw [show (8 : UInt64).toNat % 64 = 8 from rfl, Nat.mod_eq_of_lt (show n * 2 ^ 8 < 2 ^ 64 by omega),
      Nat.mul_comm, ← Nat.two_pow_add_eq_or_of_lt hb]
    push_cast
    omega

theorem toBitVec_getU64Native_little {bytes : List UInt8} (hlen : bytes.length ≤ 8) :
    (getU64Native .little bytes).toBitVec = SipHash.word bytes := by
  have hlt : Nat.ofDigits 256 (bytes.map UInt8.toNat) < 2 ^ 64 :=
    lt_of_lt_of_le (SipHash.ofDigits_lt bytes) (Nat.pow_le_pow_right (by decide) (by omega))
  apply BitVec.eq_of_toNat_eq
  rw [UInt64.toNat_toBitVec, toNat_getU64Native_little hlen, SipHash.word, BitVec.toNat_ofNat,
    Nat.mod_eq_of_lt hlt]

/-! ## Rounds -/

/-- The four words of a state. -/
def SipState.core (s : SipState) : SipHash.State :=
  ⟨s.v0.toBitVec, s.v1.toBitVec, s.v2.toBitVec, s.v3.toBitVec⟩

theorem core_sipRound (s : SipState) : (sipRound s).core = s.core.round := by
  have h₁₃ (v : UInt64) : (rotl64 v 13).toBitVec = v.toBitVec.rotateLeft 13 :=
    toBitVec_rotl64 v 13 (by decide) (by decide)
  have h₁₆ (v : UInt64) : (rotl64 v 16).toBitVec = v.toBitVec.rotateLeft 16 :=
    toBitVec_rotl64 v 16 (by decide) (by decide)
  have h₁₇ (v : UInt64) : (rotl64 v 17).toBitVec = v.toBitVec.rotateLeft 17 :=
    toBitVec_rotl64 v 17 (by decide) (by decide)
  have h₂₁ (v : UInt64) : (rotl64 v 21).toBitVec = v.toBitVec.rotateLeft 21 :=
    toBitVec_rotl64 v 21 (by decide) (by decide)
  have h₃₂ (v : UInt64) : (rotl64 v 32).toBitVec = v.toBitVec.rotateLeft 32 :=
    toBitVec_rotl64 v 32 (by decide) (by decide)
  simp only [sipRound, SipState.core, SipHash.State.round, UInt64.toBitVec_xor, UInt64.toBitVec_add,
    h₁₃, h₁₆, h₁₇, h₂₁, h₃₂]

theorem core_sipCompress (s : SipState) (m : UInt64) :
    (sipCompress s m).core = s.core.compress 2 m.toBitVec := by
  have hrounds : (sipRound (sipRound { s with v3 := s.v3 ^^^ m })).core =
      ({ s.core with v3 := s.core.v3 ^^^ m.toBitVec } : SipHash.State).round.round := by
    rw [core_sipRound, core_sipRound]
    rfl
  show ({ (sipRound (sipRound { s with v3 := s.v3 ^^^ m })).core with
    v0 := (sipRound (sipRound { s with v3 := s.v3 ^^^ m })).core.v0 ^^^ m.toBitVec } :
      SipHash.State) = _
  rw [hrounds]
  rfl

/-! ## What a state holds -/

/-- **The state of the code holds a state of the fold**: the four words, and the bytes that do not
fill a word yet. -/
structure SipState.Holds (s : SipState) (a : Absorber SipHash.State UInt8) : Prop where
  core_eq : s.core = a.core
  tail_eq : s.tail.toNat = Nat.ofDigits 256 (a.pending.map UInt8.toNat)
  tailLen_eq : s.tailLen = a.pending.length

section Holds

variable {s s' : SipState} {a : Absorber SipHash.State UInt8} {core : SipHash.State}
  {pending data : List UInt8}

/-- Two states that hold the same and have counted the same bytes are equal. -/
theorem SipState.Holds.unique (h : s.Holds a) (h' : s'.Holds a) (hlen : s.totalLen = s'.totalLen) :
    s = s' := by
  have hcore := h.core_eq.trans h'.core_eq.symm
  obtain ⟨v0, v1, v2, v3, total, tail, tailLen⟩ := s
  obtain ⟨v0', v1', v2', v3', total', tail', tailLen'⟩ := s'
  obtain rfl : tail = tail' := UInt64.toNat_inj.mp (h.tail_eq.trans h'.tail_eq.symm)
  obtain rfl : tailLen = tailLen' := h.tailLen_eq.trans h'.tailLen_eq.symm
  obtain rfl : total = total' := hlen
  simp only [SipState.core, SipHash.State.mk.injEq, UInt64.toBitVec_inj] at hcore
  obtain ⟨rfl, rfl, rfl, rfl⟩ := hcore
  rfl

/-- The number of bytes counted does not matter. -/
theorem SipState.Holds.withTotal (h : s.Holds a) (total : UInt64) :
    { s with totalLen := total }.Holds a :=
  ⟨h.core_eq, h.tail_eq, h.tailLen_eq⟩

/-- One byte goes on top of those in the tail. -/
theorem SipState.Holds.tailByte (h : s.Holds ⟨core, pending⟩) (hlen : pending.length < 8)
    (b : UInt8) : (sipTailByte s b).Holds ⟨core, pending ++ [b]⟩ := by
  have htail : s.tail.toNat = Nat.ofDigits 256 (pending.map UInt8.toNat) := h.tail_eq
  have hlt : s.tail.toNat < 2 ^ (8 * pending.length) := htail ▸ SipHash.ofDigits_lt pending
  have hshift : (UInt64.ofNat (s.tailLen * 8)).toNat % 64 = 8 * pending.length := by
    rw [h.tailLen_eq, UInt64.toNat_ofNat_of_lt' (lt_of_lt_of_le
      (show pending.length * 8 < 64 by omega) (by decide)), Nat.mod_eq_of_lt (by omega), Nat.mul_comm]
  have hbyte : b.toNat * 2 ^ (8 * pending.length) < 2 ^ 64 := by
    calc b.toNat * 2 ^ (8 * pending.length) < 2 ^ 8 * 2 ^ (8 * pending.length) :=
          Nat.mul_lt_mul_of_pos_right b.toNat_lt (Nat.two_pow_pos _)
      _ = 2 ^ (8 + 8 * pending.length) := (pow_add 2 8 _).symm
      _ ≤ 2 ^ 64 := Nat.pow_le_pow_right (by decide) (by omega)
  refine ⟨h.core_eq, ?_, ?_⟩
  · show (s.tail ||| (b.toUInt64 <<< UInt64.ofNat (s.tailLen * 8))).toNat = _
    rw [SipHash.ofDigits_append_singleton, ← htail, UInt64.toNat_or, UInt64.toNat_shiftLeft, hshift,
      UInt8.toNat_toUInt64, Nat.shiftLeft_eq, Nat.mod_eq_of_lt hbyte, Nat.or_comm,
      Nat.mul_comm b.toNat, ← Nat.two_pow_add_eq_or_of_lt hlt, Nat.add_comm]
  · show s.tailLen + 1 = _
    rw [h.tailLen_eq, List.length_append, List.length_singleton]

/-- The last loop of `sip_update`. -/
theorem SipState.Holds.tailBytes (h : s.Holds ⟨core, pending⟩)
    (hlen : pending.length + data.length ≤ 8) :
    (data.foldl sipTailByte s).Holds ⟨core, pending ++ data⟩ := by
  induction data generalizing s pending with
  | nil => rwa [List.append_nil]
  | cons b data ih =>
    rw [List.length_cons] at hlen
    have hnext := ih (h.tailByte (by omega) b)
      (by rw [List.length_append, List.length_singleton]; omega)
    rwa [List.append_assoc, List.singleton_append] at hnext

/-- The first loop of `sip_update` takes as many bytes as the tail has room for. -/
theorem sipFillTail_eq (hlen : s.tailLen ≤ 8) :
    sipFillTail s data =
      ((data.take (8 - s.tailLen)).foldl sipTailByte s, data.drop (8 - s.tailLen)) := by
  induction data generalizing s with
  | nil => rw [sipFillTail, List.take_nil, List.drop_nil, List.foldl_nil]
  | cons b data ih =>
    rw [sipFillTail]
    split_ifs with hroom
    · have hnext : (sipTailByte s b).tailLen = s.tailLen + 1 := rfl
      obtain ⟨n, hn⟩ : ∃ n, 8 - s.tailLen = n + 1 := ⟨7 - s.tailLen, by omega⟩
      rw [ih (by omega), hnext, hn, show 8 - (s.tailLen + 1) = n by omega, List.take_succ_cons,
        List.drop_succ_cons, List.foldl_cons]
    · rw [show 8 - s.tailLen = 0 by omega, List.take_zero, List.drop_zero, List.foldl_nil]

/-- The tail is the word of its bytes. -/
theorem SipState.Holds.toBitVec_tail (h : s.Holds a) : s.tail.toBitVec = SipHash.word a.pending := by
  apply BitVec.eq_of_toNat_eq
  rw [SipHash.word, BitVec.toNat_ofNat, ← h.tail_eq, UInt64.toNat_toBitVec,
    Nat.mod_eq_of_lt s.tail.toNat_lt]

/-- A full tail is compressed. -/
theorem SipState.Holds.compressTail (h : s.Holds ⟨core, pending⟩) :
    { sipCompress s s.tail with tail := 0, tailLen := 0 }.Holds
      ⟨core.absorbBlock 2 pending, []⟩ := by
  refine ⟨?_, rfl, rfl⟩
  show (sipCompress s s.tail).core = _
  rw [core_sipCompress, h.core_eq, h.toBitVec_tail]
  rfl

/-- The second loop of `sip_update`. -/
theorem SipState.Holds.words {n : ℕ} (h : s.Holds ⟨core, []⟩) (hlen : n * 8 ≤ data.length) :
    (sipWords .little n s data).Holds
      ⟨(blocks 8 n data).foldl (SipHash.State.absorbBlock 2) core, []⟩ := by
  induction n generalizing s core data with
  | zero => exact h
  | succ n ih =>
    have hword : (sipCompress s (getU64Native .little (data.take 8))).Holds
        ⟨core.absorbBlock 2 (data.take 8), []⟩ := by
      refine ⟨?_, h.tail_eq, h.tailLen_eq⟩
      rw [core_sipCompress, h.core_eq,
        toBitVec_getU64Native_little (by rw [List.length_take]; omega)]
      rfl
    exact ih hword (by rw [List.length_drop]; omega)

/-- The last two loops of `sip_update`. -/
def sipWordsThenTail (order : ByteOrder) (s : SipState) (data : List UInt8) : SipState :=
  (data.drop (data.length / 8 * 8)).foldl sipTailByte (sipWords order (data.length / 8) s data)

/-- They absorb, if they start with an empty tail. -/
theorem SipState.Holds.wordsThenTail (h : s.Holds ⟨core, []⟩) :
    (sipWordsThenTail .little s data).Holds
      (absorb 8 (SipHash.State.absorbBlock 2) ⟨core, []⟩ data) :=
  (h.words (Nat.div_mul_le_self _ _)).tailBytes (by
    rw [List.length_nil, List.length_drop]
    omega)

/-- The state with more bytes counted. -/
def SipState.counted (s : SipState) (n : ℕ) : SipState :=
  { s with totalLen := s.totalLen + UInt64.ofNat n }

theorem sipUpdate_of_empty {order : ByteOrder} (h : s.tailLen = 0) :
    sipUpdate order s data = sipWordsThenTail order (s.counted data.length) data := by
  unfold sipUpdate
  simp only
  rw [if_neg (not_not.mpr h)]
  simp only
  rw [if_neg (by omega)]
  rfl

/-- With bytes in the tail, the next ones fill it first, and a full tail is compressed. -/
theorem sipUpdate_of_tail {order : ByteOrder} {t : SipState} (h : s.tailLen ≠ 0)
    (hlen : s.tailLen ≤ 8)
    (ht : (data.take (8 - s.tailLen)).foldl sipTailByte (s.counted data.length) = t) :
    sipUpdate order s data =
      sipWordsThenTail order
        (if t.tailLen = 8 then { sipCompress t t.tail with tail := 0, tailLen := 0 } else t)
        (data.drop (8 - s.tailLen)) := by
  have hfill : sipFillTail (s.counted data.length) data = (t, data.drop (8 - s.tailLen)) := by
    rw [sipFillTail_eq (show (s.counted data.length).tailLen ≤ 8 from hlen), ← ht]
    rfl
  unfold sipUpdate
  simp only
  rw [if_pos h]
  change sipWordsThenTail order (if (sipFillTail (s.counted data.length) data).1.tailLen = 8 then
    { sipCompress (sipFillTail (s.counted data.length) data).1
      (sipFillTail (s.counted data.length) data).1.tail with tail := 0, tailLen := 0 }
    else (sipFillTail (s.counted data.length) data).1) (sipFillTail (s.counted data.length) data).2 = _
  rw [hfill]

/-- **`sip_update` absorbs** the bytes it is given. -/
theorem sipUpdate_holds (h : s.Holds a) (hlen : a.pending.length < 8) :
    (sipUpdate .little s data).Holds (absorb 8 (SipHash.State.absorbBlock 2) a data) := by
  obtain ⟨core, pending⟩ := a
  have hlen : pending.length < 8 := hlen
  have htailLen : s.tailLen = pending.length := h.tailLen_eq
  have hcounted : (s.counted data.length).Holds ⟨core, pending⟩ := h.withTotal _
  by_cases hempty : s.tailLen = 0
  · -- no byte waits, so the words begin with the data
    obtain rfl : pending = [] := List.length_eq_zero_iff.mp (htailLen.symm.trans hempty)
    rw [sipUpdate_of_empty hempty]
    exact hcounted.wordsThenTail
  · obtain ⟨t, ht⟩ : ∃ t, (data.take (8 - s.tailLen)).foldl sipTailByte (s.counted data.length) = t :=
      ⟨_, rfl⟩
    have hfilled : t.Holds ⟨core, pending ++ data.take (8 - pending.length)⟩ := by
      rw [← ht, htailLen]
      exact hcounted.tailBytes (by rw [List.length_take]; omega)
    have hfilledLen : t.tailLen = pending.length + min (8 - pending.length) data.length := by
      rw [hfilled.tailLen_eq, List.length_append, List.length_take]
    rw [sipUpdate_of_tail hempty (by omega) ht, htailLen]
    by_cases hfull : 8 ≤ pending.length + data.length
    · -- the tail fills up: its word is the first block, and the words begin after it
      rw [if_pos (by omega), absorb_of_le (by decide) hlen.le hfull]
      apply SipState.Holds.wordsThenTail
      exact hfilled.compressTail
    · -- all bytes go to the tail, and none is left for the words
      rw [if_neg (by omega), List.drop_of_length_le (by omega)]
      rw [List.take_of_length_le (by omega)] at hfilled
      rw [absorb_of_lt (not_le.mp hfull)]
      exact hfilled

theorem totalLen_foldl_sipTailByte (s : SipState) (data : List UInt8) :
    (data.foldl sipTailByte s).totalLen = s.totalLen := by
  induction data generalizing s with
  | nil => rfl
  | cons b data ih =>
    rw [List.foldl_cons, ih]
    rfl

theorem totalLen_sipWords (order : ByteOrder) (n : ℕ) (s : SipState) (data : List UInt8) :
    (sipWords order n s data).totalLen = s.totalLen := by
  induction n generalizing s data with
  | zero => rfl
  | succ n ih =>
    rw [sipWords, ih]
    rfl

theorem totalLen_sipWordsThenTail (order : ByteOrder) (s : SipState) (data : List UInt8) :
    (sipWordsThenTail order s data).totalLen = s.totalLen := by
  rw [sipWordsThenTail, totalLen_foldl_sipTailByte, totalLen_sipWords]

/-- Every byte is counted. -/
theorem totalLen_sipUpdate (order : ByteOrder) (hlen : s.tailLen ≤ 8) :
    (sipUpdate order s data).totalLen = s.totalLen + UInt64.ofNat data.length := by
  by_cases hempty : s.tailLen = 0
  · rw [sipUpdate_of_empty hempty, totalLen_sipWordsThenTail]
    rfl
  · rw [sipUpdate_of_tail hempty hlen rfl, totalLen_sipWordsThenTail]
    split_ifs
    · show (List.foldl sipTailByte _ _).totalLen = _
      rw [totalLen_foldl_sipTailByte]
      rfl
    · rw [totalLen_foldl_sipTailByte]
      rfl

/-- **The bytes may be cut anywhere**: two calls of `sip_update` leave the state of one. -/
theorem sipUpdate_append (h : s.Holds a) (hlen : a.pending.length < 8) (front back : List UInt8) :
    sipUpdate .little (sipUpdate .little s front) back = sipUpdate .little s (front ++ back) := by
  have htailLen : s.tailLen ≤ 8 := by
    rw [h.tailLen_eq]
    exact hlen.le
  have hfront : (sipUpdate .little s front).Holds _ := sipUpdate_holds h hlen
  have hwaits : (absorb 8 (SipHash.State.absorbBlock 2) a front).pending.length < 8 :=
    length_pending_absorb (by decide) front
  have htailLen' : (sipUpdate .little s front).tailLen ≤ 8 := by
    rw [hfront.tailLen_eq]
    exact hwaits.le
  have hback : (sipUpdate .little (sipUpdate .little s front) back).Holds _ :=
    sipUpdate_holds hfront hwaits
  rw [absorb_append (by decide)] at hback
  apply hback.unique (sipUpdate_holds h hlen)
  rw [totalLen_sipUpdate _ htailLen', totalLen_sipUpdate _ htailLen, totalLen_sipUpdate _ htailLen,
    List.length_append, UInt64.ofNat_add, UInt64.add_assoc]

end Holds

/-! ## The MAC -/

/-- The state that `wirecall_packet_mac` begins with. -/
def sipStart (order : ByteOrder) (key : List UInt8) : SipState where
  v0 := 0x736f6d6570736575 ^^^ getU64Native order (key.take 8)
  v1 := 0x646f72616e646f6d ^^^ getU64Native order ((key.drop 8).take 8)
  v2 := 0x6c7967656e657261 ^^^ getU64Native order (key.take 8)
  v3 := 0x7465646279746573 ^^^ getU64Native order ((key.drop 8).take 8)
  totalLen := 0
  tail := 0
  tailLen := 0

/-- The end of `wirecall_packet_mac`: the last word and four rounds. -/
def sipFinish (s : SipState) : UInt64 :=
  let s := sipCompress s (s.tail ||| (s.totalLen <<< 56))
  let s := sipRound (sipRound (sipRound (sipRound { s with v2 := s.v2 ^^^ 0xff })))
  s.v0 ^^^ s.v1 ^^^ s.v2 ^^^ s.v3

theorem packetMac_eq {order : ByteOrder} {header : Header} {payload : List UInt8}
    (hlen : payload.length ≤ maxPayloadSize) (key : List UInt8) :
    packetMac order header payload key =
      sipFinish (sipUpdate order (sipUpdate order (sipStart order key)
        (macMeta header payload.length)) payload) := by
  unfold packetMac
  rw [if_neg (not_lt.mpr hlen)]
  rfl

theorem sipStart_holds (key : List UInt8) :
    (sipStart .little key).Holds ⟨SipHash.State.init key, []⟩ := by
  have hlow := toBitVec_getU64Native_little (List.length_take_le 8 key)
  have hhigh := toBitVec_getU64Native_little (List.length_take_le 8 (key.drop 8))
  refine ⟨?_, rfl, rfl⟩
  simp only [SipState.core, sipStart, SipHash.State.init, UInt64.toBitVec_xor, hlow, hhigh,
    BitVec.xor_comm (SipHash.word _)]
  rfl

/-- The end of the MAC is the end of the hash, for a state that has counted `n` bytes. -/
theorem sipFinish_holds {s : SipState} {a : Absorber SipHash.State UInt8} {n : ℕ} (h : s.Holds a)
    (htotal : s.totalLen = UInt64.ofNat n) :
    (sipFinish s).toBitVec =
      SipHash.State.finish 4 (a.core.compress 2 (SipHash.lastWord a.pending n)) := by
  have hlast : (s.tail ||| (s.totalLen <<< 56)).toBitVec = SipHash.lastWord a.pending n := by
    rw [SipHash.lastWord, htotal, UInt64.toBitVec_or, h.toBitVec_tail, UInt64.toBitVec_shiftLeft]
    rfl
  obtain ⟨t, ht⟩ : ∃ t, sipCompress s (s.tail ||| (s.totalLen <<< 56)) = t := ⟨_, rfl⟩
  have hcore : t.core = a.core.compress 2 (SipHash.lastWord a.pending n) := by
    rw [← ht, core_sipCompress, h.core_eq, hlast]
  have hrounds : (sipRound (sipRound (sipRound (sipRound { t with v2 := t.v2 ^^^ 0xff })))).core =
      SipHash.State.round^[4] { t.core with v2 := t.core.v2 ^^^ 0xff } := by
    simp only [core_sipRound, Function.iterate_succ, Function.iterate_zero, Function.comp_apply, id_eq]
    rfl
  rw [sipFinish, ht, SipHash.State.finish, ← hcore, ← hrounds]
  rfl

/-- **The MAC is SipHash-2-4** of the metadata and the payload, on a little-endian host, and the bytes
may be cut anywhere: two calls of `sip_update` leave the state of one. -/
theorem packetMac_sipHash (header : Header) {payload : List UInt8} (key : List UInt8)
    (hlen : payload.length ≤ maxPayloadSize) :
    (packetMac .little header payload key).toBitVec =
        SipHash.sipHash 2 4 key (macMeta header payload.length ++ payload) ∧
      ∀ before front back,
        sipUpdate .little
            (sipUpdate .little (sipUpdate .little (sipStart .little key) before) front) back =
          sipUpdate .little (sipUpdate .little (sipStart .little key) before) (front ++ back) := by
  have hstart := sipStart_holds key
  have hnone : (⟨SipHash.State.init key, []⟩ : Absorber SipHash.State UInt8).pending.length < 8 :=
    Nat.zero_lt_succ 7
  constructor
  · rw [packetMac_eq hlen, sipUpdate_append hstart hnone, SipHash.sipHash_eq_absorb]
    apply sipFinish_holds (sipUpdate_holds hstart hnone)
    rw [totalLen_sipUpdate _ (Nat.zero_le 8)]
    exact UInt64.zero_add _
  · intro before front back
    exact sipUpdate_append (sipUpdate_holds hstart hnone)
      (length_pending_absorb (by decide) before) front back

/-- A call with one null in its payload: the 30 bytes of metadata leave six in the tail, and the
payload does not fill the word. -/
theorem packetMac_sipHash_null :
    (packetMac .little ⟨1, 0, 7, 1, 1, 0, 0⟩ [0] ((List.range 16).map UInt8.ofNat)).toBitVec =
      SipHash.sipHash 2 4 ((List.range 16).map UInt8.ofNat)
        ([1, 0, 0, 0, 0, 0, 0, 0, 0, 7, 0, 0, 0, 1, 0, 0, 0, 0, 0, 0, 0, 1, 0, 0, 0, 0, 0, 0, 0, 1] ++
          [0]) :=
  (packetMac_sipHash ⟨1, 0, 7, 1, 1, 0, 0⟩ _ (by decide)).1

end Wirecall

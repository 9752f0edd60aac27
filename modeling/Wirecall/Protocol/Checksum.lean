import Wirecall.Protocol.Mac
import Wirecall.Stream.WordMaps

/-!
# What the checksum tells apart

`wirecall_packet_checksum` works on a 64-bit state that starts from the header and takes the payload
in blocks of eight bytes. Every step on the state is injective, and so is what a block adds to it.
Two packets that differ in one block or in one field of the header have different states at the end,
and only the fold to 32 bits can make their checksums the same.

## Main definitions

* `packetVerify`: verification with the default settings
* `packetHash`, `fold32`: the two parts of `wirecall_packet_checksum`
* `SameButBlock`, `Header.differences`: payloads and headers that differ in one place

## Main results

* `cheapHashUpdate_ne`: a difference in one block changes the hash
* `packetSeed_ne`: a difference in one field changes the seed
* `corruption_collides`: **a corrupted packet passes only by a collision of the fold**
-/

namespace Wirecall

open Function

/-! ## Steps on the state -/

theorem uint64_injective {f : UInt64 → UInt64} {g : BitVec 64 → BitVec 64} (hg : Injective g)
    (hfg : ∀ x, (f x).toBitVec = g x.toBitVec) : Injective f := by
  intro x y h
  apply UInt64.eq_of_toBitVec_eq
  apply hg
  rw [← hfg, ← hfg, h]

theorem xorShift64_injective {k : ℕ} (hpos : 0 < k) (hlt : k < 64) :
    Injective fun x : UInt64 => x ^^^ (x >>> UInt64.ofNat k) := by
  refine uint64_injective (WordMaps.xorShift_injective hpos) fun x => ?_
  have hk : (UInt64.ofNat k).toNat = k := UInt64.toNat_ofNat_of_lt' (lt_trans hlt (by decide))
  rw [UInt64.toBitVec_xor, UInt64.toBitVec_shiftRight, BitVec.ushiftRight_eq', BitVec.toNat_umod,
    UInt64.toNat_toBitVec, hk, show BitVec.toNat (64 : BitVec 64) = 64 from rfl, Nat.mod_eq_of_lt hlt]

theorem mul64_injective {a b : UInt64} (h : a * b = 1) : Injective (· * a) := by
  refine uint64_injective (@WordMaps.mul_injective 64 a.toBitVec b.toBitVec ?_) fun x => ?_
  · rw [← UInt64.toBitVec_mul, h]
    rfl
  · exact UInt64.toBitVec_mul

theorem rotl64_injective {shift : ℕ} (hpos : 0 < shift) (hlt : shift < 64) :
    Injective fun x => rotl64 x (UInt64.ofNat shift) :=
  uint64_injective (WordMaps.rotateLeft_injective hlt) fun x => toBitVec_rotl64 x shift hpos hlt

/-- **The mixer loses nothing.** -/
theorem mix64_injective : Injective mix64 := by
  -- from the last line of `mix64` to the first, each with its own inverse
  have hlast := @xorShift64_injective 31 (by decide) (by decide)
  have hsecond := @mul64_injective 0x94d049bb133111eb 0x319642b2d24d8ec3 (by decide)
  have hmiddle := @xorShift64_injective 27 (by decide) (by decide)
  have hfirst := @mul64_injective 0xbf58476d1ce4e5b9 0x96de1b173f119089 (by decide)
  have htop := @xorShift64_injective 30 (by decide) (by decide)
  exact hlast.comp (hsecond.comp (hmiddle.comp (hfirst.comp htop)))

theorem cheapHashStir_injective : Injective cheapHashStir := by
  have hadd : Injective fun x : UInt64 => x + 0x1c69b3f74ac4ae35 :=
    fun x y h => (UInt64.add_left_inj _).mp h
  have hmul := @mul64_injective 0x3c79ac492ba7b653 0xc09c5fe5bd6dfddb (by decide)
  exact hadd.comp (hmul.comp (@rotl64_injective 27 (by decide) (by decide)))

/-! ## Blocks -/

/-- Bytes that are loaded as the same word are the same. -/
theorem getU64Native_injective {order : ByteOrder} {a b : List UInt8} (hlen : a.length = b.length)
    (hle : a.length ≤ 8) (h : getU64Native order a = getU64Native order b) : a = b := by
  cases order with
  | little =>
    have hdigits := congrArg UInt64.toNat h
    rw [toNat_getU64Native_little hle, toNat_getU64Native_little (hlen ▸ hle)] at hdigits
    have hbytes : ∀ bytes : List UInt8, ∀ d ∈ bytes.map UInt8.toNat, d < 256 := by
      intro bytes d hd
      obtain ⟨byte, -, rfl⟩ := List.mem_map.mp hd
      exact byte.toNat_lt
    have hmap := Nat.ofDigits_inj_of_len_eq (by decide) (by simpa using hlen) (hbytes a) (hbytes b)
      hdigits
    exact List.map_injective_iff.mpr (fun _ _ => UInt8.toNat_inj.mp) hmap
  | big =>
    -- both are filled up to eight bytes, which are written back
    have hbytes := congrArg putU64 h
    simp only [getU64Native] at hbytes
    rw [putU64_getU64 (by simp; omega), putU64_getU64 (by simp; omega),
      List.take_of_length_le (by simp; omega), List.take_of_length_le (by simp; omega)] at hbytes
    exact (List.append_inj hbytes hlen).1

/-- What the loop of `cheap_hash_update` does with a block of eight bytes. -/
def cheapHashBlock (order : ByteOrder) (hash : UInt64) (block : List UInt8) : UInt64 :=
  cheapHashStir (hash ^^^ mix64 (getU64Native order block + 0x9e3779b97f4a7c15))

/-- What `cheap_hash_update` does after its loop. -/
def cheapHashTail (order : ByteOrder) (hash : UInt64) (tail : List UInt8) : UInt64 :=
  if tail.length > 0 then
    let len := UInt64.ofNat tail.length
    mix64 (cheapHashStir (hash ^^^ mix64 (getU64Native order tail ^^^ (len <<< 56))))
  else mix64 hash

theorem cheapHashWords_eq (order : ByteOrder) (n : ℕ) (hash : UInt64) (data : List UInt8) :
    cheapHashWords order n hash data =
      (Blocks.blocks 8 n data).foldl (cheapHashBlock order) hash := by
  induction n generalizing hash data with
  | zero => rfl
  | succ n ih => rw [cheapHashWords, ih, Blocks.blocks, List.foldl_cons, cheapHashBlock]

theorem cheapHashUpdate_eq (order : ByteOrder) (hash : UInt64) (data : List UInt8) :
    cheapHashUpdate order hash data =
      cheapHashTail order
        ((Blocks.blocks 8 (data.length / 8) data).foldl (cheapHashBlock order) hash)
        (data.drop (data.length / 8 * 8)) := by
  rw [cheapHashUpdate, cheapHashWords_eq, cheapHashTail]

section States

variable {order : ByteOrder}

theorem xor_injective (mask : UInt64) : Injective fun x : UInt64 => x ^^^ mask :=
  fun _ _ h => (UInt64.xor_left_inj mask).mp h

theorem cheapHashBlock_injective (block : List UInt8) :
    Injective fun hash => cheapHashBlock order hash block :=
  cheapHashStir_injective.comp (xor_injective _)

theorem cheapHashTail_injective (tail : List UInt8) :
    Injective fun hash => cheapHashTail order hash tail := by
  unfold cheapHashTail
  split_ifs
  · exact mix64_injective.comp (cheapHashStir_injective.comp (xor_injective _))
  · exact mix64_injective

/-- **The payload does not bring two states together.** -/
theorem cheapHashUpdate_injective (data : List UInt8) :
    Injective fun hash => cheapHashUpdate order hash data := by
  simp only [cheapHashUpdate_eq]
  exact (cheapHashTail_injective _).comp (WordMaps.foldl_injective cheapHashBlock_injective _)

/-- Two blocks of eight bytes move a state to different ones. -/
theorem cheapHashBlock_ne {a b : List UInt8} (hlen : a.length = b.length) (hle : a.length ≤ 8)
    (hne : a ≠ b) (hash : UInt64) : cheapHashBlock order hash a ≠ cheapHashBlock order hash b := by
  intro h
  have hmix := mix64_injective ((UInt64.xor_right_inj _).mp (cheapHashStir_injective h))
  exact hne (getU64Native_injective hlen hle ((UInt64.add_left_inj _).mp hmix))

/-- Two tails of the same length move a state to different ones. -/
theorem cheapHashTail_ne {a b : List UInt8} (hlen : a.length = b.length) (hle : a.length ≤ 8)
    (hne : a ≠ b) (hash : UInt64) : cheapHashTail order hash a ≠ cheapHashTail order hash b := by
  have hpos : a.length > 0 := by
    by_contra hnil
    have hnil : a.length = 0 := by omega
    exact hne ((List.eq_nil_of_length_eq_zero hnil).trans
      (List.eq_nil_of_length_eq_zero (hlen ▸ hnil)).symm)
  unfold cheapHashTail
  rw [if_pos hpos, if_pos (hlen ▸ hpos), ← hlen]
  intro h
  have hmix := (UInt64.xor_right_inj _).mp (cheapHashStir_injective (mix64_injective h))
  exact hne (getU64Native_injective hlen hle ((UInt64.xor_left_inj _).mp (mix64_injective hmix)))

end States

/-! ## Payloads that differ in one block -/

/-- Two payloads of the same length that differ, and only inside one block of eight bytes; the last
block may be shorter. -/
def SameButBlock (p q : List UInt8) : Prop :=
  p.length = q.length ∧ p ≠ q ∧ ∃ j, ∀ i, i / 8 ≠ j → p[i]? = q[i]?

/-- The block of the one payload is in the place of that of the other. -/
theorem SameButBlock.split {p q : List UInt8} (h : SameButBlock p q) :
    ∃ j front a b back, p = front ++ (a ++ back) ∧ q = front ++ (b ++ back) ∧
      front.length = j * 8 ∧ a.length = b.length ∧ a ≠ b ∧
      (a.length = 8 ∨ a.length < 8 ∧ back = []) := by
  obtain ⟨hlen, hne, j, hsame⟩ := h
  have hinside : j * 8 < p.length := by
    -- otherwise there is no place where they may differ
    by_contra houtside
    apply hne
    apply List.ext_getElem?
    intro i
    by_cases hi : i / 8 = j
    · rw [List.getElem?_eq_none (by omega), List.getElem?_eq_none (by omega)]
    · exact hsame i hi
  have hfront : p.take (j * 8) = q.take (j * 8) := by
    apply List.ext_getElem?
    intro i
    rw [List.getElem?_take, List.getElem?_take]
    split_ifs with hi
    · exact hsame i (by omega)
    · rfl
  have hback : (p.drop (j * 8)).drop 8 = (q.drop (j * 8)).drop 8 := by
    apply List.ext_getElem?
    intro i
    rw [List.drop_drop, List.drop_drop, List.getElem?_drop, List.getElem?_drop]
    exact hsame _ (by omega)
  have hp : p = p.take (j * 8) ++ ((p.drop (j * 8)).take 8 ++ (p.drop (j * 8)).drop 8) := by
    rw [List.take_append_drop, List.take_append_drop]
  have hq : q = p.take (j * 8) ++ ((q.drop (j * 8)).take 8 ++ (p.drop (j * 8)).drop 8) := by
    rw [hfront, hback, List.take_append_drop, List.take_append_drop]
  refine ⟨j, _, _, _, _, hp, hq, ?_, ?_, ?_, ?_⟩
  · rw [List.length_take]
    omega
  · rw [List.length_take, List.length_take, List.length_drop, List.length_drop, hlen]
  · intro hblock
    rw [hblock] at hp
    exact hne (hp.trans hq.symm)
  · rw [List.length_take, List.length_drop, List.drop_drop, List.drop_eq_nil_iff]
    omega

/-- **A difference in one block changes the hash.** -/
theorem cheapHashUpdate_ne {order : ByteOrder} {p q : List UInt8} (hash : UInt64)
    (h : SameButBlock p q) : cheapHashUpdate order hash p ≠ cheapHashUpdate order hash q := by
  obtain ⟨j, front, a, b, back, rfl, rfl, hfront, hlen, hne, hwhole | ⟨hpart, rfl⟩⟩ := h.split
  · -- the block is folded, and the same blocks and the same tail come after it
    have hcount : ∀ block : List UInt8, block.length = 8 →
        (front ++ (block ++ back)).length / 8 = j + (back.length / 8 + 1) := by
      intro block hblock
      rw [List.length_append, List.length_append]
      omega
    have hblocks : ∀ block : List UInt8, block.length = 8 →
        Blocks.blocks 8 (j + (back.length / 8 + 1)) (front ++ (block ++ back)) =
          Blocks.blocks 8 j front ++ block :: Blocks.blocks 8 (back.length / 8) back := by
      intro block hblock
      rw [Blocks.blocks_add, Blocks.blocks_append hfront.ge, ← hfront, List.drop_left,
        Blocks.blocks, ← hblock, List.take_left, List.drop_left]
    have htail : ∀ block : List UInt8, block.length = 8 →
        (front ++ (block ++ back)).drop ((j + (back.length / 8 + 1)) * 8) =
          back.drop (back.length / 8 * 8) := by
      intro block hblock
      rw [show (j + (back.length / 8 + 1)) * 8 = front.length + (block.length + back.length / 8 * 8) by
        omega, ← List.drop_drop, List.drop_left, ← List.drop_drop, List.drop_left]
    rw [cheapHashUpdate_eq, cheapHashUpdate_eq, hcount a hwhole, hcount b (hlen ▸ hwhole),
      hblocks a hwhole, hblocks b (hlen ▸ hwhole), htail a hwhole, htail b (hlen ▸ hwhole)]
    exact (cheapHashTail_injective _).ne (WordMaps.foldl_ne cheapHashBlock_injective
      (cheapHashBlock_ne hlen hwhole.le hne) hash _ _)
  · -- the block is the tail
    have hcount : ∀ block : List UInt8, block.length < 8 → (front ++ (block ++ [])).length / 8 = j := by
      intro block hblock
      rw [List.length_append, List.append_nil]
      omega
    rw [cheapHashUpdate_eq, cheapHashUpdate_eq, hcount a hpart, hcount b (hlen ▸ hpart),
      Blocks.blocks_append hfront.ge, Blocks.blocks_append hfront.ge, ← hfront, List.drop_left,
      List.drop_left, List.append_nil, List.append_nil]
    exact cheapHashTail_ne hlen hpart.le hne _

/-! ## Headers that differ in one field -/

/-- The number of fields, of those that the checksum covers, in which two headers differ. -/
def Header.differences (h h' : Header) : ℕ :=
  (if h.op = h'.op then 0 else 1) + (if h.flags = h'.flags then 0 else 1) +
    (if h.size = h'.size then 0 else 1) + (if h.procId = h'.procId then 0 else 1) +
    (if h.callId = h'.callId then 0 else 1)

/-- The word `meta` of `packet_seed`. -/
def seedMeta (h : Header) : UInt64 :=
  (h.op.toUInt64 <<< 56) ||| (h.flags.toUInt64 <<< 48) ||| (h.size.toUInt64 <<< 16)

theorem packetSeed_eq (h : Header) :
    packetSeed h = mix64 (0x9e3779b97f4a7c15 ^^^ seedMeta h ^^^ rotl64 h.procId 17 ^^^
      rotl64 h.callId 41) := rfl

theorem toNat_seedMeta (h : Header) :
    (seedMeta h).toNat = h.op.toNat * 2 ^ 56 + h.flags.toNat * 2 ^ 48 + h.size.toNat * 2 ^ 16 := by
  have hop := h.op.toNat_lt
  have hflags := h.flags.toNat_lt
  have hsize := h.size.toNat_lt
  rw [seedMeta, UInt64.toNat_or, UInt64.toNat_or, UInt64.toNat_shiftLeft, UInt64.toNat_shiftLeft,
    UInt64.toNat_shiftLeft, UInt8.toNat_toUInt64, UInt8.toNat_toUInt64, UInt32.toNat_toUInt64,
    Nat.shiftLeft_eq, Nat.shiftLeft_eq, Nat.shiftLeft_eq, show (56 : UInt64).toNat % 64 = 56 from rfl,
    show (48 : UInt64).toNat % 64 = 48 from rfl, show (16 : UInt64).toNat % 64 = 16 from rfl,
    Nat.mod_eq_of_lt (by omega), Nat.mod_eq_of_lt (by omega), Nat.mod_eq_of_lt (by omega)]
  -- each field is below the lowest bit of the one before it
  rw [Nat.mul_comm h.op.toNat, ← Nat.two_pow_add_eq_or_of_lt (by omega),
    show 2 ^ 56 * h.op.toNat + h.flags.toNat * 2 ^ 48 =
      2 ^ 48 * (2 ^ 8 * h.op.toNat + h.flags.toNat) by ring,
    ← Nat.two_pow_add_eq_or_of_lt (by omega)]

/-- The fields do not overlap. -/
theorem seedMeta_injective {h h' : Header} (heq : seedMeta h = seedMeta h') :
    h.op = h'.op ∧ h.flags = h'.flags ∧ h.size = h'.size := by
  have hnat := congrArg UInt64.toNat heq
  rw [toNat_seedMeta, toNat_seedMeta] at hnat
  have hflags := h.flags.toNat_lt
  have hflags' := h'.flags.toNat_lt
  have hsize := h.size.toNat_lt
  have hsize' := h'.size.toNat_lt
  refine ⟨UInt8.toNat_inj.mp ?_, UInt8.toNat_inj.mp ?_, UInt32.toNat_inj.mp ?_⟩ <;> omega

/-- **A difference in one field changes the seed.** -/
theorem packetSeed_ne {h h' : Header} (hone : h.differences h' = 1) :
    packetSeed h ≠ packetSeed h' := by
  intro heq
  rw [packetSeed_eq, packetSeed_eq] at heq
  have hwords := mix64_injective heq
  have hcall := @rotl64_injective 41 (by decide) (by decide)
  have hproc := @rotl64_injective 17 (by decide) (by decide)
  unfold Header.differences at hone
  -- the words come off one after the other, the differing one last
  by_cases hcallId : h.callId = h'.callId
  · rw [hcallId] at hwords
    have hwords := xor_injective _ hwords
    by_cases hprocId : h.procId = h'.procId
    · rw [hprocId] at hwords
      have hwords := (UInt64.xor_right_inj _).mp (xor_injective _ hwords)
      obtain ⟨hop, hflags, hsize⟩ := seedMeta_injective hwords
      simp [hop, hflags, hsize, hprocId, hcallId] at hone
    · have hmeta : seedMeta h = seedMeta h' := by
        rw [if_neg hprocId, if_pos hcallId] at hone
        split_ifs at hone with hop hflags hsize
        · rw [seedMeta, seedMeta, hop, hflags, hsize]
        all_goals omega
      rw [hmeta] at hwords
      exact hprocId (hproc ((UInt64.xor_right_inj _).mp hwords))
  · have hmeta : seedMeta h = seedMeta h' ∧ h.procId = h'.procId := by
      rw [if_neg hcallId] at hone
      split_ifs at hone with hop hflags hsize hprocId
      · exact ⟨by rw [seedMeta, seedMeta, hop, hflags, hsize], hprocId⟩
      all_goals omega
    rw [hmeta.1, hmeta.2] at hwords
    exact hcallId (hcall ((UInt64.xor_right_inj _).mp hwords))

/-! ## Corrupted packets -/

/-- `wirecall_packet_verify`. -/
def packetVerify (order : ByteOrder) (header : Header) (payload : List UInt8) : Bool :=
  packetVerifyEx ⟨order, integrityChecksum, none⟩ header payload

/-- The state at the end of `wirecall_packet_checksum`. -/
def packetHash (order : ByteOrder) (header : Header) (payload : List UInt8) : UInt64 :=
  cheapHashUpdate order (packetSeed header ^^^ 0xa0761d6478bd642f) payload

/-- The last line of `wirecall_packet_checksum`. -/
def fold32 (hash : UInt64) : UInt32 := (hash ^^^ (hash >>> 32)).toUInt32

/-- One field of the header is another one, or one block of the payload. -/
def Corrupted (h h' : Header) (p p' : List UInt8) : Prop :=
  h.differences h' = 1 ∧ p = p' ∨ h = h' ∧ SameButBlock p p'

/-- A packet that verifies has the fold of its state for checksum. -/
theorem checksum_of_packetVerify {order : ByteOrder} {h : Header} {p : List UInt8}
    (hverify : packetVerify order h p = true) : fold32 (packetHash order h p) = h.checksum := by
  unfold packetVerify packetVerifyEx at hverify
  split_ifs at hverify with hrefused hchecksum
  have hle : ¬ p.length > maxPayloadSize := by
    intro hlong
    exact hrefused (by simp [integrityRefused, hlong])
  have hmode : integrityChecksum ≠ 0 := by decide
  have hequal : packetChecksum order h p = h.checksum := by
    by_contra hne
    exact hchecksum (by simp [hmode, hne])
  rw [← hequal, packetChecksum, if_neg hle]
  rfl

/-- **The state tells a corrupted packet from the original.** -/
theorem packetHash_ne {order : ByteOrder} {h h' : Header} {p p' : List UInt8}
    (hcorrupted : Corrupted h h' p p') : packetHash order h p ≠ packetHash order h' p' := by
  obtain ⟨hone, rfl⟩ | ⟨rfl, hblock⟩ := hcorrupted
  · exact (cheapHashUpdate_injective p).ne ((xor_injective _).ne (packetSeed_ne hone))
  · exact cheapHashUpdate_ne _ hblock

/-- **The checksum's state loses nothing on a local corruption**: one block or one field that is
another makes another state, and a corrupted packet passes `wirecall_packet_verify` with the checksum
of the original only by a collision of the fold to 32 bits. -/
theorem corruption_collides (order : ByteOrder) :
    (∀ hash p p', SameButBlock p p' →
      cheapHashUpdate order hash p ≠ cheapHashUpdate order hash p') ∧
    (∀ h h' : Header, h.differences h' = 1 → packetSeed h ≠ packetSeed h') ∧
    (∀ (h h' : Header) (p p' : List UInt8), Corrupted h h' p p' → h.checksum = h'.checksum →
      packetVerify order h p = true → packetVerify order h' p' = true →
      packetHash order h p ≠ packetHash order h' p' ∧
        fold32 (packetHash order h p) = fold32 (packetHash order h' p')) := by
  refine ⟨fun hash _ _ => cheapHashUpdate_ne hash, fun _ _ => packetSeed_ne, ?_⟩
  intro h h' p p' hcorrupted hchecksum hverify hverify'
  refine ⟨packetHash_ne hcorrupted, ?_⟩
  rw [checksum_of_packetVerify hverify, hchecksum, checksum_of_packetVerify hverify']

/-- Two payloads of four bytes under one header that have the same checksum. -/
theorem corruption_collides_four_bytes :
    packetHash .little ⟨1, 0, 7, 4, 1, 0xd676f89f, 0⟩ [125, 88, 0, 0] ≠
        packetHash .little ⟨1, 0, 7, 4, 1, 0xd676f89f, 0⟩ [212, 168, 0, 0] ∧
      fold32 (packetHash .little ⟨1, 0, 7, 4, 1, 0xd676f89f, 0⟩ [125, 88, 0, 0]) =
        fold32 (packetHash .little ⟨1, 0, 7, 4, 1, 0xd676f89f, 0⟩ [212, 168, 0, 0]) := by
  have hblock : SameButBlock [125, 88, 0, 0] [212, 168, 0, 0] := by
    refine ⟨rfl, by decide, 0, fun i hi => ?_⟩
    rw [List.getElem?_eq_none (by simp; omega), List.getElem?_eq_none (by simp; omega)]
  exact (corruption_collides .little).2.2 _ _ _ _ (.inr ⟨rfl, hblock⟩) rfl (by decide +kernel)
    (by decide +kernel)

end Wirecall

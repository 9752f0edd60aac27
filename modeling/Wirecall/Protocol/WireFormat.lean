import Wirecall.Protocol.Integrity

/-!
# The wire format

The header is written byte by byte, so its bytes do not depend on the host. The checksum and the
MAC load words of the payload, of the key and of the header in the byte order of the host. They
agree on two hosts if these words are the same in both orders.

## Main definitions

* `Symmetric`: bytes that make the same word in both byte orders
* `wordLoads`, `checksumLoads`, `macLoads`, `nativeLoads`: what is loaded in the order of the host
* `SameTags`: two hosts compute the same checksum and the same MAC for a packet

## Main results

* `header_codec_and_signing`: **the header codec is exact**, and a signed packet verifies under
  every weaker mode
* `packetChecksum_order`, `packetMac_order`: the tags depend on the byte order through the loaded
  words only
* `wire_format_iff_sameTags`: **hosts of both byte orders agree** on a packet exactly if they compute
  the same tags for it, as they do where the loaded words are symmetric
* `byte_orders_disagree`: otherwise they do not
-/

namespace Wirecall

/-! ## The codec -/

section Codec

variable {i : Integrity} {order : ByteOrder} {mode mode' : UInt32} {key : Option (List UInt8)}
  {header : Header} {payload : List UInt8}

/-- A flag of a mode is a flag of every mode that contains it. -/
theorem flag_of_subset (hsub : mode' &&& mode = mode') {flag : UInt32}
    (hflag : mode' &&& flag ≠ 0) : mode &&& flag ≠ 0 := by
  intro hnone
  refine hflag ?_
  calc mode' &&& flag = mode' &&& mode &&& flag := by rw [hsub]
    _ = mode' &&& (mode &&& flag) := UInt32.and_assoc _ _ _
    _ = 0 := by rw [hnone, UInt32.and_zero]

/-- The three checks of `wirecall_packet_verify_ex`. -/
theorem packetVerifyEx_eq_true_iff : packetVerifyEx i header payload = true ↔
    integrityRefused i header payload = false ∧
      (i.mode &&& integrityChecksum ≠ 0 →
        packetChecksum i.order header payload = header.checksum) ∧
      (i.mode &&& integrityMac ≠ 0 →
        packetMac i.order header payload (i.macKey.getD []) = header.mac) := by
  unfold packetVerifyEx
  cases integrityRefused i header payload with
  | true => simp
  | false =>
    by_cases hchecksum : i.mode &&& integrityChecksum ≠ 0 ∧
        packetChecksum i.order header payload ≠ header.checksum
    · simp [hchecksum.1, hchecksum.2]
    · by_cases hmac : i.mode &&& integrityMac ≠ 0 ∧
          packetMac i.order header payload (i.macKey.getD []) ≠ header.mac
      · simp [hmac.1, hmac.2]
      · rw [not_and_or, not_not, not_not] at hchecksum hmac
        rcases hchecksum with hc | hc <;> rcases hmac with hm | hm <;> simp [hc, hm]

/-- **Verification under a mode passes under every mode that it contains.** -/
theorem packetVerifyEx_mono (hsub : mode' &&& mode = mode')
    (h : packetVerifyEx ⟨order, mode, key⟩ header payload = true) :
    packetVerifyEx ⟨order, mode', key⟩ header payload = true := by
  obtain ⟨hrefused, hchecksum, hmac⟩ := packetVerifyEx_eq_true_iff.mp h
  refine packetVerifyEx_eq_true_iff.mpr
    ⟨?_, fun hflag => hchecksum (flag_of_subset hsub hflag),
      fun hflag => hmac (flag_of_subset hsub hflag)⟩
  -- only the check for the key reads the mode
  simp only [integrityRefused, Bool.or_eq_false_iff, Bool.and_eq_false_iff,
    decide_eq_false_iff_not] at hrefused ⊢
  refine ⟨hrefused.1, hrefused.2.imp_left fun hnone => ?_⟩
  exact fun hflag => hnone (flag_of_subset hsub hflag)

/-- **The header codec and signing.** A header with a valid op and a size of at most 1 MiB is
encoded in 34 bytes and decoded from them. Of 34 bytes a header is decoded exactly when the first
is a valid op and the size field is at most 1 MiB, and it is encoded to the same bytes. A header
that announces its payload is signed, encoded and decoded to the signed header, which passes
verification under every mode contained in the one it was signed under. -/
theorem header_codec_and_signing :
    (∀ header : Header, validOp header.op = true → header.size.toNat ≤ 2 ^ 20 →
      ∃ bytes, headerEncode header = some bytes ∧ bytes.length = 34 ∧
        headerDecode bytes = some header) ∧
    (∀ bytes : List UInt8, bytes.length = 34 →
      ((headerDecode bytes).isSome = true ↔ validOp (bytes.getD 0 0) = true ∧
        BigEndian.value ((bytes.drop 10).take 4) ≤ 2 ^ 20) ∧
      ∀ header, headerDecode bytes = some header → headerEncode header = some bytes) ∧
    (∀ (header : Header) (payload : List UInt8), header.size.toNat = payload.length →
      ∀ (order : ByteOrder) (mode mode' : UInt32) (key : Option (List UInt8)),
      mode' &&& mode = mode' →
      ((∃ signed bytes, packetSignEx ⟨order, mode, key⟩ header payload = some signed ∧
        headerEncode signed = some bytes) ↔
        validOp header.op = true ∧ payload.length ≤ 2 ^ 20 ∧
          (mode &&& integrityMac ≠ 0 → key.isSome = true)) ∧
      ∀ signed bytes, packetSignEx ⟨order, mode, key⟩ header payload = some signed →
        headerEncode signed = some bytes → headerDecode bytes = some signed ∧
          packetVerifyEx ⟨order, mode', key⟩ signed payload = true) := by
  have hmax : maxPayloadSize = 2 ^ 20 := rfl
  refine ⟨?_, ?_, ?_⟩
  · intro header hop hsize
    have hencode := headerEncode_eq_some_iff.mpr ⟨⟨hop, hsize⟩, rfl⟩
    have hdecode := headerDecode_headerEncode hencode []
    rw [List.append_nil] at hdecode
    exact ⟨_, hencode, length_of_headerEncode hencode, hdecode⟩
  · intro bytes hlen
    have hsize : (getU32 (bytes.drop 10)).toNat = BigEndian.value ((bytes.drop 10).take 4) := by
      refine toNat_getU32 ?_
      rw [List.length_drop]
      omega
    refine ⟨⟨?_, ?_⟩, ?_⟩
    · intro hsome
      obtain ⟨header, hdecode⟩ := Option.isSome_iff_exists.mp hsome
      obtain ⟨⟨hop, hle⟩, -⟩ := headerDecode_eq_some_iff.mp hdecode
      exact ⟨hop, hsize ▸ hle⟩
    · rintro ⟨hop, hle⟩
      rw [headerDecode_eq_some_iff.mpr ⟨⟨hop, hsize ▸ hle⟩, rfl⟩]
      rfl
    · intro header hdecode
      rw [headerEncode_headerDecode hlen.ge hdecode]
      exact congrArg some (List.take_of_length_le hlen.le)
  · intro header payload hsize order mode mode' key hsub
    refine ⟨⟨?_, ?_⟩, ?_⟩
    · rintro ⟨signed, bytes, hsign, hencode⟩
      obtain ⟨hrefused, checksum, mac, rfl⟩ := packetSignEx_eq_some hsign
      obtain ⟨⟨hop, -⟩, -⟩ := headerEncode_eq_some_iff.mp hencode
      simp only [integrityRefused, Bool.or_eq_false_iff, Bool.and_eq_false_iff,
        decide_eq_false_iff_not, not_lt, hmax] at hrefused
      refine ⟨hop, hrefused.1.1, fun hflag => ?_⟩
      simpa using hrefused.2.resolve_left (fun h => h hflag)
    · rintro ⟨hop, hlen, hkey⟩
      have hrefused : integrityRefused ⟨order, mode, key⟩ header payload = false := by
        simp only [integrityRefused, Bool.or_eq_false_iff, Bool.and_eq_false_iff,
          decide_eq_false_iff_not, not_lt, hmax]
        refine ⟨⟨hlen, fun h => h hsize⟩, ?_⟩
        by_cases hflag : mode &&& integrityMac ≠ 0
        · exact .inr (by simpa using hkey hflag)
        · exact .inl hflag
      obtain ⟨signed, hsign⟩ : ∃ signed, packetSignEx ⟨order, mode, key⟩ header payload =
          some signed := ⟨_, by rw [packetSignEx, if_neg (by simp [hrefused])]⟩
      obtain ⟨-, checksum, mac, rfl⟩ := packetSignEx_eq_some hsign
      refine ⟨_, _, hsign, headerEncode_eq_some_iff.mpr ⟨⟨hop, ?_⟩, rfl⟩⟩
      rw [hmax]
      exact hsize.le.trans hlen
    · intro signed bytes hsign hencode
      have hdecode := headerDecode_headerEncode hencode []
      rw [List.append_nil] at hdecode
      exact ⟨hdecode, packetVerifyEx_mono hsub (packetVerifyEx_packetSignEx hsign)⟩

/-- A PING with two bytes, signed with checksum and MAC, is verified by its MAC alone. -/
theorem header_codec_and_signing_ping :
    let header : Header := ⟨2, 0, 1, 2, 7, 0, 0⟩
    let key : Option (List UInt8) := some (List.replicate 16 5)
    ∃ signed bytes, packetSignEx ⟨.little, 3, key⟩ header [1, 2] = some signed ∧
      headerEncode signed = some bytes ∧ headerDecode bytes = some signed ∧
      packetVerifyEx ⟨.little, 2, key⟩ signed [1, 2] = true := by
  intro header key
  obtain ⟨hcan, hverifies⟩ := header_codec_and_signing.2.2 header [1, 2] rfl .little 3 2 key rfl
  obtain ⟨signed, bytes, hsign, hencode⟩ :=
    hcan.mpr ⟨by decide, by decide, fun _ => by decide⟩
  exact ⟨signed, bytes, hsign, hencode, hverifies signed bytes hsign hencode⟩

end Codec

/-! ## What is loaded in the order of the host -/

/-- Bytes that make the same word in both byte orders. -/
def Symmetric (bytes : List UInt8) : Prop :=
  getU64Native .little bytes = getU64Native .big bytes

instance (bytes : List UInt8) : Decidable (Symmetric bytes) :=
  inferInstanceAs (Decidable (getU64Native .little bytes = getU64Native .big bytes))

/-- The words that a loop over whole words loads. -/
def wordLoads : ℕ → List UInt8 → List (List UInt8)
  | 0, _ => []
  | n + 1, data => data.take 8 :: wordLoads n (data.drop 8)

/-- What the checksum loads: the words of the payload, and what is left of it. -/
def checksumLoads (payload : List UInt8) : List (List UInt8) :=
  wordLoads (payload.length / 8) payload ++ [payload.drop (payload.length / 8 * 8)]

/-- What the MAC loads: the key, three words of `meta`, and the words of the payload behind its
first two bytes, which fill the fourth word of `meta` one by one. -/
def macLoads (header : Header) (payload key : List UInt8) : List (List UInt8) :=
  [key.take 8, (key.drop 8).take 8] ++ wordLoads 3 (macMeta header payload.length) ++
    wordLoads ((payload.length - 2) / 8) (payload.drop 2)

/-- What signing and verification load for a header that is signed. -/
def nativeLoads (mode : UInt32) (key : Option (List UInt8)) (header : Header)
    (payload : List UInt8) : List (List UInt8) :=
  (if mode &&& integrityChecksum ≠ 0 then checksumLoads payload else []) ++
    if mode &&& integrityMac ≠ 0 then macLoads header payload (key.getD []) else []

section Order

variable {order order' : ByteOrder} {header : Header} {payload key data : List UInt8}

theorem Symmetric.load {bytes : List UInt8} (h : Symmetric bytes) (order order' : ByteOrder) :
    getU64Native order bytes = getU64Native order' bytes := by
  cases order <;> cases order'
  · rfl
  · exact h
  · exact h.symm
  · rfl

variable (order order') in
theorem cheapHashWords_order {n : ℕ} {hash : UInt64}
    (h : ∀ bytes ∈ wordLoads n data, Symmetric bytes) :
    cheapHashWords order n hash data = cheapHashWords order' n hash data := by
  -- one word in each turn, as it is recorded
  induction n generalizing hash data with
  | zero => rfl
  | succ n ih =>
    obtain ⟨hword, hrest⟩ := List.forall_mem_cons.mp h
    rw [cheapHashWords, cheapHashWords, hword.load order order']
    exact ih hrest

theorem packetChecksum_order (h : ∀ bytes ∈ checksumLoads payload, Symmetric bytes) :
    packetChecksum order header payload = packetChecksum order' header payload := by
  obtain ⟨hwords, htail⟩ := List.forall_mem_append.mp h
  have htail' := (List.forall_mem_singleton.mp htail).load order order'
  simp only [packetChecksum, cheapHashUpdate, cheapHashWords_order order order' hwords, htail']

variable (order order') in
theorem sipWords_order {n : ℕ} {s : SipState} (h : ∀ bytes ∈ wordLoads n data, Symmetric bytes) :
    sipWords order n s data = sipWords order' n s data := by
  induction n generalizing s data with
  | zero => rfl
  | succ n ih =>
    obtain ⟨hword, hrest⟩ := List.forall_mem_cons.mp h
    rw [sipWords, sipWords, hword.load order order']
    exact ih hrest

/-- The bytes that fill the tail are taken off the front. -/
theorem sipFillTail_snd (s : SipState) (data : List UInt8) :
    (sipFillTail s data).2 = data.drop (8 - s.tailLen) := by
  induction data generalizing s with
  | nil => simp [sipFillTail]
  | cons b data ih =>
    rw [sipFillTail]
    split_ifs with hroom
    · obtain ⟨n, hn⟩ : ∃ n, 8 - s.tailLen = n + 1 := ⟨8 - s.tailLen - 1, by omega⟩
      have htail : (sipTailByte s b).tailLen = s.tailLen + 1 := rfl
      rw [ih, htail, hn, List.drop_succ_cons]
      congr 1
      omega
    · have hnone : 8 - s.tailLen = 0 := by omega
      rw [hnone, List.drop_zero]

/-- The words that `sip_update` loads stand behind the bytes that fill the tail. -/
theorem sipUpdate_order {s : SipState} (rest : List UInt8)
    (hrest : rest = if s.tailLen ≠ 0 then data.drop (8 - s.tailLen) else data)
    (h : ∀ bytes ∈ wordLoads (rest.length / 8) rest, Symmetric bytes) :
    sipUpdate order s data = sipUpdate order' s data := by
  simp only [sipUpdate]
  split_ifs at hrest ⊢ with hempty
  all_goals
    simp only [sipFillTail_snd]
    rw [← hrest, sipWords_order order order' h]

theorem sipWords_tailLen (order : ByteOrder) (n : ℕ) (s : SipState) (data : List UInt8) :
    (sipWords order n s data).tailLen = s.tailLen := by
  induction n generalizing s data with
  | zero => rfl
  | succ n ih => exact ih _ _

theorem foldl_sipTailByte_tailLen (s : SipState) (data : List UInt8) :
    (data.foldl sipTailByte s).tailLen = s.tailLen + data.length := by
  induction data generalizing s with
  | nil => rfl
  | cons b data ih =>
    rw [List.foldl_cons, ih, List.length_cons]
    change s.tailLen + 1 + data.length = _
    omega

/-- After a first update the tail holds what does not fill a word. -/
theorem sipUpdate_tailLen {s : SipState} (hs : s.tailLen = 0) (order : ByteOrder)
    (data : List UInt8) : (sipUpdate order s data).tailLen = data.length % 8 := by
  simp only [sipUpdate, hs, ne_eq, not_true_eq_false, if_false, OfNat.zero_ne_ofNat]
  rw [foldl_sipTailByte_tailLen, sipWords_tailLen, List.length_drop]
  change 0 + _ = _
  omega

theorem length_macMeta (header : Header) (n : ℕ) : (macMeta header n).length = 30 := by
  simp [macMeta]

theorem packetMac_order (h : ∀ bytes ∈ macLoads header payload key, Symmetric bytes) :
    packetMac order header payload key = packetMac order' header payload key := by
  obtain ⟨hfront, hpayload⟩ := List.forall_mem_append.mp h
  obtain ⟨hkey, hmeta⟩ := List.forall_mem_append.mp hfront
  have hkey₀ := (hkey _ List.mem_cons_self).load order order'
  have hkey₁ := (hkey _ (List.mem_cons_of_mem _ List.mem_cons_self)).load order order'
  unfold packetMac
  split_ifs with hlong
  · rfl
  · simp only [hkey₀, hkey₁]
    obtain ⟨s, hs⟩ : ∃ s : SipState, s =
      { v0 := 0x736f6d6570736575 ^^^ getU64Native order' (key.take 8)
        v1 := 0x646f72616e646f6d ^^^ getU64Native order' ((key.drop 8).take 8)
        v2 := 0x6c7967656e657261 ^^^ getU64Native order' (key.take 8)
        v3 := 0x7465646279746573 ^^^ getU64Native order' ((key.drop 8).take 8)
        totalLen := 0
        tail := 0
        tailLen := 0 } := ⟨_, rfl⟩
    have hempty : s.tailLen = 0 := by rw [hs]
    rw [← hs]
    -- the thirty bytes of the header leave six in the tail, so two of the payload go there
    have hfirst : sipUpdate order s (macMeta header payload.length) =
        sipUpdate order' s (macMeta header payload.length) := by
      refine sipUpdate_order (macMeta header payload.length) ?_ ?_
      · rw [if_neg (fun h => h hempty)]
      · rw [length_macMeta]
        exact hmeta
    have htail : (sipUpdate order' s (macMeta header payload.length)).tailLen = 6 := by
      rw [sipUpdate_tailLen hempty, length_macMeta]
    have hsecond : sipUpdate order (sipUpdate order' s (macMeta header payload.length)) payload =
        sipUpdate order' (sipUpdate order' s (macMeta header payload.length)) payload := by
      refine sipUpdate_order (payload.drop 2) ?_ ?_
      · rw [htail]
        rfl
      · rw [List.length_drop]
        exact hpayload
    rw [hfirst, hsecond]

end Order

/-! ## Packets between hosts -/

/-- The header as the MAC reads it: the sender has filled in the checksum. -/
def checksummed (order : ByteOrder) (mode : UInt32) (header : Header) (payload : List UInt8) :
    Header :=
  { header with
    checksum :=
      if mode &&& integrityChecksum ≠ 0 then packetChecksum order header payload else 0 }

/-- The checksum and the MAC that the mode asks for are the same on both hosts. -/
structure SameTags (sender receiver : ByteOrder) (mode : UInt32) (key : Option (List UInt8))
    (header : Header) (payload : List UInt8) : Prop where
  checksum : mode &&& integrityChecksum ≠ 0 →
    packetChecksum sender header payload = packetChecksum receiver header payload
  mac : mode &&& integrityMac ≠ 0 →
    packetMac sender (checksummed sender mode header payload) payload (key.getD []) =
      packetMac receiver (checksummed sender mode header payload) payload (key.getD [])

section Hosts

variable {sender receiver : ByteOrder} {mode : UInt32} {key : Option (List UInt8)}
  {header signed : Header} {payload : List UInt8}

/-- **What one host signs another accepts exactly if it computes the same tags.** -/
theorem packetVerifyEx_iff_sameTags
    (hsign : packetSignEx ⟨sender, mode, key⟩ header payload = some signed) :
    packetVerifyEx ⟨receiver, mode, key⟩ signed payload = true ↔
      SameTags sender receiver mode key header payload := by
  have hrefused := (packetSignEx_eq_some hsign).1
  unfold packetSignEx at hsign
  rw [if_neg (by simp [hrefused])] at hsign
  obtain rfl := Option.some.inj hsign
  rw [packetVerifyEx_eq_true_iff]
  -- the receiver compares its own tags with the fields that the sender has set
  constructor
  · rintro ⟨-, hchecksum, hmac⟩
    refine ⟨fun hflag => ?_, fun hflag => ?_⟩
    · have hfield := hchecksum hflag
      simp only at hfield
      rw [if_pos hflag] at hfield
      exact hfield.symm
    · have hfield := hmac hflag
      simp only at hfield
      rw [if_pos hflag] at hfield
      exact hfield.symm
  · rintro ⟨hchecksum, hmac⟩
    refine ⟨hrefused, fun hflag => ?_, fun hflag => ?_⟩
    · simp only
      rw [if_pos hflag]
      exact (hchecksum hflag).symm
    · simp only
      rw [if_pos hflag]
      exact (hmac hflag).symm

/-- The tags are the same if what is loaded for them is symmetric. -/
theorem sameTags_of_symmetric (hloads : ∀ loaded ∈
    nativeLoads mode key (checksummed sender mode header payload) payload, Symmetric loaded) :
    SameTags sender receiver mode key header payload := by
  obtain ⟨hfirst, hsecond⟩ := List.forall_mem_append.mp hloads
  constructor
  · intro hflag
    rw [if_pos hflag] at hfirst
    exact packetChecksum_order hfirst
  · intro hflag
    rw [if_pos hflag] at hsecond
    exact packetMac_order hsecond

end Hosts

/-- **Packets between hosts.** A packet that is signed and encoded on one host is decoded on every
other. It passes verification there exactly if the two hosts compute the same checksum and the same
MAC for it, as far as the mode asks for them. They do if they have the same byte order, and if the
words they load in their own order are symmetric. -/
theorem wire_format_iff_sameTags (sender receiver : ByteOrder) (mode : UInt32)
    (key : Option (List UInt8)) (header signed : Header) (payload bytes : List UInt8)
    (hsign : packetSignEx ⟨sender, mode, key⟩ header payload = some signed)
    (hencode : headerEncode signed = some bytes) :
    headerDecode bytes = some signed ∧
      (packetVerifyEx ⟨receiver, mode, key⟩ signed payload = true ↔
        SameTags sender receiver mode key header payload) ∧
      (sender = receiver ∨ (∀ loaded ∈
          nativeLoads mode key (checksummed sender mode header payload) payload,
          Symmetric loaded) →
        SameTags sender receiver mode key header payload) := by
  have hdecode := headerDecode_headerEncode hencode []
  rw [List.append_nil] at hdecode
  refine ⟨hdecode, packetVerifyEx_iff_sameTags hsign, ?_⟩
  rintro (rfl | hloads)
  · exact ⟨fun _ => rfl, fun _ => rfl⟩
  · exact sameTags_of_symmetric hloads

/-- A payload of zeros has the same checksum on both hosts. -/
theorem wire_format_of_zeros :
    let header : Header := ⟨2, 0, 1, 19, 7, 0, 0⟩
    let payload : List UInt8 := List.replicate 19 0
    ∃ signed bytes, packetSignEx ⟨.little, integrityChecksum, none⟩ header payload = some signed ∧
      headerEncode signed = some bytes ∧ headerDecode bytes = some signed ∧
      packetVerifyEx ⟨.big, integrityChecksum, none⟩ signed payload = true := by
  intro header payload
  have hsome : (packetSignEx ⟨.little, integrityChecksum, none⟩ header payload).isSome = true := by
    decide +kernel
  obtain ⟨signed, hsign⟩ := Option.isSome_iff_exists.mp hsome
  obtain ⟨-, checksum, mac, rfl⟩ := packetSignEx_eq_some hsign
  have hencode : headerEncode { header with checksum := checksum, mac := mac } = some _ :=
    headerEncode_eq_some_iff.mpr ⟨(by decide : validOp 2 = true ∧ 19 ≤ maxPayloadSize), rfl⟩
  have hloads : ∀ loaded ∈ checksumLoads payload ++ [], Symmetric loaded := by decide +kernel
  obtain ⟨hdecode, hiff, hsame⟩ := wire_format_iff_sameTags .little .big integrityChecksum none
    header _ payload _ hsign hencode
  exact ⟨_, _, hsign, hencode, hdecode, hiff.mpr (hsame (.inr hloads))⟩

/-- Symmetric words are not needed: folding the hash to 32 bits can hide the difference. These eight
bytes make two words, and one checksum. -/
theorem sameTags_of_collision :
    let payload : List UInt8 := [0x3a, 0x27, 0x79, 0x5c, 0, 0, 0, 0]
    ¬ Symmetric payload ∧
      packetChecksum .little ⟨2, 0, 1, 8, 7, 0, 0⟩ payload =
        packetChecksum .big ⟨2, 0, 1, 8, 7, 0, 0⟩ payload := by
  decide +kernel

/-- **The wire format depends on the byte order**: what a little-endian host signs with a checksum
over eight bytes, over one byte, or with a MAC over none, a big-endian host decodes and rejects. -/
theorem byte_orders_disagree :
    let accepted (mode : UInt32) (payload : List UInt8) : Option Bool :=
      let key : Option (List UInt8) := some [0, 1, 2, 3, 4, 5, 6, 7, 8, 9, 10, 11, 12, 13, 14, 15]
      let header : Header := ⟨2, 0, 1, UInt32.ofNat payload.length, 7, 0, 0⟩
      (packetSignEx ⟨.little, mode, key⟩ header payload).bind fun signed =>
        (headerEncode signed).bind fun bytes =>
          (headerDecode bytes).map fun decoded => packetVerifyEx ⟨.big, mode, key⟩ decoded payload
    accepted integrityChecksum [1, 2, 3, 4, 5, 6, 7, 8] = some false ∧
      accepted integrityChecksum [1] = some false ∧ accepted integrityMac [] = some false := by
  decide +kernel

end Wirecall

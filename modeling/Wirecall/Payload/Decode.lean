import Wirecall.Payload.Writer

/-!
# Decoding payloads

`wirecall_payload_decode`: a loop over an offset that stores one value per turn. The offset is a
`size_t`, so the width of `size_t` is a parameter and every sum of offsets wraps at it. A read at
or past the end of the payload is an outcome of its own, and so is a loop that runs on.

## Main definitions

* `Turn`, `decodeTurn`: what one turn of the loop does at an offset
* `decodeLoop`, `payloadDecode`: the loop and the function

## Main results

* `decodeTurn_sound`, `decodeTurn_complete`: a turn stores `v` exactly when the bytes at the
  offset start with the encoding of `v`
* `decodeLoop_complete`, `decodeLoop_sound`: so does the loop for lists of values
* `payload_codec`: **the codec is a bijection between value lists and accepted payloads**
-/

namespace Wirecall

/-- The dispatch table of `wirecall_payload_decode`. -/
def ValueType.ofCode? (tag : UInt8) : Option ValueType :=
  if tag = 0 then some .null
  else if tag = 1 then some .bool
  else if tag = 2 then some .i64
  else if tag = 3 then some .u64
  else if tag = 4 then some .f64
  else if tag = 5 then some .bytes
  else if tag = 6 then some .string
  else none

@[simp] theorem ValueType.ofCode?_code (type : ValueType) :
    ValueType.ofCode? type.code = some type := by
  cases type <;> rfl

theorem ValueType.code_of_ofCode? {tag : UInt8} {type : ValueType}
    (h : ValueType.ofCode? tag = some type) : tag = type.code := by
  unfold ValueType.ofCode? at h
  split_ifs at h with h₀ h₁ h₂ h₃ h₄ h₅ h₆ <;> cases h <;> assumption

/-- The first `len` bytes of `data`, as the copy a value owns. -/
def Blob.copy (data : List UInt8) (len : UInt32) : Blob where
  data := data.take len.toNat
  len_lt := lt_of_le_of_lt (List.length_take_le _ _) len.toNat_lt

/-- What one turn of the decode loop does. -/
inductive Turn where
  /-- The value is stored and the loop goes on at `off`. -/
  | store (value : Value) (off : ℕ)
  | malformed
  /-- The turn reads a byte at or past the end of the payload. -/
  | outOfBounds
  deriving DecidableEq

/-- The three labels `type_i64`, `type_u64`, `type_f64`. -/
def decodeWord (bits : ℕ) (data : List UInt8) (off : ℕ) (mk : UInt64 → Value) : Turn :=
  if (off + 8) % 2 ^ bits > data.length then .malformed
  else if off + 8 > data.length then .outOfBounds
  else .store (mk (getU64 (data.drop off))) ((off + 8) % 2 ^ bits)

/-- The `copy_len` of a value: a string is copied with a zero after it, so
its copy is one byte longer. -/
def copyLen (bits : ℕ) (terminated : Bool) (valueLen : ℕ) : ℕ :=
  if terminated then (valueLen + 1) % 2 ^ bits else valueLen

/-- The label `type_bytes` and `type_string` share. -/
def decodeBlob (bits : ℕ) (mem : Mem) (data : List UInt8) (off : ℕ) (terminated : Bool)
    (mk : Blob → Value) : Turn :=
  if (off + 4) % 2 ^ bits > data.length then .malformed
  else if off + 4 > data.length then .outOfBounds
  else
    let valueLen := getU32 (data.drop off)
    let off := (off + 4) % 2 ^ bits
    let next := (off + valueLen.toNat) % 2 ^ bits
    if next > data.length then .malformed
    else
      let copyLen := copyLen bits terminated valueLen.toNat
      if copyLen > 0 then
        if mem copyLen then
          -- the copy reads `value_len` bytes, whatever the wrapped sum above was
          if off + valueLen.toNat > data.length then .outOfBounds
          else .store (mk (.copy (data.drop off) valueLen)) next
        else .malformed
      else .store (mk .empty) next

/-- One turn of the loop of `wirecall_payload_decode`, from the tag at `off`. -/
def decodeTurn (bits : ℕ) (mem : Mem) (data : List UInt8) (off : ℕ) : Turn :=
  match data[off]? with
  | none => .outOfBounds
  | some tag =>
    let off := (off + 1) % 2 ^ bits
    match ValueType.ofCode? tag with
    | none => .malformed
    | some .null => .store .null off
    | some .bool =>
      if (off + 1) % 2 ^ bits > data.length then .malformed
      else match data[off]? with
        | none => .outOfBounds
        | some b =>
          if b ≠ 0 ∧ b ≠ 1 then .malformed
          else .store (.bool (b != 0)) ((off + 1) % 2 ^ bits)
    | some .i64 => decodeWord bits data off fun word => .i64 word.toInt64
    | some .u64 => decodeWord bits data off .u64
    | some .f64 => decodeWord bits data off .f64
    | some .bytes => decodeBlob bits mem data off false .bytes
    | some .string => decodeBlob bits mem data off true .string

/-- What `wirecall_payload_decode` does in the end. -/
inductive Decoded where
  | ok (values : List Value)
  /-- The function returns `-1`. -/
  | error
  | outOfBounds
  | outOfFuel
  deriving DecidableEq

/-- `sizeof(wirecall_value)`: a tag and a union of a word, or of a pointer and a length. -/
def sizeofValue (bits : ℕ) : ℕ := if bits = 64 then 24 else 16

/-- The capacity of the array of values after the growth step at the loop head. -/
def nextValueCap (count cap : ℕ) : ℕ :=
  if count = cap then (if cap ≠ 0 then cap * 2 else 4) else cap

/-- The allocator during one decode: in the turn that stores value number `k`, `grow k` answers
the request for a larger array and `copy k` the one for a copy of bytes. -/
structure DecodeMem where
  grow : ℕ → Mem
  copy : ℕ → Mem

/-- An allocator that grants every request. -/
def DecodeMem.granting : DecodeMem := ⟨fun _ _ => true, fun _ _ => true⟩

/-- Every request of the decode is granted. -/
def DecodeMem.Grants (mem : DecodeMem) : Prop :=
  (∀ k n, mem.grow k n = true) ∧ ∀ k n, mem.copy k n = true

theorem DecodeMem.granting_grants : DecodeMem.granting.Grants := ⟨fun _ _ => rfl, fun _ _ => rfl⟩

/-- The loop of `wirecall_payload_decode`, with the values stored so far and the capacity of
their array. -/
def decodeLoop (bits : ℕ) (mem : DecodeMem) (data : List UInt8) :
    ℕ → ℕ → ℕ → List Value → Decoded
  | 0, off, _, values => if off < data.length then .outOfFuel else .ok values
  | fuel + 1, off, cap, values =>
    if off < data.length then
      let nextCap := nextValueCap values.length cap
      -- the array has room for one entry more, the sentinel after the last value
      if values.length = cap ∧ mem.grow values.length ((nextCap + 1) * sizeofValue bits) = false then
        .error
      else match decodeTurn bits (mem.copy values.length) data off with
        | .store value off => decodeLoop bits mem data fuel off nextCap (values ++ [value])
        | .malformed => .error
        | .outOfBounds => .outOfBounds
    else .ok values

/-- `wirecall_payload_decode` with a `size_t` of `bits` bits. -/
def payloadDecodeWidth (bits : ℕ) (mem : DecodeMem) (data : List UInt8) : Decoded :=
  decodeLoop bits mem data data.length 0 0 []

/-- `wirecall_payload_decode` with a 64-bit `size_t`. -/
def payloadDecode (mem : DecodeMem) (data : List UInt8) : Decoded :=
  payloadDecodeWidth 64 mem data

/-! ## One turn -/

section Turn

variable {data : List UInt8} {off : ℕ}

/-- No sum of a turn wraps in 64 bits when the payload is at most 1 MiB. -/
theorem offset_mod {n k : ℕ} (hdata : data.length ≤ maxPayloadSize) (hoff : n ≤ data.length)
    (hk : k ≤ 2 ^ 32) : (n + k) % 2 ^ 64 = n + k := by
  have hmax : maxPayloadSize = 1048576 := rfl
  exact Nat.mod_eq_of_lt (by omega)

theorem drop_eq_cons {tag : UInt8} (h : data[off]? = some tag) :
    data.drop off = tag :: data.drop (off + 1) := by
  obtain ⟨hlt, rfl⟩ := List.getElem?_eq_some_iff.mp h
  exact List.drop_eq_getElem_cons hlt

/-- The bytes after a part of the payload that is known to stand at `off`. -/
theorem drop_add_of_drop {part rest : List UInt8} (h : data.drop off = part ++ rest) :
    data.drop (off + part.length) = rest := by
  rw [← List.drop_drop, h, List.drop_left]

theorem add_le_of_drop {part rest : List UInt8} (h : data.drop off = part ++ rest)
    (hpart : part ≠ []) : off + part.length ≤ data.length := by
  have hlen := congrArg List.length h
  have hpos := List.length_pos_of_ne_nil hpart
  simp only [List.length_drop, List.length_append] at hlen
  omega

theorem decodeWord_sound {mk : UInt64 → Value} {v : Value} {off' : ℕ}
    (hdata : data.length ≤ maxPayloadSize) (hoff : off ≤ data.length)
    (h : decodeWord 64 data off mk = .store v off') :
    ∃ word, v = mk word ∧ data.drop off = putU64 word ++ data.drop off' ∧
      off < off' ∧ off' ≤ data.length := by
  unfold decodeWord at h
  rw [offset_mod hdata hoff (by decide)] at h
  split_ifs at h with hmal
  cases h
  refine ⟨_, rfl, ?_, by omega, by omega⟩
  have hlen : 8 ≤ (data.drop off).length := by
    rw [List.length_drop]
    omega
  rw [putU64_getU64 hlen, ← List.drop_drop, List.take_append_drop]

theorem decodeWord_complete {mk : UInt64 → Value} {word : UInt64} {rest : List UInt8}
    (hdata : data.length ≤ maxPayloadSize) (h : data.drop off = putU64 word ++ rest) :
    decodeWord 64 data off mk = .store (mk word) (off + 8) := by
  have hle := add_le_of_drop h (by simp [← List.length_pos_iff_ne_nil])
  rw [length_putU64] at hle
  unfold decodeWord
  rw [offset_mod hdata (by omega) (by decide), if_neg (by omega), if_neg (by omega), h,
    getU64_putU64_append]

/-- What the label for bytes and strings does when no sum wraps: an empty byte value is stored
without an allocation, every other one owns a copy. -/
theorem decodeBlob_eq {mem : Mem} {terminated : Bool} {mk : Blob → Value} {len : UInt32}
    (hdata : data.length ≤ maxPayloadSize) (hoff : off + 4 ≤ data.length)
    (hlen : getU32 (data.drop off) = len) :
    decodeBlob 64 mem data off terminated mk =
      if off + 4 + len.toNat > data.length then .malformed
      else if copyLen 64 terminated len.toNat > 0 ∧ mem (copyLen 64 terminated len.toNat) = false
      then .malformed
      else .store (mk (.copy (data.drop (off + 4)) len)) (off + 4 + len.toNat) := by
  have hlt := len.toNat_lt
  unfold decodeBlob
  rw [offset_mod hdata (by omega) (by decide), if_neg (by omega), if_neg (by omega), hlen]
  simp only
  rw [offset_mod hdata hoff hlt.le]
  by_cases hnext : off + 4 + len.toNat > data.length
  · rw [if_pos hnext, if_pos hnext]
  rw [if_neg hnext, if_neg hnext, if_neg hnext]
  by_cases hcopy : copyLen 64 terminated len.toNat > 0
  · cases hmem : mem (copyLen 64 terminated len.toNat) <;> simp [hcopy]
  · -- only a byte value of length 0 needs no copy
    have hzero : len.toNat = 0 := by
      cases terminated with
      | true =>
        rw [copyLen, if_pos rfl, Nat.mod_eq_of_lt (by omega)] at hcopy
        omega
      | false => simpa [copyLen] using hcopy
    rw [if_neg hcopy, if_neg fun h => hcopy h.1]
    simp only [Blob.copy, Blob.empty, hzero, List.take_zero]

theorem decodeBlob_sound {mem : Mem} {terminated : Bool} {mk : Blob → Value} {v : Value}
    {off' : ℕ} (hdata : data.length ≤ maxPayloadSize) (hoff : off ≤ data.length)
    (h : decodeBlob 64 mem data off terminated mk = .store v off') :
    ∃ blob, v = mk blob ∧ data.drop off = putU32 blob.len ++ blob.data ++ data.drop off' ∧
      off < off' ∧ off' ≤ data.length := by
  have hfour : off + 4 ≤ data.length := by
    by_contra hgt
    rw [decodeBlob, offset_mod hdata hoff (by decide), if_pos (by omega)] at h
    cases h
  have hbytes : 4 ≤ (data.drop off).length := by
    rw [List.length_drop]
    omega
  obtain ⟨len, hlen⟩ : ∃ len, getU32 (data.drop off) = len := ⟨_, rfl⟩
  rw [decodeBlob_eq hdata hfour hlen] at h
  split_ifs at h with hnext
  cases h
  have hblob : (Blob.copy (data.drop (off + 4)) len).len = len := by
    apply UInt32.toNat_inj.mp
    rw [Blob.toNat_len, Blob.copy, List.length_take, List.length_drop]
    omega
  refine ⟨_, rfl, ?_, by omega, by omega⟩
  rw [hblob, ← hlen, putU32_getU32 hbytes, hlen, Blob.copy, List.append_assoc,
    ← List.drop_drop (i := len.toNat), List.take_append_drop, ← List.drop_drop,
    List.take_append_drop]

theorem decodeBlob_complete {mem : Mem} {terminated : Bool} {mk : Blob → Value} {blob : Blob}
    {rest : List UInt8} (hdata : data.length ≤ maxPayloadSize) (hmem : ∀ n, mem n = true)
    (h : data.drop off = putU32 blob.len ++ (blob.data ++ rest)) :
    decodeBlob 64 mem data off terminated mk =
      .store (mk blob) (off + 4 + blob.data.length) := by
  have hget : getU32 (data.drop off) = blob.len := by rw [h, getU32_putU32_append]
  have hle := add_le_of_drop (h.trans (List.append_assoc _ _ _).symm)
    (by simp [← List.length_pos_iff_ne_nil])
  rw [List.length_append, length_putU32] at hle
  have hdrop : data.drop (off + 4) = blob.data ++ rest := by
    simpa using drop_add_of_drop h
  rw [decodeBlob_eq hdata (by omega) hget, Blob.toNat_len, if_neg (by omega),
    if_neg (by simp [hmem]), hdrop]
  simp [Blob.copy]

/-- **A turn that stores a value has read the encoding of that value.** -/
theorem decodeTurn_sound {mem : Mem} {v : Value} {off' : ℕ}
    (hdata : data.length ≤ maxPayloadSize) (h : decodeTurn 64 mem data off = .store v off') :
    data.drop off = v.encode ++ data.drop off' ∧ off < off' ∧ off' ≤ data.length := by
  unfold decodeTurn at h
  split at h
  · cases h
  rename_i tag htag
  have hlt := (List.getElem?_eq_some_iff.mp htag).1
  have hcons := drop_eq_cons htag
  simp only at h
  rw [offset_mod hdata hlt.le (by decide)] at h
  split at h
  · cases h
  all_goals
    rename_i htype
    rw [ValueType.code_of_ofCode? htype] at hcons
  · cases h
    exact ⟨hcons, by omega, by omega⟩
  · rw [offset_mod hdata (by omega) (by decide)] at h
    split_ifs at h with hlen
    split at h
    · cases h
    rename_i b hb
    split_ifs at h with hbool
    cases h
    refine ⟨?_, by omega, by omega⟩
    rw [hcons, drop_eq_cons hb]
    rcases not_and_or.mp hbool with h0 | h1
    · simp [Value.encode, not_not.mp h0]
    · simp [Value.encode, not_not.mp h1]
  · obtain ⟨word, rfl, hdrop, hoff⟩ := decodeWord_sound hdata (by omega) h
    exact ⟨by rw [hcons, hdrop]; simp [Value.encode], by omega, hoff.2⟩
  · obtain ⟨word, rfl, hdrop, hoff⟩ := decodeWord_sound hdata (by omega) h
    exact ⟨by rw [hcons, hdrop]; rfl, by omega, hoff.2⟩
  · obtain ⟨word, rfl, hdrop, hoff⟩ := decodeWord_sound hdata (by omega) h
    exact ⟨by rw [hcons, hdrop]; rfl, by omega, hoff.2⟩
  · obtain ⟨blob, rfl, hdrop, hoff⟩ := decodeBlob_sound hdata (by omega) h
    exact ⟨by rw [hcons, hdrop]; rfl, by omega, hoff.2⟩
  · obtain ⟨blob, rfl, hdrop, hoff⟩ := decodeBlob_sound hdata (by omega) h
    exact ⟨by rw [hcons, hdrop]; rfl, by omega, hoff.2⟩

/-- The tag at an offset, and the bytes after it. -/
theorem tag_of_drop {t : ValueType} {rest : List UInt8}
    (hdata : data.length ≤ maxPayloadSize) (h : data.drop off = t.code :: rest) :
    data[off]? = some t.code ∧ (off + 1) % 2 ^ 64 = off + 1 ∧ data.drop (off + 1) = rest := by
  have hget : data[off]? = some t.code := by
    have hhead : (data.drop off)[0]? = some t.code := by rw [h]; rfl
    rwa [List.getElem?_drop, Nat.add_zero] at hhead
  have hlt := (List.getElem?_eq_some_iff.mp hget).1
  exact ⟨hget, offset_mod hdata hlt.le (by decide),
    drop_add_of_drop (show _ = [t.code] ++ rest from h)⟩

/-- **A turn at the encoding of a value stores that value.** -/
theorem decodeTurn_complete {mem : Mem} {v : Value} {rest : List UInt8}
    (hdata : data.length ≤ maxPayloadSize) (hmem : ∀ n, mem n = true)
    (h : data.drop off = v.encode ++ rest) :
    decodeTurn 64 mem data off = .store v (off + v.encode.length) := by
  unfold decodeTurn
  cases v with
  | null =>
    obtain ⟨hget, hoff, -⟩ := tag_of_drop (t := .null) hdata h
    simp only [hget, hoff, ValueType.ofCode?_code]
    rfl
  | bool value =>
    obtain ⟨hget, hoff, hdrop⟩ := tag_of_drop (t := .bool) hdata h
    have hle := add_le_of_drop (show _ = [if value then 1 else 0] ++ rest from hdrop) (by simp)
    have hbyte : data[off + 1]? = some (if value then 1 else 0) := by
      have hhead : (data.drop (off + 1))[0]? = some (if value then 1 else 0) := by rw [hdrop]; rfl
      rwa [List.getElem?_drop, Nat.add_zero] at hhead
    simp only [List.length_singleton] at hle
    simp only [hget, hoff, ValueType.ofCode?_code]
    rw [offset_mod hdata (by omega) (by decide), if_neg (by omega), hbyte]
    cases value <;> simp [Value.encode]
  | i64 value =>
    obtain ⟨hget, hoff, hdrop⟩ := tag_of_drop (t := .i64) hdata h
    simp only [hget, hoff, ValueType.ofCode?_code]
    rw [decodeWord_complete hdata hdrop]
    simp [Value.encode]
  | u64 value =>
    obtain ⟨hget, hoff, hdrop⟩ := tag_of_drop (t := .u64) hdata h
    simp only [hget, hoff, ValueType.ofCode?_code]
    rw [decodeWord_complete hdata hdrop]
    simp [Value.encode]
  | f64 value =>
    obtain ⟨hget, hoff, hdrop⟩ := tag_of_drop (t := .f64) hdata h
    simp only [hget, hoff, ValueType.ofCode?_code]
    rw [decodeWord_complete hdata hdrop]
    simp [Value.encode]
  | bytes blob =>
    obtain ⟨hget, hoff, hdrop⟩ := tag_of_drop (t := .bytes) hdata h
    simp only [hget, hoff, ValueType.ofCode?_code]
    rw [decodeBlob_complete hdata hmem (hdrop.trans (List.append_assoc _ _ _))]
    simp [Value.encode]
    omega
  | string blob =>
    obtain ⟨hget, hoff, hdrop⟩ := tag_of_drop (t := .string) hdata h
    simp only [hget, hoff, ValueType.ofCode?_code]
    rw [decodeBlob_complete hdata hmem (hdrop.trans (List.append_assoc _ _ _))]
    simp [Value.encode]
    omega

end Turn

/-! ## The loop -/

section Loop

variable {mem : DecodeMem} {data : List UInt8}

/-- Values the loop adds to those it already has are the ones the rest of the payload encodes. -/
theorem decodeLoop_sound {fuel off cap : ℕ} {values result : List Value}
    (hdata : data.length ≤ maxPayloadSize) (hoff : off ≤ data.length)
    (h : decodeLoop 64 mem data fuel off cap values = .ok result) :
    ∃ added, result = values ++ added ∧ data.drop off = encode added := by
  induction fuel generalizing off cap values with
  | zero =>
    rw [decodeLoop] at h
    split_ifs at h with hlt
    cases h
    exact ⟨[], by simp, by simpa using not_lt.mp hlt⟩
  | succ fuel ih =>
    rw [decodeLoop] at h
    by_cases hlt : off < data.length
    · rw [if_pos hlt] at h
      simp only at h
      split_ifs at h with hfull
      cases hturn : decodeTurn 64 (mem.copy values.length) data off with
      | store v off' =>
        obtain ⟨hdrop, -, hle⟩ := decodeTurn_sound hdata hturn
        rw [hturn] at h
        obtain ⟨added, rfl, hrest⟩ := ih hle h
        exact ⟨v :: added, by simp, by rw [hdrop, hrest, encode_cons]⟩
      | malformed => rw [hturn] at h; cases h
      | outOfBounds => rw [hturn] at h; cases h
    · rw [if_neg hlt] at h
      cases h
      exact ⟨[], by simp, by simpa using not_lt.mp hlt⟩

theorem Value.encode_length_pos (v : Value) : 0 < v.encode.length := by
  cases v <;> simp [Value.encode]

/-- With memory granted, the loop stores every value of the list that the rest encodes. -/
theorem decodeLoop_complete {fuel off cap : ℕ} {values added : List Value}
    (hdata : data.length ≤ maxPayloadSize) (hmem : mem.Grants)
    (hfuel : data.length ≤ off + fuel) (h : data.drop off = encode added) :
    decodeLoop 64 mem data fuel off cap values = .ok (values ++ added) := by
  induction added generalizing fuel off cap values with
  | nil =>
    -- nothing is left, so the loop condition is false whatever fuel remains
    have hend : ¬ off < data.length := by simpa using List.drop_eq_nil_iff.mp h
    cases fuel <;> simp [decodeLoop, hend]
  | cons v added ih =>
    rw [encode_cons] at h
    have hpos := v.encode_length_pos
    have hle := add_le_of_drop h (List.length_pos_iff_ne_nil.mp hpos)
    obtain ⟨fuel, rfl⟩ : ∃ f, fuel = f + 1 := ⟨fuel - 1, by omega⟩
    rw [decodeLoop, if_pos (by omega)]
    simp only
    rw [if_neg (by simp [hmem.1]), decodeTurn_complete hdata (hmem.2 _) h]
    simp only
    rw [ih (by omega) (drop_add_of_drop h)]
    simp

/-- No turn of a 64-bit decoder reads past the payload. -/
theorem decodeTurn_ne_outOfBounds {mem : Mem} {off : ℕ} (hdata : data.length ≤ maxPayloadSize)
    (hoff : off < data.length) : decodeTurn 64 mem data off ≠ .outOfBounds := by
  have hword : ∀ mk, decodeWord 64 data (off + 1) mk ≠ .outOfBounds := by
    intro mk
    rw [decodeWord, offset_mod hdata hoff (by decide)]
    split_ifs <;> simp
  have hblob : ∀ terminated mk, decodeBlob 64 mem data (off + 1) terminated mk ≠ .outOfBounds := by
    intro terminated mk
    by_cases hfour : off + 1 + 4 ≤ data.length
    · rw [decodeBlob_eq hdata hfour rfl]
      split_ifs <;> simp
    · rw [decodeBlob, offset_mod hdata hoff (by decide), if_pos (by omega)]
      simp
  rw [decodeTurn, List.getElem?_eq_getElem hoff]
  simp only
  rw [offset_mod hdata hoff.le (by decide)]
  split
  · simp
  · simp
  · rw [offset_mod hdata hoff (by decide)]
    by_cases hlen : off + 1 + 1 > data.length
    · rw [if_pos hlen]
      simp
    · rw [if_neg hlen, List.getElem?_eq_getElem (by omega)]
      simp only
      split_ifs <;> simp
  · exact hword _
  · exact hword _
  · exact hword _
  · exact hblob _ _
  · exact hblob _ _

/-- **The decoder returns**: it stores a list or reports `-1`, and never reads past the payload
or runs on. -/
theorem decodeLoop_returns {fuel off cap : ℕ} {values : List Value}
    (hdata : data.length ≤ maxPayloadSize) (hfuel : data.length ≤ off + fuel) :
    (∃ result, decodeLoop 64 mem data fuel off cap values = .ok result) ∨
      decodeLoop 64 mem data fuel off cap values = .error := by
  induction fuel generalizing off cap values with
  | zero => exact .inl ⟨values, by rw [decodeLoop, if_neg (by omega)]⟩
  | succ fuel ih =>
    rw [decodeLoop]
    by_cases hlt : off < data.length
    · rw [if_pos hlt]
      simp only
      split
      · exact .inr rfl
      · cases hturn : decodeTurn 64 (mem.copy values.length) data off with
        | store v off' =>
          obtain ⟨-, hoff, -⟩ := decodeTurn_sound hdata hturn
          exact ih (by omega)
        | malformed => exact .inr rfl
        | outOfBounds => exact absurd hturn (decodeTurn_ne_outOfBounds hdata hlt)
    · exact .inl ⟨values, by rw [if_neg hlt]⟩

end Loop

/-! ## The codec -/

/-- The decoder accepts only encodings. -/
theorem eq_encode_of_payloadDecode {mem : DecodeMem} {data : List UInt8} {vs : List Value}
    (hdata : data.length ≤ maxPayloadSize) (h : payloadDecode mem data = .ok vs) :
    data = encode vs := by
  obtain ⟨added, rfl, hdrop⟩ := decodeLoop_sound hdata (Nat.zero_le _) h
  simpa using hdrop

/-- With memory granted, the decoder accepts every encoding. -/
theorem payloadDecode_encode {mem : DecodeMem} {vs : List Value}
    (hsize : (encode vs).length ≤ maxPayloadSize) (hmem : mem.Grants) :
    payloadDecode mem (encode vs) = .ok vs := by
  have hloop : payloadDecode mem (encode vs) = .ok ([] ++ vs) :=
    decodeLoop_complete hsize hmem (by omega) rfl
  simpa using hloop

/-- A payload is the encoding of one list of values. -/
theorem encode_inj {vs vs' : List Value} (hsize : (encode vs).length ≤ maxPayloadSize)
    (h : encode vs = encode vs') : vs = vs' := by
  have hvs := payloadDecode_encode hsize DecodeMem.granting_grants
  have hvs' := payloadDecode_encode (h ▸ hsize) DecodeMem.granting_grants
  rw [h, hvs'] at hvs
  exact (Decoded.ok.inj hvs).symm

theorem payloadDecode_returns (mem : DecodeMem) {data : List UInt8}
    (hdata : data.length ≤ maxPayloadSize) :
    (∃ vs, payloadDecode mem data = .ok vs) ∨ payloadDecode mem data = .error :=
  decodeLoop_returns hdata (by omega)

/-- **The payload codec is a bijection between value lists and accepted payloads**: what the
writer calls write decodes to the list written, the decoder accepts exactly the encodings, and
writing what it returns gives the payload back. -/
theorem payload_codec :
    (∀ vs, (encode vs).length ≤ maxPayloadSize →
      ∃ w, writeValues (fun _ => true) writerInit vs = (.ok, w) ∧ w.data = encode vs ∧
        payloadDecode .granting w.data = .ok vs) ∧
    (∀ data : List UInt8, data.length ≤ maxPayloadSize →
      ((∃ vs, payloadDecode .granting data = .ok vs) ↔ ∃ vs, data = encode vs) ∧
      ((¬ ∃ vs, data = encode vs) → payloadDecode .granting data = .error) ∧
      ∀ vs, payloadDecode .granting data = .ok vs →
        ∃ w, writeValues (fun _ => true) writerInit vs = (.ok, w) ∧ w.data = data) := by
  refine ⟨?_, ?_⟩
  · intro vs hsize
    obtain ⟨w, hw, hdata⟩ := writeValues_init hsize
    exact ⟨w, hw, hdata, by rw [hdata]; exact payloadDecode_encode hsize DecodeMem.granting_grants⟩
  · intro data hdata
    refine ⟨⟨?_, ?_⟩, ?_, ?_⟩
    · rintro ⟨vs, hvs⟩
      exact ⟨vs, eq_encode_of_payloadDecode hdata hvs⟩
    · rintro ⟨vs, rfl⟩
      exact ⟨vs, payloadDecode_encode hdata DecodeMem.granting_grants⟩
    · intro hnot
      rcases payloadDecode_returns .granting hdata with ⟨vs, hvs⟩ | herr
      · exact absurd ⟨vs, eq_encode_of_payloadDecode hdata hvs⟩ hnot
      · exact herr
    · intro vs hvs
      have henc := eq_encode_of_payloadDecode hdata hvs
      obtain ⟨w, hw, hwrite⟩ := writeValues_init (henc ▸ hdata)
      exact ⟨w, hw, hwrite.trans henc.symm⟩

/-- A boolean and a string, through the writer and back; a boolean byte `2` is refused. -/
theorem payload_codec_bool_string :
    (∃ w, writeValues (fun _ => true) writerInit [.bool true, .string ⟨[104, 105], by decide⟩] =
        (.ok, w) ∧ w.data = [1, 1, 6, 0, 0, 0, 2, 104, 105] ∧
      payloadDecode .granting w.data =
        .ok [.bool true, .string ⟨[104, 105], by decide⟩]) ∧
    ((∃ vs, payloadDecode .granting [1, 2] = .ok vs) ↔ ∃ vs, [1, 2] = encode vs) :=
  ⟨payload_codec.1 _ (by decide), (payload_codec.2 _ (by decide)).1⟩

end Wirecall

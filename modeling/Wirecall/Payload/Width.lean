import Wirecall.Payload.Decode

/-!
# Decoding with a 32-bit `size_t`

With a `size_t` of 32 bits the sum `off + value_len` of `wirecall_payload_decode` can wrap, and so
can `copy_len`. A length that makes the first one wrap is at least `2^31`, so the request for the
copy is refused, except for a string of length `2^32 - 1`: its `copy_len` is 0, nothing is copied,
and the offset moves back by one byte. The byte it then stands on is the last one of the length,
255, which is no tag.

## Main definitions

* `refusingHuge`: an allocator that refuses requests of `2^31` bytes or more
* `unboundedTurn`, `unboundedLoop`, `payloadDecodeUnbounded`: the decoder with integers that do not
  wrap
* `TurnAgrees`: how a turn at 32 bits compares with one that does not wrap

## Main results

* `decodeLoop_wide`: with a `size_t` that has room for the payload and a length nothing wraps
* `decodeTurn_agrees`, `decodeLoop_agrees`: one turn, and the loop, at 32 bits
* `decode_narrow`: **the decoder at 32 bits is the one with unbounded integers**
-/

namespace Wirecall

/-- An allocator that refuses requests of `2^31` bytes or more and grants all others. -/
def refusingHuge : Mem := fun n => decide (n < 2 ^ 31)

/-- Such an allocator for both kinds of requests of a decode. -/
def DecodeMem.refusingHuge : DecodeMem where
  grow _ := Wirecall.refusingHuge
  copy _ := Wirecall.refusingHuge

/-! ## The decoder with unbounded integers -/

/-- `decodeWord` with an offset that does not wrap. -/
def unboundedWord (data : List UInt8) (off : ℕ) (mk : UInt64 → Value) : Turn :=
  if off + 8 > data.length then .malformed else .store (mk (getU64 (data.drop off))) (off + 8)

/-- `decodeBlob` with an offset and a `copy_len` that do not wrap. -/
def unboundedBlob (mem : Mem) (data : List UInt8) (off : ℕ) (terminated : Bool)
    (mk : Blob → Value) : Turn :=
  if off + 4 > data.length then .malformed
  else
    let valueLen := getU32 (data.drop off)
    let off := off + 4
    if off + valueLen.toNat > data.length then .malformed
    else
      let copyLen := if terminated then valueLen.toNat + 1 else valueLen.toNat
      if copyLen > 0 then
        if mem copyLen then .store (mk (.copy (data.drop off) valueLen)) (off + valueLen.toNat)
        else .malformed
      else .store (mk .empty) (off + valueLen.toNat)

/-- `decodeTurn` with an offset that does not wrap. -/
def unboundedTurn (mem : Mem) (data : List UInt8) (off : ℕ) : Turn :=
  match data[off]? with
  | none => .outOfBounds
  | some tag =>
    match ValueType.ofCode? tag with
    | none => .malformed
    | some .null => .store .null (off + 1)
    | some .bool =>
      if off + 1 + 1 > data.length then .malformed
      else match data[off + 1]? with
        | none => .outOfBounds
        | some b =>
          if b ≠ 0 ∧ b ≠ 1 then .malformed else .store (.bool (b != 0)) (off + 1 + 1)
    | some .i64 => unboundedWord data (off + 1) fun word => .i64 word.toInt64
    | some .u64 => unboundedWord data (off + 1) .u64
    | some .f64 => unboundedWord data (off + 1) .f64
    | some .bytes => unboundedBlob mem data (off + 1) false .bytes
    | some .string => unboundedBlob mem data (off + 1) true .string

/-- `decodeLoop` with turns that do not wrap; `size` is the size of an entry of the array. -/
def unboundedLoop (size : ℕ) (mem : DecodeMem) (data : List UInt8) :
    ℕ → ℕ → ℕ → List Value → Decoded
  | 0, off, _, values => if off < data.length then .outOfFuel else .ok values
  | fuel + 1, off, cap, values =>
    if off < data.length then
      let nextCap := nextValueCap values.length cap
      if values.length = cap ∧ mem.grow values.length ((nextCap + 1) * size) = false then .error
      else match unboundedTurn (mem.copy values.length) data off with
        | .store value off => unboundedLoop size mem data fuel off nextCap (values ++ [value])
        | .malformed => .error
        | .outOfBounds => .outOfBounds
    else .ok values

/-- `wirecall_payload_decode` with unbounded integers and the array of a 32-bit host. -/
def payloadDecodeUnbounded (mem : DecodeMem) (data : List UInt8) : Decoded :=
  unboundedLoop (sizeofValue 32) mem data data.length 0 0 []

/-! ## A `size_t` that is wide enough -/

section Wide

variable {data : List UInt8} {off bits size : ℕ} {mem : Mem}

/-- A turn that does not wrap refuses, or it stores a value and goes on further in the payload. -/
theorem unboundedTurn_cases (hoff : off < data.length) :
    unboundedTurn mem data off = .malformed ∨
      ∃ v next, unboundedTurn mem data off = .store v next ∧ off < next ∧ next ≤ data.length := by
  have hword (mk : UInt64 → Value) : unboundedWord data (off + 1) mk = .malformed ∨
      ∃ v next, unboundedWord data (off + 1) mk = .store v next ∧ off < next ∧
        next ≤ data.length := by
    unfold unboundedWord
    split_ifs
    · exact .inl rfl
    · exact .inr ⟨_, _, rfl, by omega, by omega⟩
  have hblob (terminated : Bool) (mk : Blob → Value) :
      unboundedBlob mem data (off + 1) terminated mk = .malformed ∨
        ∃ v next, unboundedBlob mem data (off + 1) terminated mk = .store v next ∧ off < next ∧
          next ≤ data.length := by
    unfold unboundedBlob
    simp only
    split_ifs
    all_goals first
      | exact .inl rfl
      | exact .inr ⟨_, _, rfl, by omega, by omega⟩
  unfold unboundedTurn
  rw [List.getElem?_eq_getElem hoff]
  simp only
  cases ValueType.ofCode? data[off] with
  | none => exact .inl rfl
  | some type =>
    cases type with
    | null => exact .inr ⟨_, _, rfl, by omega, by omega⟩
    | bool =>
      simp only
      by_cases hlen : off + 1 + 1 > data.length
      · rw [if_pos hlen]
        exact .inl rfl
      · rw [if_neg hlen, List.getElem?_eq_getElem (by omega)]
        simp only
        split_ifs
        · exact .inl rfl
        · exact .inr ⟨_, _, rfl, by omega, by omega⟩
    | i64 => exact hword _
    | u64 => exact hword _
    | f64 => exact hword _
    | bytes => exact hblob _ _
    | string => exact hblob _ _

/-- **A decoder that does not wrap ends**, and it reads nothing past the payload. -/
theorem unboundedLoop_ends {mem : DecodeMem} {fuel cap : ℕ} {values : List Value}
    (hfuel : data.length ≤ off + fuel) :
    unboundedLoop size mem data fuel off cap values ≠ .outOfBounds ∧
      unboundedLoop size mem data fuel off cap values ≠ .outOfFuel := by
  induction fuel generalizing off cap values with
  | zero =>
    rw [unboundedLoop, if_neg (by omega)]
    exact ⟨by simp, by simp⟩
  | succ fuel ih =>
    rw [unboundedLoop]
    by_cases hlt : off < data.length
    · rw [if_pos hlt]
      simp only
      split_ifs
      · exact ⟨by simp, by simp⟩
      obtain hturn | ⟨v, next, hturn, hnext, -⟩ :=
        @unboundedTurn_cases data off (mem.copy values.length) hlt
      · rw [hturn]
        exact ⟨by simp, by simp⟩
      · rw [hturn]
        exact ih (by omega)
    · rw [if_neg hlt]
      exact ⟨by simp, by simp⟩

/-- **With room for the payload and a length nothing wraps.** -/
theorem decodeTurn_wide (hbits : data.length + 2 ^ 33 ≤ 2 ^ bits) (hoff : off < data.length) :
    decodeTurn bits mem data off = unboundedTurn mem data off := by
  have hmod {n : ℕ} (hn : n < data.length + 2 ^ 33) : n % 2 ^ bits = n :=
    Nat.mod_eq_of_lt (by omega)
  have hword (mk : UInt64 → Value) :
      decodeWord bits data (off + 1) mk = unboundedWord data (off + 1) mk := by
    unfold decodeWord unboundedWord
    rw [hmod (by omega)]
    split_ifs
    · rfl
    · rfl
  have hblob (terminated : Bool) (mk : Blob → Value) :
      decodeBlob bits mem data (off + 1) terminated mk =
        unboundedBlob mem data (off + 1) terminated mk := by
    have hlen := (getU32 (data.drop (off + 1))).toNat_lt
    unfold decodeBlob unboundedBlob copyLen
    simp only
    rw [hmod (by omega), hmod (by omega), hmod (by omega)]
    split_ifs
    all_goals rfl
  unfold decodeTurn unboundedTurn
  rw [List.getElem?_eq_getElem hoff]
  simp only
  rw [hmod (by omega), hmod (by omega)]
  cases ValueType.ofCode? data[off] with
  | none => rfl
  | some type =>
    cases type with
    | null => rfl
    | bool => rfl
    | i64 => exact hword _
    | u64 => exact hword _
    | f64 => exact hword _
    | bytes => exact hblob _ _
    | string => exact hblob _ _

/-- **The loop with a wide `size_t`** is the one that does not wrap. -/
theorem decodeLoop_wide {mem : DecodeMem} {fuel cap : ℕ} {values : List Value}
    (hbits : data.length + 2 ^ 33 ≤ 2 ^ bits) :
    decodeLoop bits mem data fuel off cap values =
      unboundedLoop (sizeofValue bits) mem data fuel off cap values := by
  induction fuel generalizing off cap values with
  | zero => rfl
  | succ fuel ih =>
    rw [decodeLoop, unboundedLoop]
    by_cases hlt : off < data.length
    · rw [if_pos hlt, if_pos hlt]
      simp only
      rw [decodeTurn_wide hbits hlt]
      cases unboundedTurn (mem.copy values.length) data off with
      | store value off => simp only [ih]
      | malformed => rfl
      | outOfBounds => rfl
    · rw [if_neg hlt, if_neg hlt]

/-- Such a decoder returns. -/
theorem payloadDecodeWidth_ends (mem : DecodeMem) (hbits : data.length + 2 ^ 33 ≤ 2 ^ bits) :
    payloadDecodeWidth bits mem data ≠ .outOfBounds ∧
      payloadDecodeWidth bits mem data ≠ .outOfFuel := by
  rw [payloadDecodeWidth, decodeLoop_wide hbits]
  exact unboundedLoop_ends (by omega)

end Wide

/-! ## One turn at 32 bits -/

/-- **How a turn at 32 bits compares** with one that does not wrap: they agree, or the offset has
wrapped to a byte that is no tag. -/
inductive TurnAgrees (data : List UInt8) (off : ℕ) : Turn → Turn → Prop
  | malformed : TurnAgrees data off .malformed .malformed
  | store {v : Value} {next : ℕ} (hlt : off < next) (hle : next ≤ data.length) :
      TurnAgrees data off (.store v next) (.store v next)
  | wrapped {v : Value} {next : ℕ} (hlt : off < next) (htag : data[next]? = some 255) :
      TurnAgrees data off (.store v next) .malformed

section Turn

variable {data : List UInt8} {off : ℕ}

/-- Small sums do not wrap in 32 bits either. -/
theorem offset_mod_narrow {n k : ℕ} (hdata : data.length ≤ maxPayloadSize) (hoff : n ≤ data.length)
    (hk : k ≤ 2 ^ 31) : (n + k) % 2 ^ 32 = n + k := by
  have hmax : maxPayloadSize = 1048576 := rfl
  exact Nat.mod_eq_of_lt (by omega)

theorem TurnAgrees.mono {a b : Turn} {off' : ℕ} (hle : off ≤ off') (h : TurnAgrees data off' a b) :
    TurnAgrees data off a b := by
  cases h with
  | malformed => exact .malformed
  | store hlt hnext => exact .store (by omega) hnext
  | wrapped hlt htag => exact .wrapped (by omega) htag

theorem decodeWord_agrees (hdata : data.length ≤ maxPayloadSize) (hoff : off ≤ data.length)
    (mk : UInt64 → Value) :
    TurnAgrees data off (decodeWord 32 data off mk) (unboundedWord data off mk) := by
  unfold decodeWord unboundedWord
  rw [offset_mod_narrow hdata hoff (by decide)]
  by_cases hlen : off + 8 > data.length
  · rw [if_pos hlen, if_pos hlen]
    exact .malformed
  · rw [if_neg hlen, if_neg hlen, if_neg hlen]
    exact .store (by omega) (by omega)

/-- The last byte of the length `2^32 - 1`. -/
theorem getElem?_of_getU32_max (hlen : off + 4 ≤ data.length)
    (hmax : (getU32 (data.drop off)).toNat = 2 ^ 32 - 1) : data[off + 3]? = some 255 := by
  -- the four bytes are those that are written for this length
  have hbytes : putU32 (getU32 (data.drop off)) = (data.drop off).take 4 :=
    putU32_getU32 (by rw [List.length_drop]; omega)
  have hword : getU32 (data.drop off) = 0xFFFFFFFF := UInt32.toNat_inj.mp hmax
  rw [hword] at hbytes
  have hlast : ((data.drop off).take 4)[3]? = some 255 := by
    rw [← hbytes]
    decide
  rwa [List.getElem?_take_of_lt (by decide), List.getElem?_drop] at hlast

/-- A length that makes the offset wrap is refused by the allocator, or it is that of the longest
string. -/
theorem copyLen_of_wraps {terminated : Bool} {valueLen : ℕ} (hlt : valueLen < 2 ^ 32)
    (hhuge : 2 ^ 31 ≤ valueLen) :
    (copyLen 32 terminated valueLen = 0 ∧ valueLen = 2 ^ 32 - 1) ∨
      (copyLen 32 terminated valueLen > 0 ∧
        refusingHuge (copyLen 32 terminated valueLen) = false) := by
  unfold copyLen refusingHuge
  cases terminated with
  | false =>
    right
    simp only [Bool.false_eq_true, if_false, decide_eq_false_iff_not]
    omega
  | true =>
    simp only [if_true, decide_eq_false_iff_not]
    by_cases hmax : valueLen = 2 ^ 32 - 1
    · subst hmax
      exact .inl ⟨by decide, rfl⟩
    · rw [Nat.mod_eq_of_lt (by omega)]
      right
      omega

theorem decodeBlob_agrees (hdata : data.length ≤ maxPayloadSize) (hoff : off ≤ data.length)
    (terminated : Bool) (mk : Blob → Value) :
    TurnAgrees data off (decodeBlob 32 refusingHuge data off terminated mk)
      (unboundedBlob refusingHuge data off terminated mk) := by
  have hmaxSize : maxPayloadSize = 1048576 := rfl
  unfold decodeBlob unboundedBlob
  rw [offset_mod_narrow hdata hoff (by decide)]
  by_cases hfour : off + 4 > data.length
  · rw [if_pos hfour, if_pos hfour]
    exact .malformed
  rw [if_neg hfour, if_neg hfour, if_neg hfour]
  simp only
  obtain ⟨valueLen, hvalueLen⟩ : ∃ n, (getU32 (data.drop off)).toNat = n := ⟨_, rfl⟩
  have hlt : valueLen < 2 ^ 32 := hvalueLen ▸ (getU32 (data.drop off)).toNat_lt
  rw [hvalueLen]
  by_cases hwraps : off + 4 + valueLen < 2 ^ 32
  · -- nothing wraps, so the two checks are the same
    rw [Nat.mod_eq_of_lt hwraps]
    by_cases hnext : off + 4 + valueLen > data.length
    · rw [if_pos hnext, if_pos hnext]
      exact .malformed
    · have hcopy : copyLen 32 terminated valueLen =
          if terminated then valueLen + 1 else valueLen := by
        unfold copyLen
        rw [Nat.mod_eq_of_lt (by omega)]
      rw [if_neg hnext, if_neg hnext, if_neg hnext, hcopy]
      split_ifs
      all_goals first
        | exact .malformed
        | exact .store (by omega) (by omega)
  · -- the unbounded decoder refuses the length by its bounds check
    have hpast : off + 4 + valueLen > data.length := by omega
    obtain ⟨hcopy, hmax⟩ | ⟨hcopy, hrefused⟩ :=
      @copyLen_of_wraps terminated valueLen hlt (by omega)
    · have hnext : (off + 4 + valueLen) % 2 ^ 32 = off + 3 := by
        rw [hmax, show off + 4 + (2 ^ 32 - 1) = off + 3 + 2 ^ 32 by omega, Nat.add_mod_right]
        exact Nat.mod_eq_of_lt (by omega)
      rw [hnext, hcopy, if_neg (show ¬ off + 3 > data.length by omega), if_neg (lt_irrefl 0),
        if_pos hpast]
      exact .wrapped (by omega) (getElem?_of_getU32_max (by omega) (hvalueLen.trans hmax))
    · rw [if_pos hcopy, hrefused, if_neg Bool.false_ne_true, ite_self, if_pos hpast]
      exact .malformed

/-- **One turn**: it stores the same value at the same place, or neither decoder accepts. -/
theorem decodeTurn_agrees (hdata : data.length ≤ maxPayloadSize) (hoff : off < data.length) :
    TurnAgrees data off (decodeTurn 32 refusingHuge data off)
      (unboundedTurn refusingHuge data off) := by
  unfold decodeTurn unboundedTurn
  rw [List.getElem?_eq_getElem hoff]
  simp only
  rw [offset_mod_narrow hdata hoff.le (by decide)]
  -- one case for each label of the dispatch table
  cases htype : ValueType.ofCode? data[off] with
  | none => exact .malformed
  | some type =>
    cases type with
    | null => exact .store (by omega) (by omega)
    | bool =>
      simp only
      rw [offset_mod_narrow hdata hoff (by decide)]
      by_cases hlen : off + 1 + 1 > data.length
      · simp only [if_pos hlen]
        exact .malformed
      · simp only [if_neg hlen]
        rw [List.getElem?_eq_getElem (by omega)]
        simp only
        split_ifs
        · exact .malformed
        · exact .store (by omega) (by omega)
    | i64 => exact (decodeWord_agrees hdata hoff _).mono (Nat.le_succ off)
    | u64 => exact (decodeWord_agrees hdata hoff _).mono (Nat.le_succ off)
    | f64 => exact (decodeWord_agrees hdata hoff _).mono (Nat.le_succ off)
    | bytes => exact (decodeBlob_agrees hdata hoff false _).mono (Nat.le_succ off)
    | string => exact (decodeBlob_agrees hdata hoff true _).mono (Nat.le_succ off)

end Turn

/-! ## The loop -/

section Loop

variable {data : List UInt8}

/-- A loop that stands on the byte 255 ends with an error, if it has a turn left. -/
theorem decodeLoop_of_max {bits fuel off cap : ℕ} {mem : DecodeMem} {values : List Value}
    (htag : data[off]? = some 255) :
    decodeLoop bits mem data (fuel + 1) off cap values = .error := by
  have hlt := (List.getElem?_eq_some_iff.mp htag).1
  have hturn : decodeTurn bits (mem.copy values.length) data off = .malformed := by
    rw [decodeTurn, htag]
    rfl
  rw [decodeLoop, if_pos hlt]
  simp only [hturn, ite_self]

/-- **The loop**: with turns left for the rest of the payload, both decoders end in the same way. -/
theorem decodeLoop_agrees {fuel off cap : ℕ} {values : List Value}
    (hdata : data.length ≤ maxPayloadSize) (hfuel : data.length ≤ off + fuel) :
    decodeLoop 32 .refusingHuge data fuel off cap values =
      unboundedLoop (sizeofValue 32) .refusingHuge data fuel off cap values := by
  -- induction on the turns left: each one moves the offset forward
  induction fuel generalizing off cap values with
  | zero => rfl
  | succ fuel ih =>
    rw [decodeLoop, unboundedLoop]
    by_cases hlt : off < data.length
    · rw [if_pos hlt, if_pos hlt]
      simp only
      split_ifs with hfull
      · rfl
      have hturn := decodeTurn_agrees hdata hlt
      simp only [DecodeMem.refusingHuge] at hfull ⊢
      generalize decodeTurn 32 refusingHuge data off = narrow at hturn ⊢
      generalize unboundedTurn refusingHuge data off = unbounded at hturn ⊢
      cases hturn with
      | malformed => rfl
      | store hnext hle => exact ih (by omega)
      | @wrapped v next hnext htag =>
        -- the next turn of the 32-bit loop stands on a byte that is no tag
        have hnextLt := (List.getElem?_eq_some_iff.mp htag).1
        obtain ⟨fuel, rfl⟩ : ∃ f, fuel = f + 1 := ⟨fuel - 1, by omega⟩
        exact decodeLoop_of_max htag
    · rw [if_neg hlt, if_neg hlt]

end Loop

/-- **The decoder at 32 bits is the one with unbounded integers**, for every payload of at most
1 MiB: it ends, it does not read past the payload, and its result is the same. -/
theorem decode_narrow {data : List UInt8} (hdata : data.length ≤ maxPayloadSize) :
    payloadDecodeWidth 32 .refusingHuge data = payloadDecodeUnbounded .refusingHuge data ∧
      payloadDecodeWidth 32 .refusingHuge data ≠ .outOfBounds ∧
      payloadDecodeWidth 32 .refusingHuge data ≠ .outOfFuel := by
  have hfuel : data.length ≤ 0 + data.length := by omega
  rw [payloadDecodeWidth, payloadDecodeUnbounded, decodeLoop_agrees hdata hfuel]
  exact ⟨rfl, unboundedLoop_ends hfuel⟩

/-- A string of length `2^32 - 1` after a null. -/
theorem decode_narrow_longest :
    payloadDecodeWidth 32 .refusingHuge [0, 6, 255, 255, 255, 255] =
        payloadDecodeUnbounded .refusingHuge [0, 6, 255, 255, 255, 255] ∧
      payloadDecodeWidth 32 .refusingHuge [0, 6, 255, 255, 255, 255] = .error :=
  ⟨(decode_narrow (by decide)).1, by decide +kernel⟩

end Wirecall

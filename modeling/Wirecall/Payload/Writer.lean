import Wirecall.Memory.Growth
import Wirecall.Protocol.Header

/-!
# Values and the payload writer

The values a payload carries, the bytes each one stands for, and the `wirecall_writer_*`
functions of `payload.c` that append them to a growing buffer of at most 1 MiB.

## Main definitions

* `Value`, `ValueType`: `wirecall_value` and its type tag
* `Value.encode`, `encode`: the bytes of a value and of a list of values
* `Writer`, `writerReserve`, `writerPush`, `writerNull` … `writerString`: the writer
* `writeValue`, `writeValues`: one writer call per value, stopping at the first that fails

## Main results

* `writeValue_eq_ok`: an append that returns `0` adds the bytes of its value
* `writeValues_init`: a list whose encoding is at most 1 MiB is written into a fresh writer
-/

namespace Wirecall

/-- The bytes of a `bytes` or `string` value. Their number is a `uint32_t`. -/
structure Blob where
  data : List UInt8
  len_lt : data.length < 2 ^ 32
  deriving DecidableEq

/-- The empty blob. -/
def Blob.empty : Blob := ⟨[], by decide⟩

/-- The length field of the value. -/
def Blob.len (b : Blob) : UInt32 := UInt32.ofNat b.data.length

@[simp]
theorem Blob.toNat_len (b : Blob) : b.len.toNat = b.data.length := by
  rw [Blob.len, UInt32.toNat_ofNat']
  exact Nat.mod_eq_of_lt b.len_lt

/-- `wirecall_type`, without the sentinel that ends an array of values. -/
inductive ValueType where
  | null
  | bool
  | i64
  | u64
  | f64
  | bytes
  | string
  deriving DecidableEq, Repr

/-- The tag byte of a type. -/
def ValueType.code : ValueType → UInt8
  | .null => 0
  | .bool => 1
  | .i64 => 2
  | .u64 => 3
  | .f64 => 4
  | .bytes => 5
  | .string => 6

/-- `wirecall_value`. A double is its 64 bits. -/
inductive Value where
  | null
  | bool (value : Bool)
  | i64 (value : Int64)
  | u64 (value : UInt64)
  | f64 (bits : UInt64)
  | bytes (blob : Blob)
  | string (blob : Blob)
  deriving DecidableEq

/-- The bytes one value stands for in a payload. -/
def Value.encode : Value → List UInt8
  | .null => [ValueType.null.code]
  | .bool value => [ValueType.bool.code, if value then 1 else 0]
  | .i64 value => ValueType.i64.code :: putU64 value.toUInt64
  | .u64 value => ValueType.u64.code :: putU64 value
  | .f64 bits => ValueType.f64.code :: putU64 bits
  | .bytes blob => ValueType.bytes.code :: (putU32 blob.len ++ blob.data)
  | .string blob => ValueType.string.code :: (putU32 blob.len ++ blob.data)

/-- The bytes a list of values stands for. -/
def encode (values : List Value) : List UInt8 := values.flatMap Value.encode

@[simp]
theorem encode_nil : encode [] = [] := rfl

@[simp]
theorem encode_cons (v : Value) (vs : List Value) : encode (v :: vs) = v.encode ++ encode vs := by
  rw [encode, encode, List.flatMap_cons]

@[simp]
theorem encode_append (vs ws : List Value) : encode (vs ++ ws) = encode vs ++ encode ws := by
  rw [encode, encode, encode, List.flatMap_append]

/-! ## The writer -/

/-- `wirecall_writer`: the bytes below `len` and the capacity of the buffer. -/
structure Writer where
  data : List UInt8
  cap : ℕ
  deriving DecidableEq, Repr

/-- `writer->len`. -/
def Writer.len (w : Writer) : ℕ := w.data.length

/-- `wirecall_writer_init`. -/
def writerInit : Writer := { data := [], cap := 0 }

/-- `wirecall_writer_reset` keeps the buffer and drops the bytes. -/
def writerReset (w : Writer) : Writer := { w with data := [] }

/-- The growth loop of `writer_reserve`, with at most `fuel` turns. -/
def writerGrow : ℕ → ℕ → ℕ → ℕ
  | 0, cap, _ => cap
  | fuel + 1, cap, need =>
    if cap < need then
      if cap > maxPayloadSize / 2 then maxPayloadSize else writerGrow fuel (cap * 2) need
    else cap

/-- The capacity `writer_reserve` asks for when `need` bytes do not fit. -/
def writerNextCap (w : Writer) (need : ℕ) : ℕ :=
  writerGrow need (if w.cap ≠ 0 then w.cap else 64) need

/-- `writer_reserve`: room for `extra` more bytes, never for more than 1 MiB in all. -/
def writerReserve (mem : Mem) (w : Writer) (extra : ℕ) : Rc × Writer :=
  if extra > maxPayloadSize ∨ w.len > maxPayloadSize - extra then (.err, w)
  else
    let need := w.len + extra
    if need ≤ w.cap then (.ok, w)
    else if mem (writerNextCap w need) then (.ok, { w with cap := writerNextCap w need })
    else (.err, w)

/-- `writer_push`. -/
def writerPush (mem : Mem) (w : Writer) (data : List UInt8) : Rc × Writer :=
  match writerReserve mem w data.length with
  | (.err, w) => (.err, w)
  | (.ok, w) => (.ok, { w with data := w.data ++ data })

/-- `wirecall_writer_null`. -/
def writerNull (mem : Mem) (w : Writer) : Rc × Writer :=
  writerPush mem w [ValueType.null.code]

/-- `wirecall_writer_bool`. -/
def writerBool (mem : Mem) (w : Writer) (value : Bool) : Rc × Writer :=
  writerPush mem w [ValueType.bool.code, if value then 1 else 0]

/-- The tag and the eight bytes of a number, pushed at once. -/
def writerWord (type : ValueType) (mem : Mem) (w : Writer) (value : UInt64) : Rc × Writer :=
  writerPush mem w (type.code :: putU64 value)

/-- `wirecall_writer_i64`. -/
def writerI64 (mem : Mem) (w : Writer) (value : Int64) : Rc × Writer :=
  writerWord .i64 mem w value.toUInt64

/-- `wirecall_writer_u64`. -/
def writerU64 (mem : Mem) (w : Writer) (value : UInt64) : Rc × Writer :=
  writerWord .u64 mem w value

/-- `wirecall_writer_f64`. -/
def writerF64 (mem : Mem) (w : Writer) (bits : UInt64) : Rc × Writer :=
  writerWord .f64 mem w bits

/-- The tag and the length, pushed first, then the data, pushed apart. -/
def writerBlob (type : ValueType) (mem : Mem) (w : Writer) (blob : Blob) : Rc × Writer :=
  match writerPush mem w (type.code :: putU32 blob.len) with
  | (.err, w) => (.err, w)
  | (.ok, w) => writerPush mem w blob.data

/-- `wirecall_writer_bytes`. -/
def writerBytes (mem : Mem) (w : Writer) (blob : Blob) : Rc × Writer :=
  writerBlob .bytes mem w blob

/-- `wirecall_writer_string`. -/
def writerString (mem : Mem) (w : Writer) (blob : Blob) : Rc × Writer :=
  writerBlob .string mem w blob

/-- The writer call for one value. -/
def writeValue (mem : Mem) (w : Writer) : Value → Rc × Writer
  | .null => writerNull mem w
  | .bool value => writerBool mem w value
  | .i64 value => writerI64 mem w value
  | .u64 value => writerU64 mem w value
  | .f64 bits => writerF64 mem w bits
  | .bytes blob => writerBytes mem w blob
  | .string blob => writerString mem w blob

/-- One writer call per value, up to the first that fails. -/
def writeValues (mem : Mem) : Writer → List Value → Rc × Writer
  | w, [] => (.ok, w)
  | w, v :: vs =>
    match writeValue mem w v with
    | (.err, w) => (.err, w)
    | (.ok, w) => writeValues mem w vs

/-! ## What the writer calls do -/

theorem writerReserve_data (mem : Mem) (w : Writer) (extra : ℕ) :
    (writerReserve mem w extra).2.data = w.data := by
  unfold writerReserve
  split
  · rfl
  · dsimp only
    split
    · rfl
    · split <;> rfl

/-- A push that returns `0` adds exactly its bytes. -/
theorem writerPush_eq_ok {mem : Mem} {w w' : Writer} {data : List UInt8}
    (h : writerPush mem w data = (.ok, w')) : w'.data = w.data ++ data := by
  unfold writerPush at h
  have hdata := writerReserve_data mem w data.length
  split at h
  · cases h
  · rename_i w₁ heq
    rw [heq] at hdata
    rw [← (Prod.mk.inj h).2]
    exact congrArg (· ++ data) hdata

/-- With an allocator that grants everything, a push within 1 MiB returns `0`. -/
theorem writerPush_fits (w : Writer) (data : List UInt8)
    (h : w.data.length + data.length ≤ maxPayloadSize) :
    ∃ w', writerPush (fun _ => true) w data = (.ok, w') ∧ w'.data = w.data ++ data := by
  have hguard : ¬ (data.length > maxPayloadSize ∨ w.len > maxPayloadSize - data.length) := by
    simp only [Writer.len]
    omega
  have hreserve : (writerReserve (fun _ => true) w data.length).1 = .ok := by
    unfold writerReserve
    rw [if_neg hguard]
    dsimp only
    split <;> rfl
  obtain ⟨w₁, hw₁⟩ : ∃ w₁, writerReserve (fun _ => true) w data.length = (.ok, w₁) :=
    ⟨_, Prod.ext hreserve rfl⟩
  refine ⟨_, by rw [writerPush, hw₁], ?_⟩
  have hdata := writerReserve_data (fun _ => true) w data.length
  rw [hw₁] at hdata
  exact congrArg (· ++ data) hdata

theorem writerBlob_eq_ok {type : ValueType} {mem : Mem} {w w' : Writer} {blob : Blob}
    (h : writerBlob type mem w blob = (.ok, w')) :
    w'.data = w.data ++ (type.code :: (putU32 blob.len ++ blob.data)) := by
  unfold writerBlob at h
  split at h
  · cases h
  · rename_i w₁ hw₁
    rw [writerPush_eq_ok h, writerPush_eq_ok hw₁]
    simp

theorem writerBlob_fits (type : ValueType) (w : Writer) (blob : Blob)
    (h : w.data.length + (type.code :: (putU32 blob.len ++ blob.data)).length ≤ maxPayloadSize) :
    ∃ w', writerBlob type (fun _ => true) w blob = (.ok, w') := by
  simp only [List.length_cons, List.length_append, length_putU32] at h
  obtain ⟨w₁, hw₁, hdata⟩ := writerPush_fits w (type.code :: putU32 blob.len)
    (by simp only [List.length_cons, length_putU32]; omega)
  obtain ⟨w₂, hw₂, -⟩ := writerPush_fits w₁ blob.data (by
    rw [hdata]
    simp only [List.length_append, List.length_cons, length_putU32]
    omega)
  exact ⟨w₂, by rw [writerBlob, hw₁]; exact hw₂⟩

/-- **A writer call that returns `0` adds the bytes of its value.** -/
theorem writeValue_eq_ok {mem : Mem} {w w' : Writer} {v : Value}
    (h : writeValue mem w v = (.ok, w')) : w'.data = w.data ++ v.encode := by
  cases v with
  | null => exact writerPush_eq_ok h
  | bool => exact writerPush_eq_ok h
  | i64 => exact writerPush_eq_ok h
  | u64 => exact writerPush_eq_ok h
  | f64 => exact writerPush_eq_ok h
  | bytes => exact writerBlob_eq_ok h
  | string => exact writerBlob_eq_ok h

theorem writeValue_fits (w : Writer) (v : Value)
    (h : w.data.length + v.encode.length ≤ maxPayloadSize) :
    ∃ w', writeValue (fun _ => true) w v = (.ok, w') := by
  have push (data : List UInt8) (hd : w.data.length + data.length ≤ maxPayloadSize) :
      ∃ w', writerPush (fun _ => true) w data = (.ok, w') :=
    (writerPush_fits w data hd).imp fun _ hw => hw.1
  cases v with
  | null => exact push _ h
  | bool => exact push _ h
  | i64 => exact push _ h
  | u64 => exact push _ h
  | f64 => exact push _ h
  | bytes blob => exact writerBlob_fits .bytes w blob h
  | string blob => exact writerBlob_fits .string w blob h

/-- Writing a list adds the bytes of the list. -/
theorem writeValues_eq_ok {mem : Mem} {w w' : Writer} {vs : List Value}
    (h : writeValues mem w vs = (.ok, w')) : w'.data = w.data ++ encode vs := by
  induction vs generalizing w with
  | nil => simp [← (Prod.mk.inj h).2]
  | cons v vs ih =>
    rw [writeValues] at h
    split at h
    · cases h
    · rename_i w₁ hw₁
      rw [ih h, writeValue_eq_ok hw₁]
      simp

theorem writeValues_fits (w : Writer) (vs : List Value)
    (h : w.data.length + (encode vs).length ≤ maxPayloadSize) :
    ∃ w', writeValues (fun _ => true) w vs = (.ok, w') := by
  induction vs generalizing w with
  | nil => exact ⟨w, rfl⟩
  | cons v vs ih =>
    simp only [encode_cons, List.length_append] at h
    obtain ⟨w₁, hw₁⟩ := writeValue_fits w v (by omega)
    obtain ⟨w₂, hw₂⟩ := ih w₁ (by
      rw [writeValue_eq_ok hw₁, List.length_append]
      omega)
    exact ⟨w₂, by rw [writeValues, hw₁]; exact hw₂⟩

/-- **A list whose encoding is at most 1 MiB is written into a fresh writer.** -/
theorem writeValues_init {vs : List Value} (h : (encode vs).length ≤ maxPayloadSize) :
    ∃ w, writeValues (fun _ => true) writerInit vs = (.ok, w) ∧ w.data = encode vs := by
  obtain ⟨w, hw⟩ := writeValues_fits writerInit vs (by simpa [writerInit] using h)
  exact ⟨w, hw, by simpa [writerInit] using writeValues_eq_ok hw⟩

end Wirecall

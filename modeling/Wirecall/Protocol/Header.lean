import Wirecall.Protocol.Words

/-!
# The packet header

Every packet starts with 34 bytes: operation, flags, procedure id, payload size, call id,
checksum and MAC. `wirecall_header_encode` and `wirecall_header_decode` of `protocol.c` check
the operation and the size; between the headers that pass and the byte strings that pass they
are mutually inverse.

## Main definitions

* `Op`, `Header`: the operations and the header
* `procId`, `text`, `errorText`: the id of a procedure name, and texts of error messages
* `headerEncode`, `headerDecode`: the codec; `none` is the return value `-1`

## Main results

* `headerDecode_headerEncode`: an encoded header is decoded
* `headerEncode_headerDecode`: a decoded header is encoded to its bytes
* `headerDecode_append`: only the first 34 bytes are read
-/

namespace Wirecall

/-- `WIRECALL_HEADER_SIZE`. -/
def headerSize : ℕ := 34

/-- `WIRECALL_MAX_PAYLOAD_SIZE`. -/
def maxPayloadSize : ℕ := 1024 * 1024

/-- `wirecall_op`. -/
inductive Op where
  | rpc
  | ping
  | disconnect
  | response
  | error
  deriving DecidableEq, Repr

/-- The byte of an operation on the wire. -/
def Op.code : Op → UInt8
  | .rpc => 1
  | .ping => 2
  | .disconnect => 3
  | .response => 4
  | .error => 5

/-- `WIRECALL_FLAG_NONE`. -/
def flagNone : UInt8 := 0

/-- `wirecall_header`. The operation is its byte: the field of a header that was never checked
can hold any value. -/
structure Header where
  op : UInt8
  flags : UInt8
  procId : UInt64
  size : UInt32
  callId : UInt64
  checksum : UInt32
  mac : UInt64
  deriving DecidableEq, Repr

/-- `valid_op`. -/
def validOp (op : UInt8) : Bool :=
  op == Op.rpc.code || op == Op.ping.code || op == Op.disconnect.code ||
    op == Op.response.code || op == Op.error.code

theorem validOp_code (op : Op) : validOp op.code = true := by
  cases op <;> rfl

/-- `wirecall_proc_id`: the FNV-1a hash of a name up to its first zero, never zero for a name. -/
def procId : Option (List UInt8) → UInt64
  | none => 0
  | some name =>
    let hash := (name.takeWhile (· ≠ 0)).foldl
      (fun hash c => (hash ^^^ c.toUInt64) * 1099511628211) 14695981039346656037
    if hash ≠ 0 then hash else 1

/-- The bytes of a message of the source. -/
def text (s : String) : List UInt8 := s.toList.map fun c => UInt8.ofNat c.toNat

/-- What is read from a `char error[160]` after a string was copied to it: at most 159 bytes, up to
the first zero. -/
def errorText (message : List UInt8) : List UInt8 := (message.takeWhile (· ≠ 0)).take 159

theorem text_append (a b : String) : text (a ++ b) = text a ++ text b := by
  simp [text]

/-- An error text that begins with a letter is not empty. -/
theorem errorText_ne_nil {b : UInt8} {rest : List UInt8} (hb : b ≠ 0) : errorText (b :: rest) ≠ [] := by
  rw [errorText, List.takeWhile_cons_of_pos (by simpa using hb)]
  exact List.cons_ne_nil _ _

/-- The scheduler reports a call that returns a number by a text that is not empty. -/
theorem errorText_returned_ne_nil (result : Int) :
    errorText (text s!"procedure returned {result}") ≠ [] := by
  rw [text_append]
  exact errorText_ne_nil (by decide)

/-- `wirecall_header_encode`. -/
def headerEncode (header : Header) : Option (List UInt8) :=
  if !validOp header.op || header.size.toNat > maxPayloadSize then none
  else
    some ([header.op, header.flags] ++ putU64 header.procId ++ putU32 header.size ++
      putU64 header.callId ++ putU32 header.checksum ++ putU64 header.mac)

/-- `wirecall_header_decode`, on a buffer of at least 34 bytes. -/
def headerDecode (bytes : List UInt8) : Option Header :=
  if !validOp (bytes.getD 0 0) then none
  else
    let header : Header :=
      { op := bytes.getD 0 0
        flags := bytes.getD 1 0
        procId := getU64 (bytes.drop 2)
        size := getU32 (bytes.drop 10)
        callId := getU64 (bytes.drop 14)
        checksum := getU32 (bytes.drop 22)
        mac := getU64 (bytes.drop 26) }
    if header.size.toNat > maxPayloadSize then none else some header

/-! ## Reading only what is there -/

theorem getU32_append {bs : List UInt8} (h : 4 ≤ bs.length) (rest : List UInt8) :
    getU32 (bs ++ rest) = getU32 bs := by
  match bs, h with
  | _ :: _ :: _ :: _ :: _, _ => rfl

theorem getU64_append {bs : List UInt8} (h : 8 ≤ bs.length) (rest : List UInt8) :
    getU64 (bs ++ rest) = getU64 bs := by
  simp [getU64, List.take_append_of_le_length h]

theorem headerDecode_append {bs : List UInt8} (h : headerSize ≤ bs.length) (rest : List UInt8) :
    headerDecode (bs ++ rest) = headerDecode bs := by
  have hd : ∀ k ≤ headerSize, (bs ++ rest).drop k = bs.drop k ++ rest := fun k hk =>
    List.drop_append_of_le_length (hk.trans h)
  have hg : ∀ k < headerSize, (bs ++ rest).getD k 0 = bs.getD k 0 := fun k hk =>
    List.getD_append _ _ _ _ (by omega)
  unfold headerSize at h hd hg
  unfold headerDecode
  rw [hg 0 (by decide), hg 1 (by decide), hd 2 (by decide), hd 10 (by decide), hd 14 (by decide),
    hd 22 (by decide), hd 26 (by decide), getU64_append (by simp; omega),
    getU32_append (by simp; omega), getU64_append (by simp; omega),
    getU32_append (by simp; omega), getU64_append (by simp; omega)]

/-! ## The round trips -/

theorem headerEncode_eq_some_iff {h : Header} {bs : List UInt8} :
    headerEncode h = some bs ↔
      (validOp h.op = true ∧ h.size.toNat ≤ maxPayloadSize) ∧
        bs = [h.op, h.flags] ++ putU64 h.procId ++ putU32 h.size ++ putU64 h.callId ++
          putU32 h.checksum ++ putU64 h.mac := by
  unfold headerEncode
  by_cases hv : validOp h.op = true <;> by_cases hs : h.size.toNat ≤ maxPayloadSize <;>
    simp [hv, hs, eq_comm, Nat.not_lt.mpr, Nat.lt_of_not_le]

theorem length_of_headerEncode {h : Header} {bs : List UInt8} (he : headerEncode h = some bs) :
    bs.length = headerSize := by
  obtain ⟨-, rfl⟩ := headerEncode_eq_some_iff.mp he
  simp [headerSize]

theorem headerDecode_eq_some_iff {bs : List UInt8} {h : Header} :
    headerDecode bs = some h ↔
      (validOp (bs.getD 0 0) = true ∧ (getU32 (bs.drop 10)).toNat ≤ maxPayloadSize) ∧
        h = ⟨bs.getD 0 0, bs.getD 1 0, getU64 (bs.drop 2), getU32 (bs.drop 10),
          getU64 (bs.drop 14), getU32 (bs.drop 22), getU64 (bs.drop 26)⟩ := by
  unfold headerDecode
  by_cases hv : validOp (bs.getD 0 0) = true
  · by_cases hs : (getU32 (bs.drop 10)).toNat ≤ maxPayloadSize
    · rw [if_neg (by rw [hv]; decide), if_neg (Nat.not_lt.mpr hs)]
      exact ⟨fun e => ⟨⟨hv, hs⟩, (Option.some.inj e).symm⟩, fun e => congrArg some e.2.symm⟩
    · rw [if_neg (by rw [hv]; decide), if_pos (Nat.lt_of_not_le hs)]
      exact ⟨fun e => (by cases e), fun e => absurd e.1.2 hs⟩
  · rw [if_pos (by rw [Bool.eq_false_iff.mpr hv]; rfl)]
    exact ⟨fun e => (by cases e), fun e => absurd e.1.1 hv⟩

/-- A decoded header has an admissible size. -/
theorem size_le_of_headerDecode {bs : List UInt8} {h : Header} (hd : headerDecode bs = some h) :
    h.size.toNat ≤ maxPayloadSize := by
  obtain ⟨⟨-, hs⟩, rfl⟩ := headerDecode_eq_some_iff.mp hd
  exact hs

/-- An encoded header is decoded, whatever follows it. -/
theorem headerDecode_headerEncode {h : Header} {bs : List UInt8} (he : headerEncode h = some bs)
    (rest : List UInt8) : headerDecode (bs ++ rest) = some h := by
  obtain ⟨⟨hv, hs⟩, rfl⟩ := headerEncode_eq_some_iff.mp he
  have e : ∀ l₁ l₂ l₃ l₄ l₅ : List UInt8, [h.op, h.flags] ++ l₁ ++ l₂ ++ l₃ ++ l₄ ++ l₅ ++ rest =
      h.op :: h.flags :: (l₁ ++ (l₂ ++ (l₃ ++ (l₄ ++ (l₅ ++ rest))))) := by simp
  rw [e]
  have d₁₀ : ∀ l, (h.op :: h.flags :: (putU64 h.procId ++ l)).drop 10 = l := fun l => rfl
  have d₁₄ : ∀ l, (h.op :: h.flags :: (putU64 h.procId ++ (putU32 h.size ++ l))).drop 14 = l :=
    fun l => rfl
  have d₂₂ : ∀ l, (h.op :: h.flags :: (putU64 h.procId ++ (putU32 h.size ++
      (putU64 h.callId ++ l)))).drop 22 = l := fun l => rfl
  have d₂₆ : ∀ l, (h.op :: h.flags :: (putU64 h.procId ++ (putU32 h.size ++
      (putU64 h.callId ++ (putU32 h.checksum ++ l))))).drop 26 = l := fun l => rfl
  rw [headerDecode_eq_some_iff, d₁₀, d₁₄, d₂₂, d₂₆]
  simp only [List.drop_succ_cons, List.drop_zero, getU64_putU64_append, getU32_putU32_append]
  exact ⟨⟨hv, hs⟩, rfl⟩

/-- A decoded header is encoded to the bytes it was decoded from. -/
theorem headerEncode_headerDecode {h : Header} {bs : List UInt8} (hl : headerSize ≤ bs.length)
    (hd : headerDecode bs = some h) : headerEncode h = some (bs.take headerSize) := by
  obtain ⟨hv, rfl⟩ := headerDecode_eq_some_iff.mp hd
  unfold headerSize at hl
  rw [headerEncode_eq_some_iff]
  refine ⟨hv, ?_⟩
  have hsplit : ∀ k n, bs.drop k = (bs.drop k).take n ++ bs.drop (k + n) := fun k n => by
    rw [← List.drop_drop, List.take_append_drop]
  have h₀ : bs = [bs.getD 0 0, bs.getD 1 0] ++ bs.drop 2 := by
    match bs, hl with
    | _ :: _ :: _, _ => rfl
  rw [putU64_getU64 (by simp; omega), putU32_getU32 (by simp; omega),
    putU64_getU64 (by simp; omega), putU32_getU32 (by simp; omega),
    putU64_getU64 (by simp; omega)]
  have hcat : bs = [bs.getD 0 0, bs.getD 1 0] ++ (bs.drop 2).take 8 ++ (bs.drop 10).take 4 ++
      (bs.drop 14).take 8 ++ (bs.drop 22).take 4 ++ (bs.drop 26).take 8 ++ bs.drop 34 := by
    conv_lhs => rw [h₀, hsplit 2 8, hsplit 10 4, hsplit 14 8, hsplit 22 4, hsplit 26 8]
    simp only [List.append_assoc]
  conv_lhs => rw [hcat]
  rw [List.take_left' (by simp [headerSize]; omega)]

end Wirecall

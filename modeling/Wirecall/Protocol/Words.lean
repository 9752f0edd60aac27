import Wirecall.Stream.BigEndian

/-!
# Words on the wire

`put_u32`, `put_u64`, `get_u32` and `get_u64` of `protocol.c` and `payload.c`: shift loops over
single bytes. They write and read big-endian words.

## Main definitions

* `putU32`, `putU64`, `getU32`, `getU64`: the four functions

## Main results

* `getU32_putU32_append`, `getU64_putU64_append`: a written word is read back
* `putU32_getU32`, `putU64_getU64`: a read word is written back
-/

namespace Wirecall

/-- `put_u32`. -/
def putU32 (value : UInt32) : List UInt8 :=
  [(value >>> 24).toUInt8, (value >>> 16).toUInt8, (value >>> 8).toUInt8, value.toUInt8]

/-- `put_u64`: the loop `for (int i = 7; i >= 0; --i)`. -/
def putU64 (value : UInt64) : List UInt8 :=
  ([7, 6, 5, 4, 3, 2, 1, 0] : List UInt64).map fun i => (value >>> (i * 8)).toUInt8

/-- `get_u32`. -/
def getU32 : List UInt8 → UInt32
  | b₀ :: b₁ :: b₂ :: b₃ :: _ =>
    (b₀.toUInt32 <<< 24) ||| (b₁.toUInt32 <<< 16) ||| (b₂.toUInt32 <<< 8) ||| b₃.toUInt32
  | _ => 0

/-- `get_u64`: the loop `value = (value << 8u) | in[i]` over eight bytes. -/
def getU64 (bytes : List UInt8) : UInt64 :=
  (bytes.take 8).foldl (fun value b => (value <<< 8) ||| b.toUInt64) 0

@[simp] theorem length_putU32 (v : UInt32) : (putU32 v).length = 4 := rfl

@[simp] theorem length_putU64 (v : UInt64) : (putU64 v).length = 8 := rfl

/-! ## The shift loops are big-endian -/

theorem putU32_eq (v : UInt32) : putU32 v = BigEndian.encode 4 v.toNat := by
  simp only [putU32, BigEndian.encode, List.cons.injEq, and_true]
  refine ⟨?_, ?_, ?_, ?_⟩ <;> apply UInt8.toNat_inj.mp <;>
    simp [Nat.shiftRight_eq_div_pow, UInt8.toNat_ofNat']

theorem putU64_eq (v : UInt64) : putU64 v = BigEndian.encode 8 v.toNat := by
  simp only [putU64, BigEndian.encode, List.map_cons, List.map_nil, List.cons.injEq, and_true]
  refine ⟨?_, ?_, ?_, ?_, ?_, ?_, ?_, ?_⟩ <;> apply UInt8.toNat_inj.mp <;>
    simp [Nat.shiftRight_eq_div_pow, UInt8.toNat_ofNat']

/-- One turn of the `get_u64` loop shifts a byte in. -/
theorem toNat_shiftIn (v : UInt64) (b : UInt8) :
    ((v <<< 8) ||| b.toUInt64).toNat = (v.toNat * 256 + b.toNat) % 2 ^ 64 := by
  have hb : b.toNat < 2 ^ 8 := b.toNat_lt
  have hv : (v <<< 8).toNat = (v.toNat % 2 ^ 56) <<< 8 := by
    rw [UInt64.toNat_shiftLeft]
    simp only [Nat.shiftLeft_eq, UInt64.reduceToNat, Nat.reduceMod]
    omega
  rw [UInt64.toNat_or, hv, UInt8.toNat_toUInt64, ← Nat.shiftLeft_add_eq_or_of_lt hb,
    Nat.shiftLeft_eq]
  omega

theorem toNat_foldl_shiftIn (bs : List UInt8) (v : UInt64) :
    (bs.foldl (fun (v : UInt64) b => (v <<< 8) ||| b.toUInt64) v).toNat =
      bs.foldl (fun v b => v * 256 + b.toNat) v.toNat % 2 ^ 64 := by
  induction bs generalizing v with
  | nil => simp [Nat.mod_eq_of_lt v.toNat_lt]
  | cons b bs ih =>
    have hmod : ∀ a : ℕ, (a % 2 ^ 64 * 256 ^ bs.length + BigEndian.value bs) % 2 ^ 64 =
        (a * 256 ^ bs.length + BigEndian.value bs) % 2 ^ 64 := fun a => by
      rw [Nat.add_mod, Nat.mul_mod, Nat.mod_mod, ← Nat.mul_mod, ← Nat.add_mod]
    rw [List.foldl_cons, List.foldl_cons, ih, toNat_shiftIn, BigEndian.foldl_eq,
      BigEndian.foldl_eq, hmod]

theorem toNat_getU64 (bs : List UInt8) :
    (getU64 bs).toNat = BigEndian.value (bs.take 8) := by
  have hlt := BigEndian.value_lt (bs.take 8)
  have hle : 256 ^ (bs.take 8).length ≤ 256 ^ 8 :=
    Nat.pow_le_pow_right (by decide) (List.length_take_le 8 bs)
  rw [getU64, toNat_foldl_shiftIn]
  exact Nat.mod_eq_of_lt (by show BigEndian.value _ < _; omega)

theorem toNat_getU32 {bs : List UInt8} (h : 4 ≤ bs.length) :
    (getU32 bs).toNat = BigEndian.value (bs.take 4) := by
  match bs, h with
  | b₀ :: b₁ :: b₂ :: b₃ :: rest, _ =>
    have h₀ := b₀.toNat_lt
    have h₁ : b₁.toNat <<< 16 < 2 ^ 24 := by have := b₁.toNat_lt; rw [Nat.shiftLeft_eq]; omega
    have h₂ : b₂.toNat <<< 8 < 2 ^ 16 := by have := b₂.toNat_lt; rw [Nat.shiftLeft_eq]; omega
    have h₃ : b₃.toNat < 2 ^ 8 := b₃.toNat_lt
    have e₀ : b₀.toNat <<< 24 ||| b₁.toNat <<< 16 = (b₀.toNat * 256 + b₁.toNat) <<< 16 := by
      rw [← Nat.shiftLeft_add_eq_or_of_lt h₁]; simp only [Nat.shiftLeft_eq]; ring
    have e₁ : (b₀.toNat * 256 + b₁.toNat) <<< 16 ||| b₂.toNat <<< 8 =
        ((b₀.toNat * 256 + b₁.toNat) * 256 + b₂.toNat) <<< 8 := by
      rw [← Nat.shiftLeft_add_eq_or_of_lt h₂]; simp only [Nat.shiftLeft_eq]; ring
    have m₀ : b₀.toNat <<< 24 % 2 ^ 32 = b₀.toNat <<< 24 :=
      Nat.mod_eq_of_lt (by rw [Nat.shiftLeft_eq]; omega)
    have m₁ : b₁.toNat <<< 16 % 2 ^ 32 = b₁.toNat <<< 16 := Nat.mod_eq_of_lt (by omega)
    have m₂ : b₂.toNat <<< 8 % 2 ^ 32 = b₂.toNat <<< 8 := Nat.mod_eq_of_lt (by omega)
    simp only [getU32, UInt32.toNat_or, UInt32.toNat_shiftLeft, UInt8.toNat_toUInt32,
      UInt32.reduceToNat, Nat.reduceMod, m₀, m₁, m₂, e₀, e₁]
    rw [← Nat.shiftLeft_add_eq_or_of_lt h₃]
    simp only [List.take_succ_cons, List.take_zero, BigEndian.value, List.foldl_cons,
      List.foldl_nil, Nat.shiftLeft_eq]
    ring

/-! ## The round trips -/

theorem getU32_putU32_append (v : UInt32) (rest : List UInt8) :
    getU32 (putU32 v ++ rest) = v := by
  apply UInt32.toNat_inj.mp
  rw [toNat_getU32 (by simp), List.take_left' (length_putU32 v), putU32_eq,
    BigEndian.value_encode]
  exact Nat.mod_eq_of_lt v.toNat_lt

theorem getU64_putU64_append (v : UInt64) (rest : List UInt8) :
    getU64 (putU64 v ++ rest) = v := by
  apply UInt64.toNat_inj.mp
  rw [toNat_getU64, List.take_left' (length_putU64 v), putU64_eq, BigEndian.value_encode]
  exact Nat.mod_eq_of_lt v.toNat_lt

theorem putU32_getU32 {bs : List UInt8} (h : 4 ≤ bs.length) :
    putU32 (getU32 bs) = bs.take 4 := by
  have hlen : (bs.take 4).length = 4 := by simp [h]
  have h4 := BigEndian.encode_value (bs.take 4)
  rw [hlen] at h4
  rw [putU32_eq, toNat_getU32 h, h4]

theorem putU64_getU64 {bs : List UInt8} (h : 8 ≤ bs.length) :
    putU64 (getU64 bs) = bs.take 8 := by
  have hlen : (bs.take 8).length = 8 := by simp [h]
  have h8 := BigEndian.encode_value (bs.take 8)
  rw [hlen] at h8
  rw [putU64_eq, toNat_getU64, h8]

end Wirecall

import Mathlib

/-!
# Big-endian words

A word of `n` bytes is written most significant byte first. Writing and reading are mutually
inverse between the numbers below `256 ^ n` and the byte lists of length `n`.

## Main definitions

* `encode n v`: the `n` bytes of `v`
* `value bs`: the number the bytes `bs` spell

## Main results

* `value_encode`, `encode_value`: the two round trips
-/

namespace BigEndian

/-- The `n` low-order bytes of `v`, most significant first. -/
def encode : ℕ → ℕ → List UInt8
  | 0, _ => []
  | n + 1, v => UInt8.ofNat (v / 256 ^ n) :: encode n v

/-- The number a list of bytes spells, most significant first. -/
def value (bs : List UInt8) : ℕ := bs.foldl (fun v b => v * 256 + b.toNat) 0

@[simp] theorem length_encode (n v : ℕ) : (encode n v).length = n := by
  induction n with
  | zero => rfl
  | succ n ih => simp [encode, ih]

theorem foldl_eq (bs : List UInt8) (a : ℕ) :
    bs.foldl (fun v b => v * 256 + b.toNat) a = a * 256 ^ bs.length + value bs := by
  induction bs generalizing a with
  | nil => simp [value]
  | cons b bs ih =>
    simp only [List.foldl_cons, value, List.length_cons]
    rw [ih, ih (0 * 256 + b.toNat), pow_succ]
    ring

theorem value_cons (b : UInt8) (bs : List UInt8) :
    value (b :: bs) = b.toNat * 256 ^ bs.length + value bs := by
  show (b :: bs).foldl (fun v b => v * 256 + b.toNat) 0 = _
  rw [List.foldl_cons, foldl_eq]
  simp

theorem value_lt (bs : List UInt8) : value bs < 256 ^ bs.length := by
  induction bs with
  | nil => simp [value]
  | cons b bs ih =>
    have hb := b.toNat_lt
    rw [value_cons, List.length_cons, pow_succ]
    calc b.toNat * 256 ^ bs.length + value bs
        < b.toNat * 256 ^ bs.length + 256 ^ bs.length := by omega
      _ = (b.toNat + 1) * 256 ^ bs.length := by ring
      _ ≤ 256 * 256 ^ bs.length := Nat.mul_le_mul_right _ (by omega)
      _ = 256 ^ bs.length * 256 := Nat.mul_comm _ _

/-- Reading back a written word gives the number, up to the word's width. -/
theorem value_encode (n v : ℕ) : value (encode n v) = v % 256 ^ n := by
  induction n with
  | zero => simp [encode, value, Nat.mod_one]
  | succ n ih =>
    have hmod : v % 256 ^ (n + 1) = v % 256 ^ n + 256 ^ n * (v / 256 ^ n % 256) := by
      rw [pow_succ, Nat.mod_mul]
    rw [encode, value_cons, length_encode, ih, UInt8.toNat_ofNat', hmod]
    ring

/-- Encoding only looks at the number up to the word's width. -/
theorem encode_mod (n v : ℕ) : encode n (v % 256 ^ n) = encode n v := by
  induction n generalizing v with
  | zero => rfl
  | succ n ih =>
    have hd : v % 256 ^ (n + 1) / 256 ^ n = v / 256 ^ n % 256 := by
      rw [pow_succ, Nat.mod_mul_right_div_self]
    have ht : encode n (v % 256 ^ (n + 1)) = encode n v := by
      rw [← ih (v % 256 ^ (n + 1)), Nat.mod_mod_of_dvd _ (pow_dvd_pow 256 (Nat.le_succ n)), ih]
    rw [encode, encode, hd, ht]
    congr 1
    apply UInt8.toNat_inj.mp
    simp [UInt8.toNat_ofNat']

/-- Writing back a read word gives its bytes. -/
theorem encode_value (bs : List UInt8) : encode bs.length (value bs) = bs := by
  induction bs with
  | nil => rfl
  | cons b bs ih =>
    have hlt := value_lt bs
    have hpos : 0 < 256 ^ bs.length := by positivity
    have hd : value (b :: bs) / 256 ^ bs.length = b.toNat := by
      rw [value_cons, Nat.add_comm, Nat.add_mul_div_right _ _ hpos, Nat.div_eq_of_lt hlt]
      simp
    have ht : encode bs.length (value (b :: bs)) = bs := by
      rw [← encode_mod, value_cons, Nat.mul_add_mod_self_right, Nat.mod_eq_of_lt hlt, ih]
    rw [List.length_cons, encode, hd, ht, UInt8.ofNat_toNat]

end BigEndian

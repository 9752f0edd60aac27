import Wirecall.Stream.Blocks

/-!
# SipHash

SipHash-`c`-`d` of a message under a key of 16 bytes, at one go: the message is padded to whole words
of eight bytes, little-endian, the last of which ends in the length of the message modulo 256. Each
word is compressed with `c` rounds, and `d` rounds finish.

## Main definitions

* `State.round`, `State.compress`, `State.finish`: the rounds
* `word`, `pad`: words and padding of a message
* `sipHash c d key message`

## Main results

* `sipHash_eq_absorb`: the hash as a fold over the full words of the message and one last word
-/

namespace SipHash

open Blocks

/-- The four words of the internal state. -/
@[ext] structure State where
  v0 : BitVec 64
  v1 : BitVec 64
  v2 : BitVec 64
  v3 : BitVec 64
  deriving DecidableEq

/-- SipRound: two half rounds on pairs of words, twice. -/
def State.round (v : State) : State :=
  let v0 := v.v0 + v.v1
  let v2 := v.v2 + v.v3
  let v1 := v.v1.rotateLeft 13 ^^^ v0
  let v3 := v.v3.rotateLeft 16 ^^^ v2
  let v0 := v0.rotateLeft 32
  let v2 := v2 + v1
  let v0 := v0 + v3
  let v1 := v1.rotateLeft 17 ^^^ v2
  let v3 := v3.rotateLeft 21 ^^^ v0
  ⟨v0, v1, v2.rotateLeft 32, v3⟩

/-- A word of the message is added with `c` rounds. -/
def State.compress (c : ℕ) (v : State) (m : BitVec 64) : State :=
  let v := State.round^[c] { v with v3 := v.v3 ^^^ m }
  { v with v0 := v.v0 ^^^ m }

/-- The result, after `d` more rounds. -/
def State.finish (d : ℕ) (v : State) : BitVec 64 :=
  let v := State.round^[d] { v with v2 := v.v2 ^^^ 0xff }
  v.v0 ^^^ v.v1 ^^^ v.v2 ^^^ v.v3

/-- The word that bytes spell, least significant first. -/
def word (bytes : List UInt8) : BitVec 64 :=
  BitVec.ofNat 64 (Nat.ofDigits 256 (bytes.map UInt8.toNat))

/-- The state for a key. -/
def State.init (key : List UInt8) : State :=
  let k0 := word (key.take 8)
  let k1 := word ((key.drop 8).take 8)
  ⟨k0 ^^^ 0x736f6d6570736575, k1 ^^^ 0x646f72616e646f6d, k0 ^^^ 0x6c7967656e657261,
    k1 ^^^ 0x7465646279746573⟩

/-- Zeros up to the last byte of a word, which is the length. -/
def pad (message : List UInt8) : List UInt8 :=
  message ++ (List.replicate (7 - message.length % 8) 0 ++ [UInt8.ofNat message.length])

/-- **SipHash-`c`-`d`** of a message. -/
def sipHash (c d : ℕ) (key message : List UInt8) : BitVec 64 :=
  let words := (blocks 8 ((pad message).length / 8) (pad message)).map word
  State.finish d (words.foldl (State.compress c) (State.init key))

/-- A block of the message is added. -/
def State.absorbBlock (c : ℕ) (v : State) (block : List UInt8) : State := v.compress c (word block)

/-- The number that bytes spell fits their bits. -/
theorem ofDigits_lt (bytes : List UInt8) :
    Nat.ofDigits 256 (bytes.map UInt8.toNat) < 2 ^ (8 * bytes.length) := by
  have hdigits : ∀ d ∈ bytes.map UInt8.toNat, d < 256 := by
    intro d hd
    obtain ⟨b, -, rfl⟩ := List.mem_map.mp hd
    exact b.toNat_lt
  have hlt := Nat.ofDigits_lt_base_pow_length (by decide) hdigits
  rwa [List.length_map, show 256 = 2 ^ 8 from rfl, ← pow_mul] at hlt

theorem ofDigits_append_singleton (bytes : List UInt8) (b : UInt8) :
    Nat.ofDigits 256 ((bytes ++ [b]).map UInt8.toNat) =
      Nat.ofDigits 256 (bytes.map UInt8.toNat) + b.toNat * 2 ^ (8 * bytes.length) := by
  rw [List.map_append, Nat.ofDigits_append, List.length_map, List.map_singleton,
    Nat.ofDigits_singleton, show 256 = 2 ^ 8 from rfl, ← pow_mul, Nat.mul_comm b.toNat]

/-- Zeros at the end do not change the number. -/
theorem ofDigits_append_zeros (bytes : List UInt8) (n : ℕ) :
    Nat.ofDigits 256 ((bytes ++ List.replicate n 0).map UInt8.toNat) =
      Nat.ofDigits 256 (bytes.map UInt8.toNat) := by
  induction n with
  | zero => rw [List.replicate_zero, List.append_nil]
  | succ n ih =>
    rw [List.replicate_succ', ← List.append_assoc, ofDigits_append_singleton, ih]
    simp

/-- The last word of a message, of which `rest` does not fill a word. -/
def lastWord (rest : List UInt8) (length : ℕ) : BitVec 64 :=
  word rest ||| BitVec.ofNat 64 length <<< 56

/-- The word of the padded rest is its own bytes with the length on top. -/
theorem word_pad {rest : List UInt8} (hrest : rest.length < 8) (length : ℕ) :
    word (rest ++ (List.replicate (7 - rest.length) 0 ++ [UInt8.ofNat length])) =
      lastWord rest length := by
  have hlt : Nat.ofDigits 256 (rest.map UInt8.toNat) < 2 ^ 56 :=
    lt_of_lt_of_le (ofDigits_lt rest) (Nat.pow_le_pow_right (by decide) (by omega))
  apply BitVec.eq_of_toNat_eq
  rw [word, lastWord, word, ← List.append_assoc, ofDigits_append_singleton, ofDigits_append_zeros,
    List.length_append, List.length_replicate, show 8 * (rest.length + (7 - rest.length)) = 56 by omega,
    UInt8.toNat_ofNat']
  simp only [BitVec.toNat_or, BitVec.toNat_shiftLeft, BitVec.toNat_ofNat, Nat.shiftLeft_eq]
  generalize Nat.ofDigits 256 (rest.map UInt8.toNat) = n at hlt
  -- the length on top does not meet the bytes below
  have htop : length % 2 ^ 64 * 2 ^ 56 % 2 ^ 64 = 2 ^ 56 * (length % 2 ^ 8) := by omega
  rw [htop, Nat.mod_eq_of_lt (show n < 2 ^ 64 by omega), Nat.or_comm,
    ← Nat.two_pow_add_eq_or_of_lt hlt]
  omega

theorem length_pad (message : List UInt8) :
    (pad message).length / 8 = message.length / 8 + 1 := by
  simp only [pad, List.length_append, List.length_replicate, List.length_singleton]
  omega

/-- **The hash by absorbing**: the full words of the message, then the rest with the length. -/
theorem sipHash_eq_absorb (c d : ℕ) (key message : List UInt8) :
    sipHash c d key message =
      let a := absorb 8 (State.absorbBlock c) ⟨State.init key, []⟩ message
      State.finish d (a.core.compress c (lastWord a.pending message.length)) := by
  -- the padded message is the full blocks of the message and one more
  have hle : message.length / 8 * 8 ≤ message.length := Nat.div_mul_le_self _ _
  have hlength : (message.drop (message.length / 8 * 8)).length = message.length % 8 := by
    rw [List.length_drop]
    omega
  have hlast : (pad message).drop (message.length / 8 * 8) =
      message.drop (message.length / 8 * 8) ++
        (List.replicate (7 - (message.drop (message.length / 8 * 8)).length) 0 ++
          [UInt8.ofNat message.length]) := by
    rw [pad, List.drop_append_of_le_length hle, hlength]
  have hblocks : blocks 8 ((pad message).length / 8) (pad message) =
      blocks 8 (message.length / 8) message ++ [(pad message).drop (message.length / 8 * 8)] := by
    rw [length_pad, blocks_add]
    congr 1
    · rw [pad, blocks_append hle]
    · rw [blocks, blocks, List.take_of_length_le]
      rw [hlast]
      simp only [List.length_append, List.length_replicate, List.length_singleton]
      omega
  simp only [sipHash, absorb, List.nil_append]
  rw [hblocks, hlast, List.map_append, List.foldl_append, List.map_singleton, List.foldl_cons,
    List.foldl_nil, word_pad (by omega), List.foldl_map]
  rfl

/-- The test vector of the algorithm's authors: key `00..0f`, message `00..0e`. -/
example : sipHash 2 4 ((List.range 16).map UInt8.ofNat) ((List.range 15).map UInt8.ofNat) =
    0xa129ca6149be45e5 := by
  decide +kernel

end SipHash

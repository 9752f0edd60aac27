import Wirecall.Protocol.Header

/-!
# Packet integrity

The checksum and the MAC of `protocol.c`, and the two functions that fill them in and check
them. The checksum and the MAC load words in the byte order of the host, which is a parameter
here.

## Main definitions

* `cheapHashUpdate`, `packetChecksum`: the checksum
* `sipUpdate`, `packetMac`: the MAC
* `packetSignEx`, `packetVerifyEx`: signing and verification; `none` and `false` are the return
  value `-1`

## Main results

* `packetVerifyEx_packetSignEx`: a signed header verifies
-/

namespace Wirecall

/-- `WIRECALL_INTEGRITY_CHECKSUM`. -/
def integrityChecksum : UInt32 := 1

/-- `WIRECALL_INTEGRITY_MAC`. -/
def integrityMac : UInt32 := 2

/-- The order in which the host keeps the bytes of a word in memory. -/
inductive ByteOrder where
  | little
  | big
  deriving DecidableEq, Repr

/-- `get_u64_native`: `memcpy` of at most eight bytes over a zero word. `sip_load64` is the case
of eight bytes. -/
def getU64Native (order : ByteOrder) (bytes : List UInt8) : UInt64 :=
  match order with
  | .little => bytes.foldr (fun b value => (value <<< 8) ||| b.toUInt64) 0
  | .big => getU64 (bytes ++ List.replicate (8 - bytes.length) 0)

/-- `rotl64`. -/
def rotl64 (value shift : UInt64) : UInt64 :=
  (value <<< shift) ||| (value >>> (64 - shift))

/-- `mix64`. -/
def mix64 (value : UInt64) : UInt64 :=
  let value := value ^^^ (value >>> 30)
  let value := value * 0xbf58476d1ce4e5b9
  let value := value ^^^ (value >>> 27)
  let value := value * 0x94d049bb133111eb
  value ^^^ (value >>> 31)

/-- `packet_seed`. -/
def packetSeed (header : Header) : UInt64 :=
  let mdata := (header.op.toUInt64 <<< 56) ||| (header.flags.toUInt64 <<< 48) |||
    (header.size.toUInt64 <<< 16)
  mix64 (0x9e3779b97f4a7c15 ^^^ mdata ^^^ rotl64 header.procId 17 ^^^ rotl64 header.callId 41)

/-- The second line of both branches of `cheap_hash_update`. -/
def cheapHashStir (hash : UInt64) : UInt64 :=
  rotl64 hash 27 * 0x3c79ac492ba7b653 + 0x1c69b3f74ac4ae35

/-- The loop `while (len >= 8u)` of `cheap_hash_update`, with the number of turns left. -/
def cheapHashWords (order : ByteOrder) : ℕ → UInt64 → List UInt8 → UInt64
  | 0, hash, _ => hash
  | n + 1, hash, data =>
    let hash := hash ^^^ mix64 (getU64Native order (data.take 8) + 0x9e3779b97f4a7c15)
    cheapHashWords order n (cheapHashStir hash) (data.drop 8)

/-- `cheap_hash_update`. -/
def cheapHashUpdate (order : ByteOrder) (hash : UInt64) (data : List UInt8) : UInt64 :=
  let hash := cheapHashWords order (data.length / 8) hash data
  let tail := data.drop (data.length / 8 * 8)
  if tail.length > 0 then
    let len := UInt64.ofNat tail.length
    mix64 (cheapHashStir (hash ^^^ mix64 (getU64Native order tail ^^^ (len <<< 56))))
  else mix64 hash

/-- `wirecall_packet_checksum`. -/
def packetChecksum (order : ByteOrder) (header : Header) (payload : List UInt8) : UInt32 :=
  if payload.length > maxPayloadSize then 0
  else
    let hash := packetSeed header ^^^ 0xa0761d6478bd642f
    let hash := cheapHashUpdate order hash payload
    (hash ^^^ (hash >>> 32)).toUInt32

/-- The four words of SipHash with the bytes that do not fill a word yet. -/
structure SipState where
  v0 : UInt64
  v1 : UInt64
  v2 : UInt64
  v3 : UInt64
  totalLen : UInt64
  tail : UInt64
  tailLen : ℕ
  deriving DecidableEq, Repr

/-- `sip_round`. -/
def sipRound (s : SipState) : SipState :=
  let v0 := s.v0 + s.v1
  let v1 := rotl64 s.v1 13
  let v1 := v1 ^^^ v0
  let v0 := rotl64 v0 32
  let v2 := s.v2 + s.v3
  let v3 := rotl64 s.v3 16
  let v3 := v3 ^^^ v2
  let v0 := v0 + v3
  let v3 := rotl64 v3 21
  let v3 := v3 ^^^ v0
  let v2 := v2 + v1
  let v1 := rotl64 v1 17
  let v1 := v1 ^^^ v2
  let v2 := rotl64 v2 32
  { s with v0 := v0, v1 := v1, v2 := v2, v3 := v3 }

/-- `sip_compress`. -/
def sipCompress (s : SipState) (m : UInt64) : SipState :=
  let s := { s with v3 := s.v3 ^^^ m }
  let s := sipRound (sipRound s)
  { s with v0 := s.v0 ^^^ m }

/-- One byte into the tail. -/
def sipTailByte (s : SipState) (b : UInt8) : SipState :=
  { s with
    tail := s.tail ||| (b.toUInt64 <<< UInt64.ofNat (s.tailLen * 8))
    tailLen := s.tailLen + 1 }

/-- The first loop of `sip_update`: bytes go to the tail until it holds eight. -/
def sipFillTail (s : SipState) : List UInt8 → SipState × List UInt8
  | [] => (s, [])
  | b :: data => if s.tailLen < 8 then sipFillTail (sipTailByte s b) data else (s, b :: data)

/-- The second loop of `sip_update`, with the number of turns left. -/
def sipWords (order : ByteOrder) : ℕ → SipState → List UInt8 → SipState
  | 0, s, _ => s
  | n + 1, s, data =>
    sipWords order n (sipCompress s (getU64Native order (data.take 8))) (data.drop 8)

/-- `sip_update`. -/
def sipUpdate (order : ByteOrder) (s : SipState) (data : List UInt8) : SipState :=
  let s := { s with totalLen := s.totalLen + UInt64.ofNat data.length }
  let (s, data) := if s.tailLen ≠ 0 then sipFillTail s data else (s, data)
  let s := if s.tailLen = 8 then { sipCompress s s.tail with tail := 0, tailLen := 0 } else s
  let s := sipWords order (data.length / 8) s data
  (data.drop (data.length / 8 * 8)).foldl sipTailByte s

/-- The thirty bytes of `meta`. -/
def macMeta (header : Header) (payloadLen : ℕ) : List UInt8 :=
  [header.op, header.flags] ++ putU64 header.procId ++ putU32 header.size ++
    putU64 header.callId ++ putU32 header.checksum ++ putU32 (UInt32.ofNat payloadLen)

/-- `wirecall_packet_mac`. -/
def packetMac (order : ByteOrder) (header : Header) (payload key : List UInt8) : UInt64 :=
  if payload.length > maxPayloadSize then 0
  else
    let k0 := getU64Native order (key.take 8)
    let k1 := getU64Native order ((key.drop 8).take 8)
    let s : SipState :=
      { v0 := 0x736f6d6570736575 ^^^ k0
        v1 := 0x646f72616e646f6d ^^^ k1
        v2 := 0x6c7967656e657261 ^^^ k0
        v3 := 0x7465646279746573 ^^^ k1
        totalLen := 0
        tail := 0
        tailLen := 0 }
    let s := sipUpdate order s (macMeta header payload.length)
    let s := sipUpdate order s payload
    let s := sipCompress s (s.tail ||| (s.totalLen <<< 56))
    let s := { s with v2 := s.v2 ^^^ 0xff }
    let s := sipRound (sipRound (sipRound (sipRound s)))
    s.v0 ^^^ s.v1 ^^^ s.v2 ^^^ s.v3

/-- The integrity settings of an endpoint: the host's byte order, the mode and the key. -/
structure Integrity where
  order : ByteOrder
  mode : UInt32
  macKey : Option (List UInt8)
  deriving DecidableEq, Repr

/-- The guard that `wirecall_packet_sign_ex` and `wirecall_packet_verify_ex` share. -/
def integrityRefused (integrity : Integrity) (header : Header) (payload : List UInt8) : Bool :=
  payload.length > maxPayloadSize || header.size.toNat ≠ payload.length ||
    (integrity.mode &&& integrityMac ≠ 0 && integrity.macKey.isNone)

/-- `wirecall_packet_sign_ex`. -/
def packetSignEx (integrity : Integrity) (header : Header) (payload : List UInt8) :
    Option Header :=
  if integrityRefused integrity header payload then none
  else
    let header :=
      { header with
        checksum :=
          if integrity.mode &&& integrityChecksum ≠ 0 then
            packetChecksum integrity.order header payload
          else 0 }
    some
      { header with
        mac :=
          if integrity.mode &&& integrityMac ≠ 0 then
            packetMac integrity.order header payload (integrity.macKey.getD [])
          else 0 }

/-- `wirecall_packet_verify_ex`. -/
def packetVerifyEx (integrity : Integrity) (header : Header) (payload : List UInt8) : Bool :=
  if integrityRefused integrity header payload then false
  else if integrity.mode &&& integrityChecksum ≠ 0 &&
      packetChecksum integrity.order header payload ≠ header.checksum then false
  else if integrity.mode &&& integrityMac ≠ 0 &&
      packetMac integrity.order header payload (integrity.macKey.getD []) ≠ header.mac then false
  else true

/-! ## Signing and verification agree -/

/-- The checksum reads neither of the two integrity fields. -/
theorem packetChecksum_congr (order : ByteOrder) (h : Header) (c : UInt32) (m : UInt64)
    (payload : List UInt8) :
    packetChecksum order { h with checksum := c, mac := m } payload =
      packetChecksum order h payload := rfl

/-- The MAC does not read the MAC field. -/
theorem packetMac_congr (order : ByteOrder) (h : Header) (m : UInt64)
    (payload key : List UInt8) :
    packetMac order { h with mac := m } payload key = packetMac order h payload key := rfl

/-- Signing changes the two integrity fields only. -/
theorem packetSignEx_eq_some {i : Integrity} {h h' : Header} {payload : List UInt8}
    (hs : packetSignEx i h payload = some h') :
    integrityRefused i h payload = false ∧ ∃ c m, h' = { h with checksum := c, mac := m } := by
  unfold packetSignEx at hs
  split at hs
  · cases hs
  · rename_i hr
    exact ⟨by simpa using hr, _, _, (Option.some.inj hs).symm⟩

/-- A packet of matching size can be signed when the MAC, if asked for, has a key. -/
theorem exists_packetSignEx {i : Integrity} {h : Header} {payload : List UInt8}
    (hl : payload.length ≤ maxPayloadSize) (hsize : h.size.toNat = payload.length)
    (hkey : i.macKey.isSome) : ∃ h', packetSignEx i h payload = some h' := by
  have hr : integrityRefused i h payload = false := by
    obtain ⟨k, hk⟩ := Option.isSome_iff_exists.mp hkey
    simp [integrityRefused, hsize, hk, Nat.not_lt.mpr hl]
  exact ⟨_, by rw [packetSignEx, if_neg (by simp [hr])]⟩

/-- **A signed header verifies** under the settings it was signed with. -/
theorem packetVerifyEx_packetSignEx {i : Integrity} {h h' : Header} {payload : List UInt8}
    (hs : packetSignEx i h payload = some h') : packetVerifyEx i h' payload = true := by
  have hr : integrityRefused i h payload = false := (packetSignEx_eq_some hs).1
  unfold packetSignEx at hs
  rw [if_neg (by simp [hr])] at hs
  obtain rfl := Option.some.inj hs
  have hr' : ∀ c m, integrityRefused i { h with checksum := c, mac := m } payload = false :=
    fun _ _ => hr
  unfold packetVerifyEx
  rw [if_neg (by simp [hr'])]
  -- the mode decides which of the two fields is compared; each compares equal
  by_cases hc : i.mode &&& integrityChecksum = 0 <;> by_cases hm : i.mode &&& integrityMac = 0 <;>
    simp only [hc, hm, packetChecksum_congr, ne_eq, not_true_eq_false, not_false_eq_true,
      decide_true, decide_false, Bool.true_and, Bool.false_and, if_true, if_false,
      Bool.false_eq_true]
  · exact if_neg (by simpa using packetMac_congr i.order { h with checksum := 0 } _ payload _)
  · exact if_neg (by simpa using packetMac_congr i.order { h with checksum := _ } _ payload _)

end Wirecall

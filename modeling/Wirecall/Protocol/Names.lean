import Wirecall.Protocol.Checksum

/-!
# Procedure ids

`wirecall_proc_id` is the only thing a procedure's name is known by on the wire and in the route
table: two names with one id share a route, and the later registration replaces the earlier one. The
hash takes a name byte by byte, and each step is injective in the state and in the byte. So a common
ending neither makes nor breaks a collision, and names that differ in one byte never have one hash.
The id can still agree, in one case only: a hash of zero is replaced by one.

## Main definitions

* `nameHash`: the loop of `wirecall_proc_id`

## Main results

* `nameHash_append_inj`: a common ending does not matter
* `procId_eq_imp`: names with one id have one hash, or their hashes are zero and one
* `procId_near`: **names that differ in one byte are told apart**, but for the hashes zero and one
-/

namespace Wirecall

open Function

/-- The loop of `wirecall_proc_id` on the bytes before the final zero. -/
def nameHash (name : List UInt8) : UInt64 :=
  name.foldl (fun hash c => (hash ^^^ c.toUInt64) * 1099511628211) 14695981039346656037

/-- The multiplication by the prime of FNV. -/
theorem fnvMul_injective : Injective fun x : UInt64 => x * 1099511628211 :=
  @mul64_injective 1099511628211 0xce965057aff6957b (by decide)

theorem nameStep_injective (c : UInt8) :
    Injective fun hash : UInt64 => (hash ^^^ c.toUInt64) * 1099511628211 :=
  fnvMul_injective.comp (xor_injective c.toUInt64)

/-- **Two bytes take a state to two states.** -/
theorem nameStep_ne {c c' : UInt8} (hne : c ≠ c') (hash : UInt64) :
    (hash ^^^ c.toUInt64) * 1099511628211 ≠ (hash ^^^ c'.toUInt64) * 1099511628211 := by
  intro heq
  have hxor : hash ^^^ c.toUInt64 = hash ^^^ c'.toUInt64 := fnvMul_injective heq
  have hword : c.toUInt64 = c'.toUInt64 := (UInt64.xor_right_inj hash).mp hxor
  exact hne (UInt8.toUInt64_inj.mp hword)

/-- A common ending neither makes nor breaks a collision. -/
theorem nameHash_append_inj {a b : List UInt8} (ending : List UInt8) :
    nameHash (a ++ ending) = nameHash (b ++ ending) ↔ nameHash a = nameHash b := by
  unfold nameHash
  rw [List.foldl_append, List.foldl_append]
  exact (WordMaps.foldl_injective nameStep_injective ending).eq_iff

theorem nameHash_near {c c' : UInt8} (hne : c ≠ c') (front back : List UInt8) :
    nameHash (front ++ c :: back) ≠ nameHash (front ++ c' :: back) :=
  WordMaps.foldl_ne nameStep_injective (nameStep_ne hne) _ front back

theorem procId_eq_nameHash {name : List UInt8} (hname : 0 ∉ name) :
    procId (some name) = if nameHash name ≠ 0 then nameHash name else 1 := by
  have hwhole : name.takeWhile (· ≠ 0) = name := by
    rw [List.takeWhile_eq_self_iff]
    intro c hc
    have hne : c ≠ 0 := fun h => hname (h ▸ hc)
    simpa using hne
  rw [procId, hwhole]
  rfl

/-- The id of a name is never that of no name. -/
theorem procId_ne_zero (name : List UInt8) : procId (some name) ≠ procId none := by
  simp only [procId]
  split_ifs with hzero
  · exact hzero
  · decide

/-- Names with one id have one hash, or their hashes are zero and one. -/
theorem procId_eq_imp {a b : List UInt8} (ha : 0 ∉ a) (hb : 0 ∉ b)
    (heq : procId (some a) = procId (some b)) :
    nameHash a = nameHash b ∨ (nameHash a = 0 ∧ nameHash b = 1) ∨
      (nameHash a = 1 ∧ nameHash b = 0) := by
  rw [procId_eq_nameHash ha, procId_eq_nameHash hb] at heq
  by_cases hza : nameHash a = 0
  · by_cases hzb : nameHash b = 0
    · exact .inl (hza.trans hzb.symm)
    · rw [if_neg (not_not.mpr hza), if_pos hzb] at heq
      exact .inr (.inl ⟨hza, heq.symm⟩)
  · by_cases hzb : nameHash b = 0
    · rw [if_pos hza, if_neg (not_not.mpr hzb)] at heq
      exact .inr (.inr ⟨heq, hzb⟩)
    · rw [if_pos hza, if_pos hzb] at heq
      exact .inl heq

/-- **Names that differ in one byte are told apart**, wherever the byte stands and whatever the rest
of the names is: they share an id only if one of them has the hash zero and the other the hash one,
and no name at all, the empty one included, shares the id of a missing name. -/
theorem procId_near (front back : List UInt8) (c c' : UInt8) (hne : c ≠ c')
    (hname : 0 ∉ front ++ c :: back) (hname' : 0 ∉ front ++ c' :: back) :
    (procId (some (front ++ c :: back)) = procId (some (front ++ c' :: back)) →
      (nameHash (front ++ c :: back) = 0 ∧ nameHash (front ++ c' :: back) = 1) ∨
        (nameHash (front ++ c :: back) = 1 ∧ nameHash (front ++ c' :: back) = 0)) ∧
      ∀ name, procId (some name) ≠ procId none := by
  refine ⟨fun heq => ?_, procId_ne_zero⟩
  exact (procId_eq_imp hname hname' heq).resolve_left (nameHash_near hne front back)

/-- The names `add1` and `add2`. -/
theorem procId_near_add :
    procId (some (text "add" ++ [49])) ≠ procId (some (text "add" ++ [50])) := by
  intro heq
  have hzero : ¬ ((nameHash (text "add" ++ [49]) = 0 ∧ nameHash (text "add" ++ [50]) = 1) ∨
      (nameHash (text "add" ++ [49]) = 1 ∧ nameHash (text "add" ++ [50]) = 0)) := by decide
  exact hzero ((procId_near (text "add") [] 49 50 (by decide) (by decide) (by decide)).1 heq)

end Wirecall

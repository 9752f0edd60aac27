import Wirecall.Memory.BlockLedger
import Wirecall.Payload.Width

/-!
# The memory of a decoded payload

`wirecall_payload_decode` keeps its values in an array that grows, and the bytes of some of them in
copies. A failure can come after any number of values: everything obtained so far is then freed.
Otherwise the caller gets an array that ends in an entry with the sentinel type, which is how
`wirecall_values_free` finds its end.

Growing the array is modelled as a new block with the old one freed. What an array holds where nothing
was written yet is left open.

## Main definitions

* `Cell`, `ValueArray`: an entry of the array and the array
* `valuesCleanup`, `valuesFree`: `values_cleanup` and `wirecall_values_free`
* `ownedTurn`, `ownedLoop`, `payloadDecodeOwned`: the decoder with its allocations
* `DecodeState.Holds`: what the array and the ledger are while the decoder runs

## Main results

* `ownedTurn_forget`, `ownedTurn_accounts`: what one turn does, and what it obtains
* `ownedLoop_fits`: how the loop ends, against the decoder of `Payload.Decode`
* `decode_owns`: **the decoder owns its memory exactly**
* `empty_payload_no_array`: an empty payload leaves no array
-/

namespace Wirecall

/-! ## Arrays of values -/

/-- An entry of the array: a value with the pointer in it, or an entry with the sentinel type. -/
inductive Cell where
  | value (v : Value) (block : Option ℕ)
  | sentinel
  deriving DecidableEq

/-- The pointer that `values_cleanup` frees for an entry. -/
def Cell.owned : Cell → Option ℕ
  | .value (.bytes _) block => block
  | .value (.string _) block => block
  | _ => none

/-- An array of `wirecall_value` and the id of its block. -/
structure ValueArray where
  block : ℕ
  cells : List Cell
  deriving DecidableEq

/-- `values_cleanup`. -/
def valuesCleanup (values : Option ValueArray) (count : ℕ) (ledger : BlockLedger) : BlockLedger :=
  match values with
  | none => ledger
  | some array => ((array.cells.take count).map Cell.owned).foldl BlockLedger.free ledger

/-- `wirecall_values_free`; there is no result if the search for the sentinel leaves the array. -/
def valuesFree (values : Option ValueArray) (ledger : BlockLedger) : Option BlockLedger :=
  match values with
  | none => some ledger
  | some array =>
    match array.cells.findIdx? (fun cell => cell = .sentinel) with
    | none => none
    | some count => some ((valuesCleanup values count ledger).free (some array.block))

/-! ## The decoder with its allocations -/

/-- What one turn does: a value is stored with the pointer to its copy. -/
inductive OwnedTurn where
  | store (value : Value) (block : Option ℕ) (off : ℕ)
  | malformed
  | outOfBounds
  deriving DecidableEq

/-- A turn without its pointer. -/
def OwnedTurn.forget : OwnedTurn → Turn
  | .store value _ off => .store value off
  | .malformed => .malformed
  | .outOfBounds => .outOfBounds

/-- A turn that allocates nothing. -/
def Turn.own : Turn → OwnedTurn
  | .store value off => .store value none off
  | .malformed => .malformed
  | .outOfBounds => .outOfBounds

/-- `decodeBlob` with the block of the copy. -/
def ownedBlob (bits : ℕ) (mem : Mem) (data : List UInt8) (off : ℕ) (terminated : Bool)
    (mk : Blob → Value) (ledger : BlockLedger) : OwnedTurn × BlockLedger :=
  if (off + 4) % 2 ^ bits > data.length then (.malformed, ledger)
  else if off + 4 > data.length then (.outOfBounds, ledger)
  else
    let valueLen := getU32 (data.drop off)
    let off := (off + 4) % 2 ^ bits
    let next := (off + valueLen.toNat) % 2 ^ bits
    if next > data.length then (.malformed, ledger)
    else
      let copyLen := copyLen bits terminated valueLen.toNat
      if copyLen > 0 then
        if mem copyLen then
          if off + valueLen.toNat > data.length then (.outOfBounds, ledger.acquire)
          else (.store (mk (.copy (data.drop off) valueLen)) (some ledger.next) next, ledger.acquire)
        else (.malformed, ledger)
      else (.store (mk .empty) none next, ledger)

/-- One turn of the loop. Only the label of bytes and strings allocates. -/
def ownedTurn (bits : ℕ) (mem : Mem) (data : List UInt8) (off : ℕ) (ledger : BlockLedger) :
    OwnedTurn × BlockLedger :=
  match data[off]?.bind ValueType.ofCode? with
  | some .bytes => ownedBlob bits mem data ((off + 1) % 2 ^ bits) false .bytes ledger
  | some .string => ownedBlob bits mem data ((off + 1) % 2 ^ bits) true .string ledger
  | _ => ((decodeTurn bits mem data off).own, ledger)

/-- The variables of the loop. -/
structure DecodeState where
  values : Option ValueArray
  count : ℕ
  cap : ℕ
  off : ℕ
  ledger : BlockLedger
  deriving DecidableEq

/-- The array with room for `size` entries: the old ones first, and anything after them. -/
def growCells (fill : ℕ → Cell) (values : Option ValueArray) (size : ℕ) : List Cell :=
  let cells := values.elim [] ValueArray.cells
  cells ++ (List.range (size - cells.length)).map fill

/-- The growth step at the loop head; there is no result if the request is refused. -/
def growValues (bits : ℕ) (mem : DecodeMem) (fill : ℕ → Cell) (s : DecodeState) :
    Option DecodeState :=
  if s.count = s.cap then
    let nextCap := nextValueCap s.count s.cap
    if mem.grow s.count ((nextCap + 1) * sizeofValue bits) then
      some
        { s with
          values := some ⟨s.ledger.next, (growCells fill s.values (nextCap + 1)).set s.count .sentinel⟩
          cap := nextCap
          ledger := s.ledger.acquire.free (s.values.map ValueArray.block) }
    else none
  else some s

/-- The label `store`. -/
def storeValue (s : DecodeState) (value : Value) (block : Option ℕ) (off : ℕ)
    (ledger : BlockLedger) : DecodeState :=
  { s with
    values := s.values.map fun array =>
      { array with cells := (array.cells.set s.count (.value value block)).set (s.count + 1) .sentinel }
    count := s.count + 1
    off := off
    ledger := ledger }

/-- What both failures do: the values, then the array. -/
def releaseValues (s : DecodeState) (ledger : BlockLedger) : BlockLedger :=
  (valuesCleanup s.values s.count ledger).free (s.values.map ValueArray.block)

/-- How the loop ends. -/
inductive OwnedEnd where
  | ok (s : DecodeState)
  | error (ledger : BlockLedger)
  | outOfBounds
  | outOfFuel
  deriving DecidableEq

/-- `decodeLoop` with the array and the ledger. -/
def ownedLoop (bits : ℕ) (mem : DecodeMem) (fill : ℕ → ℕ → Cell) (data : List UInt8) :
    ℕ → DecodeState → OwnedEnd
  | 0, s => if s.off < data.length then .outOfFuel else .ok s
  | fuel + 1, s =>
    if s.off < data.length then
      match growValues bits mem (fill s.count) s with
      | none => .error (releaseValues s s.ledger)
      | some s =>
        match ownedTurn bits (mem.copy s.count) data s.off s.ledger with
        | (.store value block off, ledger) =>
          ownedLoop bits mem fill data fuel (storeValue s value block off ledger)
        | (.malformed, ledger) => .error (releaseValues s ledger)
        | (.outOfBounds, _) => .outOfBounds
    else .ok s

/-- `*out_values` and `*out_count`. -/
structure DecodeOut where
  values : Option ValueArray
  count : ℕ
  deriving DecidableEq

/-- The variables before the loop. -/
def DecodeState.init : DecodeState := ⟨none, 0, 0, 0, .empty⟩

/-- `wirecall_payload_decode` with a `size_t` of `bits` bits, its out parameters and the ledger of the
blocks it obtains; there is no result if it reads past the payload or runs on. -/
def payloadDecodeOwned (bits : ℕ) (mem : DecodeMem) (fill : ℕ → ℕ → Cell) (data : List UInt8)
    (out : DecodeOut) : Option (Rc × DecodeOut × BlockLedger) :=
  match ownedLoop bits mem fill data data.length .init with
  | .ok s => some (.ok, ⟨s.values, s.count⟩, s.ledger)
  | .error ledger => some (.err, out, ledger)
  | .outOfBounds => none
  | .outOfFuel => none

/-! ## One turn -/

section Turn

variable {bits : ℕ} {mem : Mem} {data : List UInt8} {off : ℕ} {ledger : BlockLedger}

@[simp] theorem Turn.forget_own (turn : Turn) : turn.own.forget = turn := by
  cases turn <;> rfl

theorem ownedBlob_forget (terminated : Bool) (mk : Blob → Value) :
    (ownedBlob bits mem data off terminated mk ledger).1.forget =
      decodeBlob bits mem data off terminated mk := by
  unfold ownedBlob decodeBlob
  simp only
  split_ifs <;> rfl

/-- Without its pointers and the ledger, a turn is a turn of the decoder. -/
theorem ownedTurn_forget :
    (ownedTurn bits mem data off ledger).1.forget = decodeTurn bits mem data off := by
  unfold ownedTurn
  cases hget : data[off]? with
  | none => exact Turn.forget_own _
  | some tag =>
    simp only [Option.bind_some]
    split
    · rename_i htype
      rw [ownedBlob_forget, decodeTurn, hget]
      simp only [htype]
    · rename_i htype
      rw [ownedBlob_forget, decodeTurn, hget]
      simp only [htype]
    · exact Turn.forget_own _

/-- **What a turn does with the ledger**: a value is stored with the block that was obtained for it,
and nothing else was obtained. -/
def OwnedTurn.Accounts (ledger : BlockLedger) : OwnedTurn × BlockLedger → Prop
  | (.store value block _, ledger') =>
    ∀ live, ledger.Owns live → ledger'.Owns ((Cell.value value block).owned.toList ++ live)
  | (.malformed, ledger') => ledger' = ledger
  | (.outOfBounds, _) => True

theorem ownedBlob_accounts (terminated : Bool) {mk : Blob → Value}
    (hmk : ∀ blob block, (Cell.value (mk blob) block).owned = block) :
    OwnedTurn.Accounts ledger (ownedBlob bits mem data off terminated mk ledger) := by
  unfold ownedBlob
  simp only
  split_ifs
  · exact rfl
  · exact trivial
  · exact rfl
  · exact trivial
  · -- the copy is the block that was just handed out
    intro live hlive
    rw [hmk]
    exact hlive.acquire
  · exact rfl
  · intro live hlive
    rw [hmk]
    exact hlive

theorem Turn.own_accounts {turn : Turn} (ledger : BlockLedger) :
    OwnedTurn.Accounts ledger (turn.own, ledger) := by
  cases turn with
  | store value off =>
    intro live hlive
    cases value <;> exact hlive
  | malformed => exact rfl
  | outOfBounds => exact trivial

theorem ownedTurn_accounts : OwnedTurn.Accounts ledger (ownedTurn bits mem data off ledger) := by
  unfold ownedTurn
  split
  · exact ownedBlob_accounts false fun _ _ => rfl
  · exact ownedBlob_accounts true fun _ _ => rfl
  · exact Turn.own_accounts ledger

end Turn

/-! ## The array while the decoder runs -/

/-- A value with the pointer in it. -/
abbrev Stored := Value × Option ℕ

/-- The entry of the array for it. -/
def Stored.cell (e : Stored) : Cell := .value e.1 e.2

/-- The cells of an array that holds `entries`: the sentinel stands after them. -/
def cellsOf (entries : List Stored) (junk : List Cell) : List Cell :=
  entries.map Stored.cell ++ .sentinel :: junk

/-- The blocks in the entries. -/
def copies (entries : List Stored) : List ℕ := (entries.map fun e => e.cell.owned).reduceOption

/-- There is no array before the first turn; later it has one entry more than its capacity, and the
sentinel stands after the last value. -/
inductive ArrayHolds (entries : List Stored) (cap off : ℕ) : Option ValueArray → Prop
  | unallocated (hentries : entries = []) (hcap : cap = 0) (hoff : off = 0) :
      ArrayHolds entries cap off none
  | allocated {block : ℕ} {junk : List Cell} (hcap : entries.length + junk.length = cap) :
      ArrayHolds entries cap off (some ⟨block, cellsOf entries junk⟩)

/-- **What holds at the head of the loop**: the array ends in the sentinel, and the decoder owns the
array and the copies in it. -/
structure DecodeState.Holds (s : DecodeState) (entries : List Stored) : Prop where
  count_eq : s.count = entries.length
  array : ArrayHolds entries s.cap s.off s.values
  owns : s.ledger.Owns ((s.values.map ValueArray.block).toList ++ copies entries)

section Loop

variable {bits : ℕ} {mem : DecodeMem} {fill : ℕ → ℕ → Cell} {data : List UInt8} {s s' : DecodeState}
  {entries : List Stored}

theorem holds_init : DecodeState.init.Holds [] :=
  ⟨rfl, .unallocated rfl rfl rfl, BlockLedger.owns_empty⟩

@[simp] theorem length_cellsOf (entries : List Stored) (junk : List Cell) :
    (cellsOf entries junk).length = entries.length + junk.length + 1 := by
  simp [cellsOf, Nat.add_assoc]

theorem copies_append (entries : List Stored) (e : Stored) :
    copies (entries ++ [e]) = copies entries ++ e.cell.owned.toList := by
  simp only [copies, List.map_append, List.map_singleton, List.reduceOption_append]
  cases e.cell.owned <;> rfl

/-- Cleaning up the values frees their copies. -/
theorem owns_valuesCleanup {ledger : BlockLedger} {block : ℕ} {junk : List Cell}
    (h : ledger.Owns (block :: copies entries)) :
    (valuesCleanup (some ⟨block, cellsOf entries junk⟩) entries.length ledger).Owns [block] := by
  have htake : (cellsOf entries junk).take entries.length = entries.map Stored.cell := by
    rw [cellsOf, List.take_left' (List.length_map _)]
  rw [valuesCleanup, htake, List.map_map]
  apply BlockLedger.Owns.foldl_free
  exact h.perm (List.perm_append_singleton block _).symm

/-- **Both failures free everything.** -/
theorem DecodeState.Holds.release (h : s.Holds entries) :
    (releaseValues s s.ledger).Owns [] := by
  have howns := h.owns
  have harray := h.array
  unfold releaseValues
  rw [h.count_eq]
  generalize s.values = values at howns harray
  cases harray with
  | unallocated hentries hcap hoff =>
    subst hentries
    exact howns
  | allocated hcap => exact (owns_valuesCleanup howns).free

theorem lt_nextValueCap (cap : ℕ) : cap < nextValueCap cap cap := by
  unfold nextValueCap
  rw [if_pos rfl]
  split_ifs <;> omega

/-- The sentinel is written after the entries of an array. -/
theorem set_sentinel (entries : List Stored) (cell : Cell) (junk : List Cell) :
    (entries.map Stored.cell ++ cell :: junk).set entries.length .sentinel = cellsOf entries junk := by
  rw [List.set_append_right _ _ (by rw [List.length_map]), List.length_map, Nat.sub_self,
    List.set_cons_zero]
  rfl

/-- A value is written over the sentinel, and the sentinel after it. -/
theorem set_value (entries : List Stored) (e : Stored) (cell : Cell) (junk : List Cell) :
    ((cellsOf entries (cell :: junk)).set entries.length e.cell).set (entries.length + 1) .sentinel =
      cellsOf (entries ++ [e]) junk := by
  have hset : (cellsOf entries (cell :: junk)).set entries.length e.cell =
      (entries ++ [e]).map Stored.cell ++ cell :: junk := by
    rw [cellsOf, List.set_append_right _ _ (by rw [List.length_map]), List.length_map, Nat.sub_self,
      List.set_cons_zero, List.map_append, List.append_assoc]
    rfl
  rw [hset, ← set_sentinel (entries ++ [e]) cell junk, List.length_append, List.length_singleton]

/-- A full array that grows holds its entries, with the sentinel where the room begins. -/
theorem ArrayHolds.growCells {cap off n : ℕ} {values : Option ValueArray} (fill : ℕ → Cell)
    (h : ArrayHolds entries cap off values) (hfull : entries.length = cap) (hlt : cap < n) :
    ∃ junk, (Wirecall.growCells fill values (n + 1)).set entries.length .sentinel =
      cellsOf entries junk ∧ entries.length + junk.length = n := by
  cases h with
  | unallocated hentries hcap hoff =>
    subst hentries
    refine ⟨(List.range n).map (fill ∘ Nat.succ), ?_, ?_⟩
    · rw [← set_sentinel [] (fill 0), Wirecall.growCells]
      simp only [Option.elim_none, List.length_nil, Nat.sub_zero, List.nil_append,
        List.range_succ_eq_map, List.map_cons, List.map_map, List.map_nil]
    · rw [List.length_map, List.length_range, List.length_nil, Nat.zero_add]
  | @allocated block junk hcap =>
    obtain rfl : junk = [] := List.length_eq_zero_iff.mp (by omega)
    refine ⟨(List.range (n - cap)).map fill, ?_, ?_⟩
    · have hgrown : Wirecall.growCells fill (some ⟨block, cellsOf entries []⟩) (n + 1) =
          entries.map Stored.cell ++ .sentinel :: (List.range (n - cap)).map fill := by
        rw [Wirecall.growCells]
        simp only [Option.elim_some, length_cellsOf, List.length_nil]
        rw [show n + 1 - (entries.length + 0 + 1) = n - cap by omega, cellsOf, List.append_assoc]
        rfl
      rw [hgrown, set_sentinel]
    · rw [List.length_map, List.length_range]
      omega

/-- A new array is obtained before the old one is freed. -/
theorem owns_growth {ledger : BlockLedger} {block : Option ℕ} {live : List ℕ}
    (h : ledger.Owns (block.toList ++ live)) :
    (ledger.acquire.free block).Owns (ledger.next :: live) := by
  apply BlockLedger.Owns.free
  exact h.acquire.perm List.perm_middle.symm

/-- **The growth step** keeps the values and makes room for one more. -/
theorem DecodeState.Holds.grow {fill : ℕ → Cell} (h : s.Holds entries)
    (hgrow : growValues bits mem fill s = some s') :
    s'.Holds entries ∧ entries.length < s'.cap ∧ s'.off = s.off ∧
      s'.cap = nextValueCap s.count s.cap := by
  have hcount := h.count_eq
  unfold growValues at hgrow
  by_cases hfull : s.count = s.cap
  · rw [if_pos hfull] at hgrow
    simp only at hgrow
    split_ifs at hgrow
    cases hgrow
    have hlt : s.cap < nextValueCap s.count s.cap := by
      rw [hfull]
      exact lt_nextValueCap s.cap
    obtain ⟨junk, hcells, hcap⟩ := h.array.growCells fill (hcount.symm.trans hfull) hlt
    refine ⟨⟨hcount, ?_, owns_growth h.owns⟩, lt_of_eq_of_lt (hcount.symm.trans hfull) hlt, rfl,
      rfl⟩
    rw [← hcount] at hcells
    simp only
    rw [hcells]
    exact .allocated hcap
  · rw [if_neg hfull] at hgrow
    cases hgrow
    have hle : entries.length ≤ s.cap := by
      have harray := h.array
      generalize s.values = values at harray
      cases harray with
      | unallocated hentries hcap hoff => rw [hentries]; exact Nat.zero_le _
      | allocated hcap => omega
    exact ⟨h, by omega, rfl, by rw [nextValueCap, if_neg hfull]⟩

/-- **The store step** adds a value with its copy. -/
theorem DecodeState.Holds.store (h : s.Holds entries) (hroom : entries.length < s.cap) {v : Value}
    {block : Option ℕ} (off : ℕ) {ledger : BlockLedger}
    (hledger : ∀ live, s.ledger.Owns live → ledger.Owns ((Cell.value v block).owned.toList ++ live)) :
    (storeValue s v block off ledger).Holds (entries ++ [(v, block)]) := by
  have hcount := h.count_eq
  have howns := hledger _ h.owns
  have harray := h.array
  rcases s with ⟨values, count, cap, off₀, ledger₀⟩
  simp only at hcount howns harray hroom
  subst hcount
  cases harray with
  | unallocated hentries hcap hoff => omega
  | @allocated arrayBlock junk hcap =>
    cases junk with
    | nil => simp only [List.length_nil] at hcap; omega
    | cons cell junk =>
      rw [List.length_cons] at hcap
      refine ⟨?_, ?_, ?_⟩
      · rw [List.length_append, List.length_singleton]
        rfl
      · simp only [storeValue, Option.map_some]
        rw [show Cell.value v block = Stored.cell (v, block) from rfl, set_value]
        apply ArrayHolds.allocated
        rw [List.length_append, List.length_singleton]
        omega
      · simp only [storeValue, Option.map_some, Option.toList_some]
        rw [copies_append]
        apply howns.perm
        exact (List.perm_append_comm).trans (by rw [List.append_assoc]; exact .refl _)

theorem growValues_eq_none {fill : ℕ → Cell} :
    growValues bits mem fill s = none ↔
      s.count = s.cap ∧
        mem.grow s.count ((nextValueCap s.count s.cap + 1) * sizeofValue bits) = false := by
  unfold growValues
  by_cases hfull : s.count = s.cap
  · rw [if_pos hfull]
    simp only
    cases hgranted : mem.grow s.count ((nextValueCap s.count s.cap + 1) * sizeofValue bits) with
    | true => simp
    | false => simp [hfull]
  · rw [if_neg hfull]
    simp [hfull]

/-- How the decoder with its allocations ends, against the one without. -/
inductive OwnedEnd.Fits (data : List UInt8) : OwnedEnd → Decoded → Prop
  | ok {s : DecodeState} {entries : List Stored} (h : s.Holds entries)
      (hend : ¬ s.off < data.length) : Fits data (.ok s) (.ok (entries.map Prod.fst))
  | error {ledger : BlockLedger} (h : ledger.Owns []) : Fits data (.error ledger) .error
  | outOfBounds : Fits data .outOfBounds .outOfBounds
  | outOfFuel : Fits data .outOfFuel .outOfFuel

/-- **What the loop leaves**: it ends as the decoder does, a failure leaves nothing to free, and
otherwise the array holds the values. -/
theorem ownedLoop_fits {fuel : ℕ} (h : s.Holds entries) :
    (ownedLoop bits mem fill data fuel s).Fits data
      (decodeLoop bits mem data fuel s.off s.cap (entries.map Prod.fst)) := by
  induction fuel generalizing s entries with
  | zero =>
    rw [ownedLoop, decodeLoop]
    split_ifs with hlt
    · exact .outOfFuel
    · exact .ok h hlt
  | succ fuel ih =>
    have hlength : (entries.map Prod.fst).length = s.count := by
      rw [List.length_map, h.count_eq]
    rw [ownedLoop, decodeLoop]
    by_cases hlt : s.off < data.length
    · rw [if_pos hlt, if_pos hlt]
      simp only
      rw [hlength]
      cases hgrow : growValues bits mem (fill s.count) s with
      | none =>
        -- the array could not grow
        rw [if_pos (growValues_eq_none.mp hgrow)]
        exact .error h.release
      | some s' =>
        obtain ⟨h', hroom, hoff, hcap⟩ := h.grow hgrow
        have hgranted := mt growValues_eq_none.mpr (by rw [hgrow]; exact Option.some_ne_none s')
        have hcount : s'.count = s.count := h'.count_eq.trans h.count_eq.symm
        rw [if_neg hgranted, ← hcap, ← hoff, ← hcount]
        simp only
        -- one turn, with and without its allocation
        have hforget := @ownedTurn_forget bits (mem.copy s'.count) data s'.off s'.ledger
        have haccounts := @ownedTurn_accounts bits (mem.copy s'.count) data s'.off s'.ledger
        rw [← hforget]
        rcases hturn : ownedTurn bits (mem.copy s'.count) data s'.off s'.ledger with ⟨turn, ledger⟩
        rw [hturn] at haccounts
        cases turn with
        | store v block off =>
          have hnext := ih (h'.store hroom off haccounts)
          rwa [List.map_append] at hnext
        | malformed =>
          obtain rfl : ledger = s'.ledger := haccounts
          exact .error h'.release
        | outOfBounds => exact .outOfBounds
    · rw [if_neg hlt, if_neg hlt]
      exact .ok h hlt

/-- The first entry with the sentinel type is the one after the values. -/
theorem findIdx?_cellsOf (entries : List Stored) (junk : List Cell) :
    (cellsOf entries junk).findIdx? (fun cell => cell = .sentinel) = some entries.length := by
  rw [List.findIdx?_eq_some_iff_getElem]
  refine ⟨by rw [length_cellsOf]; omega, ?_, ?_⟩
  · simp [cellsOf]
  · intro i hi
    simp [cellsOf, List.getElem_append_left, hi, Stored.cell]

/-- **`wirecall_values_free`** frees what a decoder that ended well owns. -/
theorem DecodeState.Holds.valuesFree (h : s.Holds entries) :
    ∃ ledger, Wirecall.valuesFree s.values s.ledger = some ledger ∧ ledger.Owns [] := by
  have howns := h.owns
  have harray := h.array
  generalize s.values = values at howns harray
  cases harray with
  | unallocated hentries hcap hoff =>
    subst hentries
    exact ⟨s.ledger, rfl, howns⟩
  | @allocated block junk hcap =>
    have hcleaned : (valuesCleanup (some ⟨block, cellsOf entries junk⟩) entries.length
        s.ledger).Owns [block] := owns_valuesCleanup howns
    refine ⟨_, ?_, hcleaned.release⟩
    rw [Wirecall.valuesFree]
    simp only [findIdx?_cellsOf]
    rfl

/-- The entry after the last value is the first one with the sentinel type; there is no array only if
the decoder has not begun. -/
theorem DecodeState.Holds.findIdx? (h : s.Holds entries) :
    (s.off = 0 ∧ s.values = none ∧ s.count = 0) ∨
      ∃ array, s.values = some array ∧
        array.cells.findIdx? (fun cell => cell = .sentinel) = some s.count := by
  have hcount := h.count_eq
  have harray := h.array
  generalize s.values = values at harray
  cases harray with
  | unallocated hentries hcap hoff =>
    rw [hentries] at hcount
    exact .inl ⟨hoff, rfl, hcount⟩
  | allocated hcap =>
    rw [hcount]
    exact .inr ⟨_, rfl, findIdx?_cellsOf entries _⟩

end Loop

/-! ## The whole call -/

/-- Without its memory, the decoder is the one of `payloadDecodeWidth`. -/
theorem ownedLoop_init_fits (bits : ℕ) (mem : DecodeMem) (fill : ℕ → ℕ → Cell) (data : List UInt8) :
    (ownedLoop bits mem fill data data.length .init).Fits data (payloadDecodeWidth bits mem data) :=
  ownedLoop_fits holds_init

/-- **The decoder owns its memory exactly**, whatever the payload, the allocator and the content of new
memory. When it fails, every block it obtained was freed exactly once and the out parameters are as
they were. When it succeeds, the entry after the last value is in the array and is the first one with
the sentinel type, unless the payload is empty and there is no array, and `wirecall_values_free` frees
the rest. It returns if the sums of offsets do not wrap. -/
theorem decode_owns (bits : ℕ) (mem : DecodeMem) (fill : ℕ → ℕ → Cell) (data : List UInt8)
    (out : DecodeOut) :
    (∀ out' ledger, payloadDecodeOwned bits mem fill data out = some (.err, out', ledger) →
      ledger.Settled ∧ out' = out) ∧
    (∀ out' ledger, payloadDecodeOwned bits mem fill data out = some (.ok, out', ledger) →
      ((data = [] ∧ out' = ⟨none, 0⟩) ∨
        ∃ array, out'.values = some array ∧
          array.cells.findIdx? (fun cell => cell = .sentinel) = some out'.count) ∧
      ∃ ledger', valuesFree out'.values ledger = some ledger' ∧ ledger'.Settled) ∧
    (data.length + 2 ^ 33 ≤ 2 ^ bits → (payloadDecodeOwned bits mem fill data out).isSome) := by
  have hfits := ownedLoop_init_fits bits mem fill data
  unfold payloadDecodeOwned
  generalize ownedLoop bits mem fill data data.length .init = last at hfits
  generalize hdecoded : payloadDecodeWidth bits mem data = decoded at hfits
  refine ⟨?_, ?_, ?_⟩
  · intro out' ledger h
    cases hfits with
    | ok => cases h
    | error howns =>
      cases h
      exact ⟨howns.settled, rfl⟩
    | outOfBounds => cases h
    | outOfFuel => cases h
  · intro out' ledger h
    cases hfits with
    | error => cases h
    | outOfBounds => cases h
    | outOfFuel => cases h
    | @ok s entries hholds hend =>
      cases h
      obtain ⟨ledger', hfree, howns⟩ := hholds.valuesFree
      refine ⟨?_, ledger', hfree, howns.settled⟩
      obtain ⟨hoff, hvalues, hcount⟩ | harray := hholds.findIdx?
      · -- the loop has not begun and is over, so there was nothing to read
        rw [hoff, not_lt, Nat.le_zero, List.length_eq_zero_iff] at hend
        exact .inl ⟨hend, by rw [hvalues, hcount]⟩
      · exact .inr harray
  · -- the decoder without its memory ends
    intro hbits
    obtain ⟨hbounds, hfuel⟩ := payloadDecodeWidth_ends mem hbits
    cases hfits with
    | ok => rfl
    | error => rfl
    | outOfBounds => exact absurd hdecoded hbounds
    | outOfFuel => exact absurd hdecoded hfuel

/-- One byte value, and then a byte that is no tag: the copy and the array are freed. -/
theorem decode_owns_malformed :
    payloadDecodeOwned 64 .granting (fun _ _ => .sentinel) [5, 0, 0, 0, 1, 9, 7] ⟨none, 7⟩ =
        some (.err, ⟨none, 7⟩, ⟨2, [1, 0]⟩) ∧
      BlockLedger.Settled ⟨2, [1, 0]⟩ := by
  have hcall : payloadDecodeOwned 64 .granting (fun _ _ => .sentinel) [5, 0, 0, 0, 1, 9, 7]
      ⟨none, 7⟩ = some (.err, ⟨none, 7⟩, ⟨2, [1, 0]⟩) := by decide +kernel
  exact ⟨hcall, ((decode_owns _ _ _ _ _).1 _ _ hcall).1⟩

/-- **An empty payload leaves no array**: it is accepted, `*out_values` is null, and there is no entry
after the values that could have the sentinel type. -/
theorem empty_payload_no_array :
    ∃ out' ledger, payloadDecodeOwned 64 .granting (fun _ _ => .sentinel) [] ⟨none, 7⟩ =
        some (.ok, out', ledger) ∧
      ¬ ∃ array, out'.values = some array ∧
        array.cells.findIdx? (fun cell => cell = .sentinel) = some out'.count := by
  refine ⟨⟨none, 0⟩, .empty, by decide, ?_⟩
  rintro ⟨array, harray, -⟩
  cases harray

end Wirecall

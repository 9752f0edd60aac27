import Mathlib

/-!
# Framing a stream

A format says what the front of a buffer holds: a packet of some length, not enough yet, or
something that no packet starts with. More input never changes a decision, so it does not matter
how the stream was cut before it reached the parser.

## Main definitions

* `Head`, `Format`: what stands at the front of a buffer
* `Parses f buf ps rest`: `buf` is the packets `ps` followed by `rest`
* `Maximal f buf ps rest`: and no packet stands at the front of `rest`

## Main results

* `Parses.append`, `Parses.trans`: parsing in two goes
* `Maximal.unique`: there is one longest sequence of packets
* `Parses.split`: every sequence of packets is an initial part of it
-/

namespace Framing

variable {α P : Type*}

/-- What stands at the front of a buffer. -/
inductive Head (P : Type*) where
  | more
  | bad
  | packet (p : P) (size : ℕ)
  deriving DecidableEq

/-- A format whose decisions are stable under more input. -/
structure Format (α P : Type*) where
  head : List α → Head P
  size_pos : ∀ {buf p n}, head buf = .packet p n → 0 < n
  size_le : ∀ {buf p n}, head buf = .packet p n → n ≤ buf.length
  packet_append : ∀ {buf p n} rest, head buf = .packet p n → head (buf ++ rest) = .packet p n
  bad_append : ∀ {buf} rest, head buf = .bad → head (buf ++ rest) = .bad

variable (f : Format α P)

/-- The buffer is a sequence of packets followed by `rest`. -/
inductive Parses : List α → List P → List α → Prop
  | nil (buf : List α) : Parses buf [] buf
  | cons {buf : List α} {p : P} {n : ℕ} {ps : List P} {rest : List α}
      (hhead : f.head buf = .packet p n) (htail : Parses (buf.drop n) ps rest) :
      Parses buf (p :: ps) rest

/-- No packet stands at the front of the buffer. -/
def Stuck (buf : List α) : Prop := ∀ p n, f.head buf ≠ .packet p n

/-- The buffer is a sequence of packets followed by something that starts with none. -/
def Maximal (buf : List α) (ps : List P) (rest : List α) : Prop :=
  Parses f buf ps rest ∧ Stuck f rest

variable {f} {buf mid rest rest' : List α} {ps qs : List P} {p : P} {n : ℕ}

theorem Parses.single (h : f.head buf = .packet p n) : Parses f buf [p] (buf.drop n) :=
  .cons h (.nil _)

/-- More input stays behind the packets. -/
theorem Parses.append (h : Parses f buf ps rest) (more : List α) :
    Parses f (buf ++ more) ps (rest ++ more) := by
  induction h with
  | nil => exact .nil _
  | cons hhead htail ih =>
    refine .cons (f.packet_append more hhead) ?_
    rwa [List.drop_append_of_le_length (f.size_le hhead)]

theorem Parses.trans (h : Parses f buf ps mid) (h' : Parses f mid qs rest) :
    Parses f buf (ps ++ qs) rest := by
  induction h with
  | nil => exact h'
  | cons hhead htail ih => exact .cons hhead (ih h')

/-- Every sequence of packets at the front is an initial part of the longest one. -/
theorem Parses.split (h : Parses f buf ps mid) (hmax : Maximal f buf qs rest) :
    ∃ more, qs = ps ++ more ∧ Maximal f mid more rest := by
  induction h generalizing qs with
  | nil => exact ⟨qs, rfl, hmax⟩
  | cons hhead htail ih =>
    obtain ⟨hparses, hstuck⟩ := hmax
    cases hparses with
    | nil => exact absurd hhead (hstuck _ _)
    | cons hhead' htail' =>
      rw [hhead] at hhead'
      cases hhead'
      obtain ⟨more, rfl, hmore⟩ := ih ⟨htail', hstuck⟩
      exact ⟨more, rfl, hmore⟩

/-- The longest sequence of packets is unique. -/
theorem Maximal.unique (h : Maximal f buf ps rest) (h' : Maximal f buf qs rest') :
    ps = qs ∧ rest = rest' := by
  obtain ⟨more, rfl, hmore⟩ := h.1.split h'
  obtain ⟨hparses, -⟩ := hmore
  cases hparses with
  | nil => exact ⟨(List.append_nil _).symm, rfl⟩
  | cons hhead => exact absurd hhead (h.2 _ _)

theorem Stuck.of_bad (h : f.head buf = .bad) : Stuck f buf := by
  intro p n hp
  rw [h] at hp
  cases hp

theorem Stuck.of_more (h : f.head buf = .more) : Stuck f buf := by
  intro p n hp
  rw [h] at hp
  cases hp

end Framing

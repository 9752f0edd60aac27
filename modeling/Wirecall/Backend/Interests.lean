import Mathlib.Data.UInt

/-!
# What is watched, and what is ready

`backend.h`: the bits by which a worker says what it wants to hear of on a descriptor, and by which
a backend says what happened. The bits of the three backends are the same; a worker reads them as a
set of interests.

## Main definitions

* `backendRead`, `backendWrite`, `backendWake`: the bits
* `Interest`: a set of interests, or of what is ready

## Main results

* `readyBits_bits`: the bits of a set say the set
-/

namespace Wirecall

/-- `WIRECALL_BACKEND_READ`. -/
def backendRead : UInt32 := 1

/-- `WIRECALL_BACKEND_WRITE`. -/
def backendWrite : UInt32 := 2

/-- `WIRECALL_BACKEND_WAKE`. -/
def backendWake : UInt32 := 4

/-- A set of interests, or the readiness a backend reports: `WIRECALL_BACKEND_READ` and
`WIRECALL_BACKEND_WRITE`. -/
structure Interest where
  read : Bool
  write : Bool
  deriving DecidableEq, Repr

/-- The bits of a set of interests. -/
def Interest.bits (interests : Interest) : UInt32 :=
  (if interests.read then backendRead else 0) ||| (if interests.write then backendWrite else 0)

/-- The readiness that the bits of an event say. -/
def readyBits (events : UInt32) : Interest :=
  ⟨decide (events &&& backendRead ≠ 0), decide (events &&& backendWrite ≠ 0)⟩

theorem readyBits_bits (interests : Interest) : readyBits interests.bits = interests := by
  obtain ⟨read, write⟩ := interests
  cases read <;> cases write <;> decide

end Wirecall

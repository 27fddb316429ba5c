import Tperf.Lib.Bytes
import Tperf.Lib.Outcome

/-!
# Operations that panic

Slices of byte buffers, allocations, and arithmetic with overflow checks.
-/

namespace Tperf.Lib

variable {ε : Type}

/-- `&buf[i..j]`. -/
def subslice (buf : List UInt8) (i j : Nat) : Outcome ε (List UInt8) :=
  if i ≤ j ∧ j ≤ buf.length then .ok ((buf.drop i).take (j - i)) else .panic

/-- `buf[i..j].copy_from_slice(src)`. -/
def copyFromSlice (buf : List UInt8) (i j : Nat) (src : List UInt8) : Outcome ε (List UInt8) :=
  if i ≤ j ∧ j ≤ buf.length ∧ src.length = j - i then .ok (splice buf i src) else .panic

/-- `vec![0u8; n]`, whose capacity is at most `isize::MAX`. -/
def zeroed (n : Nat) : Outcome ε (List UInt8) := if n < 2 ^ 63 then .ok (List.replicate n 0) else .panic

/-- `a - b` on an unsigned type. -/
def checkedSub {α : Type} [LE α] [Sub α] [DecidableLE α] (a b : α) : Outcome ε α :=
  if b ≤ a then .ok (a - b) else .panic

/-- `a + b` on `usize`. -/
def checkedAdd (a b : Nat) : Outcome ε Nat := if a + b < 2 ^ 64 then .ok (a + b) else .panic

theorem subslice_ok {buf : List UInt8} {i j : Nat} (h : i ≤ j) (hj : j ≤ buf.length) :
    subslice buf i j = (.ok ((buf.drop i).take (j - i)) : Outcome ε _) := if_pos ⟨h, hj⟩

theorem subslice_zero {buf : List UInt8} {j : Nat} (hj : j ≤ buf.length) :
    subslice buf 0 j = (.ok (buf.take j) : Outcome ε _) := subslice_ok (Nat.zero_le j) hj

theorem copyFromSlice_ok {buf src : List UInt8} {i j : Nat} (hj : j = i + src.length) (h : j ≤ buf.length) :
    copyFromSlice buf i j src = (.ok (splice buf i src) : Outcome ε _) := by
  rw [copyFromSlice, if_pos]
  omega

theorem zeroed_ok {n : Nat} (h : n < 2 ^ 63) : zeroed n = (.ok (List.replicate n 0) : Outcome ε _) := if_pos h

theorem checkedSub_ok {α : Type} [LE α] [Sub α] [DecidableLE α] {a b : α} (h : b ≤ a) :
    checkedSub a b = (.ok (a - b) : Outcome ε α) := if_pos h

theorem checkedAdd_ok {a b : Nat} (h : a + b < 2 ^ 64) : checkedAdd a b = (.ok (a + b) : Outcome ε Nat) :=
  if_pos h

end Tperf.Lib

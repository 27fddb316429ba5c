import Mathlib.Algebra.Group.Nat.Defs

/-!
# Saturating arithmetic on `u64`
-/

namespace Tperf.Lib

/-- `u64::MAX`. -/
def maxU64 : UInt64 := 0xFFFFFFFFFFFFFFFF

/-- `a.saturating_add(b)`. -/
def satAdd (a b : UInt64) : UInt64 := if a.toNat + b.toNat < 2 ^ 64 then a + b else maxU64

/-- `a.saturating_sub(b)`. -/
def satSub (a b : UInt64) : UInt64 := if b ≤ a then a - b else 0

/-- `a.saturating_mul(b)`. -/
def satMul (a b : UInt64) : UInt64 := if a.toNat * b.toNat < 2 ^ 64 then a * b else maxU64

@[simp] theorem maxU64_toNat : maxU64.toNat = 2 ^ 64 - 1 := rfl

theorem ofNat_inj {a b : Nat} (ha : a < 2 ^ 64) (hb : b < 2 ^ 64) :
    UInt64.ofNat a = UInt64.ofNat b ↔ a = b := by
  rw [← UInt64.toNat_inj, UInt64.toNat_ofNat', UInt64.toNat_ofNat', Nat.mod_eq_of_lt ha,
    Nat.mod_eq_of_lt hb]

theorem satAdd_toNat (a b : UInt64) : (satAdd a b).toNat = min (a.toNat + b.toNat) (2 ^ 64 - 1) := by
  unfold satAdd
  split
  · rw [UInt64.toNat_add]; omega
  · rw [maxU64_toNat]; omega

theorem satSub_toNat (a b : UInt64) : (satSub a b).toNat = a.toNat - b.toNat := by
  unfold satSub
  split
  · rename_i h; exact UInt64.toNat_sub_of_le a b h
  · rename_i h; rw [UInt64.le_iff_toNat_le] at h; simp only [UInt64.toNat_zero]; omega

theorem satMul_toNat (a b : UInt64) : (satMul a b).toNat = min (a.toNat * b.toNat) (2 ^ 64 - 1) := by
  unfold satMul
  split
  · rw [UInt64.toNat_mul]; omega
  · rw [maxU64_toNat]; omega

end Tperf.Lib

import Mathlib.Data.Nat.Factorization.Basic
import Tperf.Lib.Rounding
import Tperf.Lib.Word

/-!
# `f64`

The nonnegative values of an `f64`; a NaN comes out of none of these operations.
-/

namespace Tperf.Lib

inductive F64
  | finite (q : ℚ)
  | infinite
  deriving DecidableEq

namespace F64
open Rounding

/-- The nearest `f64` of a number: 53 significant bits, and multiples of `2 ^ -1074`. -/
def ofRat (q : ℚ) : F64 := if nearest 53 1074 q < 2 ^ 1024 then .finite (nearest 53 1074 q) else .infinite

/-- `a * b` for positive `b`. -/
def mul : F64 → F64 → F64
  | .finite a, .finite b => ofRat (a * b)
  | _, _ => .infinite

def isFinite : F64 → Bool
  | .finite _ => true
  | .infinite => false

/-- `a < b` -/
def lt : F64 → F64 → Bool
  | .finite a, .finite b => a < b
  | .finite _, .infinite => true
  | .infinite, _ => false

/-- `v.round()`: a half is rounded away from zero. -/
def round : F64 → F64
  | .finite q => .finite ⌊q + 1 / 2⌋₊
  | .infinite => .infinite

/-- `v as u64`, which saturates. -/
def toU64 : F64 → UInt64
  | .finite q => if q < 2 ^ 64 then UInt64.ofNat ⌊q⌋₊ else maxU64
  | .infinite => maxU64

/-! ## Natural numbers -/

/-- The number has 53 significant bits. -/
def Fits (n : ℕ) : Prop := ∃ m s : ℕ, m < 2 ^ 53 ∧ n = m * 2 ^ s

theorem Fits.representable {n : ℕ} (h : Fits n) : Representable 53 1074 n := by
  obtain ⟨m, s, hm, rfl⟩ := h
  refine ⟨m, s + 1074, hm, ?_⟩
  push_cast
  rw [pow_add, ← mul_assoc, mul_div_assoc, div_self (by positivity), mul_one]

theorem fits_of_lt {n : ℕ} (h : n < 2 ^ 53) : Fits n := ⟨n, 0, h, by simp⟩

theorem nearest_natCast (n : ℕ) : ∃ r : ℕ, nearest 53 1074 n = r ∧ Fits r := by
  by_cases hsmall : n < 2 ^ 53
  · exact ⟨n, nearest_of_representable (by decide) (fits_of_lt hsmall).representable, fits_of_lt hsmall⟩
  · obtain ⟨m, s, hm, heq⟩ := nearest_representable (p := 53) (l := 1074) (by decide) n
    have hlarge : (2 : ℚ) ^ 53 ≤ nearest 53 1074 n := by
      have hfits : Fits (2 ^ 53) := ⟨1, 53, by decide, by simp⟩
      have hle : ((2 ^ 53 : ℕ) : ℚ) ≤ n := by exact_mod_cast Nat.not_lt.mp hsmall
      have := le_nearest (l := 1074) (by decide) hfits.representable hle
      exact_mod_cast this
    have hexp : 1074 ≤ s := by
      by_contra hlt
      rw [heq, le_div_iff₀ (by positivity)] at hlarge
      have hm : (m : ℚ) < 2 ^ 53 := by exact_mod_cast hm
      have hpow : (2 : ℚ) ^ s ≤ 2 ^ 1074 := pow_le_pow_right₀ (by norm_num) (by omega)
      have : (m : ℚ) * 2 ^ s < 2 ^ 53 * 2 ^ 1074 :=
        mul_lt_mul hm hpow (by positivity) (by positivity)
      linarith
    refine ⟨m * 2 ^ (s - 1074), ?_, m, s - 1074, hm, rfl⟩
    rw [heq, div_eq_iff (by positivity)]
    push_cast
    rw [mul_assoc, ← pow_add, Nat.sub_add_cancel hexp]

theorem Fits.nearest {n : ℕ} (h : Fits n) : nearest 53 1074 n = n :=
  nearest_of_representable (by decide) h.representable

theorem Fits.of_mul {n f : ℕ} (h : Fits (n * f)) (hf : f ≠ 0) : Fits n := by
  by_cases hn : n = 0
  · exact fits_of_lt (by simp [hn])
  · obtain ⟨m, s, hm, heq⟩ := h
    obtain ⟨t, a, ha, rfl⟩ := Nat.exists_eq_two_pow_mul_odd hn
    have hdvd : a ∣ m * 2 ^ s := by
      rw [← heq]
      exact Dvd.dvd.mul_right (Dvd.intro_left _ rfl) f
    have hcop : Nat.Coprime a (2 ^ s) := (Nat.coprime_two_right.mpr ha).pow_right s
    have hm0 : m ≠ 0 := by
      rintro rfl
      rw [Nat.zero_mul] at heq
      exact Nat.mul_ne_zero hn hf heq
    have hle : a ≤ m := Nat.le_of_dvd (Nat.pos_of_ne_zero hm0) (hcop.dvd_of_dvd_mul_right hdvd)
    exact ⟨a, t, Nat.lt_of_le_of_lt hle hm, Nat.mul_comm _ _⟩

/-- The `f64` nearest to a natural number, when it is finite. -/
def rounded (n : ℕ) : ℕ := ⌊nearest 53 1074 n⌋₊

theorem nearest_rounded (n : ℕ) : nearest 53 1074 n = rounded n := by
  obtain ⟨r, hr, -⟩ := nearest_natCast n
  rw [rounded, hr, Nat.floor_natCast]

theorem rounded_fits (n : ℕ) : Fits (rounded n) := by
  obtain ⟨r, hr, hfits⟩ := nearest_natCast n
  rwa [rounded, hr, Nat.floor_natCast]

theorem Fits.rounded {n : ℕ} (h : Fits n) : rounded n = n := by
  rw [F64.rounded, h.nearest, Nat.floor_natCast]

theorem rounded_mono {n k : ℕ} (h : n ≤ k) : rounded n ≤ rounded k :=
  Nat.floor_mono (nearest_mono (by decide) (by exact_mod_cast h))

theorem ofRat_natCast (n : ℕ) :
    ofRat n = if rounded n < 2 ^ 1024 then .finite (rounded n) else .infinite := by
  have hiff : ((rounded n : ℚ) < 2 ^ 1024) ↔ rounded n < 2 ^ 1024 := by exact_mod_cast Iff.rfl
  simp only [ofRat, nearest_rounded, hiff]

theorem round_natCast (n : ℕ) : (finite n).round = finite n := by
  have hfloor : ⌊(n : ℚ) + 1 / 2⌋₊ = n := by
    rw [Nat.floor_eq_iff (by positivity)]
    constructor <;> linarith
  rw [round, hfloor]

end F64

end Tperf.Lib

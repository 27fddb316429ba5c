import Mathlib.Algebra.BigOperators.Ring.Finset
import Mathlib.Data.List.Perm.Basic
import Mathlib.Tactic.Linarith
import Mathlib.Tactic.NormNum
import Mathlib.Tactic.Positivity
import Tperf.Analyze.Basic
import Tperf.Lib.Mediant

/-!
# The statistics of some samples
-/

namespace Tperf.Analyze
open Lib Metrics

def rates (samples : List (UInt64 × UInt64)) : List Rat := samples.map fun p => bps p.1 p.2

def totalBytes (samples : List (UInt64 × UInt64)) : Nat := (samples.map fun p => p.1.toNat).sum

def totalNs (samples : List (UInt64 × UInt64)) : Nat := (samples.map fun p => p.2.toNat).sum

theorem bps_nonneg (b d : UInt64) : 0 ≤ bps b d := by
  unfold bps
  split
  · exact le_refl 0
  · positivity

theorem bps_pos {b d : UInt64} (hb : 0 < b) (hd : 0 < d) : 0 < bps b d := by
  have hb' : (0 : Rat) < b.toNat := by exact_mod_cast hb
  have hd' : (0 : Rat) < d.toNat := by exact_mod_cast hd
  have hne : d ≠ 0 := fun h => by rw [h] at hd; exact absurd hd (by decide)
  rw [bps, if_neg hne]
  positivity

theorem bps_mul {b d : UInt64} (hd : 0 < d) :
    bps b d * (d.toNat : Rat) = (b.toNat : Rat) * 8 * 1000000000 := by
  have hd' : (d.toNat : Rat) ≠ 0 := by
    have : (0 : Rat) < d.toNat := by exact_mod_cast hd
    exact this.ne'
  have hne : d ≠ 0 := fun h => by rw [h] at hd; exact absurd hd (by decide)
  rw [bps, if_neg hne, div_mul_cancel₀ _ hd']

/-! ## The loop -/

theorem Sums.add_eq (a : Sums) (p : UInt64 × UInt64) :
    a.add p = ⟨min a.minBps (bps p.1 p.2 : Rat), max a.maxBps (bps p.1 p.2), satAdd a.bytes p.1,
      satAdd128 a.durationNs p.2.toNat⟩ := by
  have hmin : (if (bps p.1 p.2 : WithTop Rat) < a.minBps then (bps p.1 p.2 : WithTop Rat)
      else a.minBps) = min a.minBps (bps p.1 p.2 : Rat) := by
    rw [min_comm, min_def_lt]
  have hmax : (if bps p.1 p.2 > a.maxBps then bps p.1 p.2 else a.maxBps) =
      max a.maxBps (bps p.1 p.2) := by
    rw [max_def_lt]
  simp only [Sums.add, hmin, hmax]

theorem Sums.foldl_min (a : Sums) (samples : List (UInt64 × UInt64)) :
    (samples.foldl Sums.add a).minBps = ((rates samples).map WithTop.some).foldl min a.minBps := by
  induction samples generalizing a with
  | nil => rfl
  | cons p samples ih => rw [List.foldl_cons, ih, Sums.add_eq]; rfl

theorem Sums.foldl_max (a : Sums) (samples : List (UInt64 × UInt64)) :
    (samples.foldl Sums.add a).maxBps = (rates samples).foldl max a.maxBps := by
  induction samples generalizing a with
  | nil => rfl
  | cons p samples ih => rw [List.foldl_cons, ih, Sums.add_eq]; rfl

theorem Sums.foldl_bytes (a : Sums) (samples : List (UInt64 × UInt64)) :
    (samples.foldl Sums.add a).bytes.toNat = min (a.bytes.toNat + totalBytes samples) (2 ^ 64 - 1) := by
  induction samples generalizing a with
  | nil =>
      have := a.bytes.toNat_lt
      simp only [List.foldl_nil, totalBytes, List.map_nil, List.sum_nil]
      omega
  | cons p samples ih =>
      rw [List.foldl_cons, ih, Sums.add_eq]
      simp only [satAdd_toNat, totalBytes, List.map_cons, List.sum_cons]
      omega

theorem Sums.foldl_duration (a : Sums) (samples : List (UInt64 × UInt64))
    (h : a.durationNs ≤ 2 ^ 128 - 1) :
    (samples.foldl Sums.add a).durationNs = min (a.durationNs + totalNs samples) (2 ^ 128 - 1) := by
  induction samples generalizing a with
  | nil =>
      simp only [List.foldl_nil, totalNs, List.map_nil, List.sum_nil]
      omega
  | cons p samples ih =>
      have hle : (a.add p).durationNs ≤ 2 ^ 128 - 1 := by
        rw [Sums.add_eq]
        exact Nat.min_le_right _ _
      rw [List.foldl_cons, ih _ hle, Sums.add_eq]
      simp only [satAdd128, totalNs, List.map_cons, List.sum_cons]
      omega

instance : RightCommutative Sums.add where
  right_comm a p q := by
    simp only [Sums.add_eq, Sums.mk.injEq]
    refine ⟨min_right_comm _ _ _, max_right_comm _ _ _, ?_, ?_⟩
    · apply UInt64.toNat_inj.mp
      simp only [satAdd_toNat]
      omega
    · simp only [satAdd128]
      omega

/-- The order of the samples does not matter. -/
theorem fromSamples_perm {l l' : List (UInt64 × UInt64)} (h : l.Perm l') :
    fromSamples l = fromSamples l' := by
  have hnil : l.isEmpty = l'.isEmpty := by
    rw [Bool.eq_iff_iff, List.isEmpty_iff, List.isEmpty_iff]
    exact ⟨fun hl => (hl ▸ h).nil_eq.symm, fun hl => (hl ▸ h).eq_nil⟩
  simp only [fromSamples, hnil, h.foldl_eq, h.length_eq]

theorem fromSamples_eq_none {l : List (UInt64 × UInt64)} : fromSamples l = none ↔ l = [] := by
  cases l <;> simp [fromSamples]

theorem fromSamples_ne_nil {l : List (UInt64 × UInt64)} (h : l ≠ []) :
    fromSamples l = some ⟨(l.foldl Sums.add .init).minBps, (l.foldl Sums.add .init).maxBps,
      (l.foldl Sums.add .init).avgBps, l.length⟩ := by
  rw [fromSamples, if_neg (by simpa using h)]

/-! ## The bounds -/

theorem min_attained {l : List (UInt64 × UInt64)} (h : l ≠ []) :
    ∃ p ∈ l, (l.foldl Sums.add .init).minBps = (bps p.1 p.2 : Rat) ∧
      ∀ q ∈ l, bps p.1 p.2 ≤ bps q.1 q.2 := by
  obtain ⟨r, hr, hmin, hle⟩ := foldl_min_top (l := rates l) (by simpa [rates] using h)
  obtain ⟨p, hp, rfl⟩ := List.mem_map.mp hr
  exact ⟨p, hp, (Sums.foldl_min _ l).trans hmin, fun q hq => hle _ (List.mem_map.mpr ⟨q, hq, rfl⟩)⟩

theorem max_attained {l : List (UInt64 × UInt64)} (h : l ≠ []) :
    ∃ p ∈ l, (l.foldl Sums.add .init).maxBps = bps p.1 p.2 ∧ ∀ q ∈ l, bps q.1 q.2 ≤ bps p.1 p.2 := by
  have hle : ∀ q ∈ l, bps q.1 q.2 ≤ (rates l).foldl max 0 := by
    intro q hq
    have hmem : bps q.1 q.2 ∈ rates l := List.mem_map.mpr ⟨q, hq, rfl⟩
    exact le_foldl_max hmem 0
  have hmax := Sums.foldl_max .init l
  rcases foldl_max_mem 0 (rates l) with hz | hm
  · -- all rates are 0
    obtain ⟨p, hp⟩ := List.exists_mem_of_ne_nil l h
    have hzero : bps p.1 p.2 = 0 := le_antisymm (hz ▸ hle p hp) (bps_nonneg _ _)
    refine ⟨p, hp, by rw [hmax, hzero]; exact hz, fun q hq => ?_⟩
    rw [hzero, ← hz]
    exact hle q hq
  · obtain ⟨p, hp, he⟩ := List.mem_map.mp hm
    exact ⟨p, hp, by rw [hmax, he]; rfl, fun q hq => by rw [he]; exact hle q hq⟩

/-! ## The average -/

variable {l : List (UInt64 × UInt64)}

theorem totalNs_pos (h : l ≠ []) (hpos : ∀ p ∈ l, 0 < p.2) : 0 < totalNs l := by
  obtain ⟨p, hp⟩ := List.exists_mem_of_ne_nil l h
  have hlt : 0 < p.2.toNat := hpos p hp
  exact Nat.lt_of_lt_of_le hlt (List.single_le_sum (by simp) _ (List.mem_map.mpr ⟨p, hp, rfl⟩))

/-- The average of the samples, with the saturated duration. -/
theorem avg_eq (h : l ≠ []) (hpos : ∀ p ∈ l, 0 < p.2) (hsum : totalBytes l < 2 ^ 64) :
    (l.foldl Sums.add .init).avgBps =
      (totalBytes l : Rat) * 8 * 1000000000 / ((min (totalNs l) (2 ^ 128 - 1) : Nat) : Rat) := by
  have hb : (l.foldl Sums.add .init).bytes.toNat = totalBytes l := by
    rw [Sums.foldl_bytes]
    simp only [Sums.init, UInt64.toNat_zero]
    omega
  have hd : (l.foldl Sums.add .init).durationNs = min (totalNs l) (2 ^ 128 - 1) := by
    rw [Sums.foldl_duration _ _ (by decide)]
    simp [Sums.init]
  have hne : min (totalNs l) (2 ^ 128 - 1) ≠ 0 := by
    have := totalNs_pos h hpos
    omega
  rw [Sums.avgBps, hd, if_neg hne, hb]

theorem totalBytes_cast (l : List (UInt64 × UInt64)) :
    (totalBytes l : Rat) * 8 * 1000000000 = (l.map fun p => (p.1.toNat : Rat) * 8 * 1000000000).sum := by
  rw [totalBytes, Nat.cast_list_sum, List.map_map, List.sum_map_mul_right, List.sum_map_mul_right]
  rfl

theorem totalNs_cast (l : List (UInt64 × UInt64)) :
    (totalNs l : Rat) = (l.map fun p => (p.2.toNat : Rat)).sum := by
  rw [totalNs, Nat.cast_list_sum, List.map_map]
  rfl

theorem mul_totalNs_le {m : Rat} (hpos : ∀ p ∈ l, 0 < p.2) (hm : ∀ p ∈ l, m ≤ bps p.1 p.2) :
    m * (totalNs l : Rat) ≤ (totalBytes l : Rat) * 8 * 1000000000 := by
  rw [totalBytes_cast, totalNs_cast]
  refine mul_sum_le fun p hp => ?_
  rw [← bps_mul (hpos p hp)]
  exact mul_le_mul_of_nonneg_right (hm p hp) (by positivity)

theorem le_mul_totalNs {m : Rat} (hpos : ∀ p ∈ l, 0 < p.2) (hm : ∀ p ∈ l, bps p.1 p.2 ≤ m) :
    (totalBytes l : Rat) * 8 * 1000000000 ≤ m * (totalNs l : Rat) := by
  rw [totalBytes_cast, totalNs_cast]
  refine sum_le_mul fun p hp => ?_
  rw [← bps_mul (hpos p hp)]
  exact mul_le_mul_of_nonneg_right (hm p hp) (by positivity)

/-- A bound of the rates, when something was sent, is above the rate of one byte in `u64::MAX` ns. -/
theorem le_mul_maxNs {m : Rat} (hpos : ∀ p ∈ l, 0 < p.2) (hm : ∀ p ∈ l, bps p.1 p.2 ≤ m)
    (hb : 0 < totalBytes l) : 8 * 1000000000 ≤ m * (2 ^ 64 - 1) := by
  obtain ⟨b, hbl, hb⟩ : ∃ b ∈ l.map fun p => p.1.toNat, 0 < b := by
    by_contra hno
    have hzero : ∀ b ∈ l.map fun p => p.1.toNat, b = 0 := fun b hb =>
      Nat.eq_zero_of_not_pos fun h => hno ⟨b, hb, h⟩
    rw [totalBytes, List.sum_eq_zero hzero] at hb
    exact absurd hb (Nat.lt_irrefl 0)
  obtain ⟨p, hp, rfl⟩ := List.mem_map.mp hbl
  have hone : (1 : Rat) ≤ p.1.toNat := by exact_mod_cast hb
  have hle : (p.2.toNat : Rat) ≤ 2 ^ 64 - 1 := by
    have := p.2.toNat_lt
    have hle : p.2.toNat ≤ 2 ^ 64 - 1 := by omega
    calc (p.2.toNat : Rat) ≤ ((2 ^ 64 - 1 : Nat) : Rat) := by exact_mod_cast hle
      _ = 2 ^ 64 - 1 := by norm_num
  calc (8 * 1000000000 : Rat) ≤ (p.1.toNat : Rat) * 8 * 1000000000 := by linarith
    _ = bps p.1 p.2 * p.2.toNat := (bps_mul (hpos p hp)).symm
    _ ≤ m * (2 ^ 64 - 1) := mul_le_mul (hm p hp) hle (by positivity)
        ((bps_nonneg p.1 p.2).trans (hm p hp))

/-- The average lies between any bounds of the rates. -/
theorem avg_mem {a b : Rat} (h : l ≠ []) (hpos : ∀ p ∈ l, 0 < p.2) (hsum : totalBytes l < 2 ^ 64)
    (h₀ : 0 ≤ a) (ha : ∀ p ∈ l, a ≤ bps p.1 p.2) (hb : ∀ p ∈ l, bps p.1 p.2 ≤ b) :
    a ≤ (l.foldl Sums.add .init).avgBps ∧ (l.foldl Sums.add .init).avgBps ≤ b := by
  have hns := totalNs_pos h hpos
  have hmin : (0 : Rat) < ((min (totalNs l) (2 ^ 128 - 1) : Nat) : Rat) := by
    have : 0 < min (totalNs l) (2 ^ 128 - 1) := by omega
    exact_mod_cast this
  rw [avg_eq h hpos hsum]
  constructor
  · rw [le_div_iff₀ hmin]
    refine le_trans (mul_le_mul_of_nonneg_left ?_ h₀) (mul_totalNs_le hpos ha)
    exact_mod_cast Nat.min_le_left _ _
  · rw [div_le_iff₀ hmin]
    rcases Nat.le_total (totalNs l) (2 ^ 128 - 1) with hle | hle
    · rw [Nat.min_eq_left hle]
      exact le_mul_totalNs hpos hb
    · -- the sum of the durations is saturated
      rw [Nat.min_eq_right hle]
      have hb₀ : 0 ≤ b := by
        obtain ⟨p, hp⟩ := List.exists_mem_of_ne_nil l h
        exact (bps_nonneg p.1 p.2).trans (hb p hp)
      rcases Nat.eq_zero_or_pos (totalBytes l) with hz | hz
      · rw [hz, Nat.cast_zero, zero_mul, zero_mul]
        positivity
      · have hbytes : (totalBytes l : Rat) ≤ 2 ^ 64 + 1 := by
          have : totalBytes l ≤ 2 ^ 64 + 1 := by omega
          exact_mod_cast this
        calc (totalBytes l : Rat) * 8 * 1000000000 ≤ (8 * 1000000000) * (2 ^ 64 + 1) := by linarith
          _ ≤ (b * (2 ^ 64 - 1)) * (2 ^ 64 + 1) :=
            mul_le_mul_of_nonneg_right (le_mul_maxNs hpos hb hz) (by positivity)
          _ = b * ((2 ^ 128 - 1 : Nat) : Rat) := by norm_num [mul_assoc]

end Tperf.Analyze

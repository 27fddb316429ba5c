import Tperf.Analyze.Theorems.Inserted

/-!
# The order of the reported rates
-/

namespace Tperf.Analyze
open Lib Proto Metrics Db

/-- `min <= avg <= max`. -/
def RateStats.Ordered (st : RateStats) : Prop := st.minBps ≤ (st.avgBps : WithTop Rat) ∧ st.avgBps ≤ st.maxBps

/-- All samples have the same rate. -/
def SameRate (samples : List (UInt64 × UInt64)) : Prop :=
  ∀ p ∈ samples, ∀ q ∈ samples, bps p.1 p.2 = bps q.1 q.2

variable {l : List (UInt64 × UInt64)}

/-- The statistics of samples with a duration whose bytes do not overflow. -/
theorem fromSamples_ordered (h : l ≠ []) (hpos : ∀ p ∈ l, 0 < p.2) (hsum : totalBytes l < 2 ^ 64) :
    ∃ st, fromSamples l = some st ∧ st.Ordered ∧
      (∃ p ∈ l, st.minBps = (bps p.1 p.2 : Rat)) ∧ (∃ p ∈ l, st.maxBps = bps p.1 p.2) ∧
      (st.minBps = (st.avgBps : WithTop Rat) ∧ st.avgBps = st.maxBps ↔ SameRate l) := by
  obtain ⟨p, hp, hmin, hle⟩ := min_attained h
  obtain ⟨q, hq, hmax, hge⟩ := max_attained h
  obtain ⟨hlo, hhi⟩ := avg_mem h hpos hsum (bps_nonneg p.1 p.2) hle hge
  refine ⟨_, fromSamples_ne_nil h, ⟨?_, ?_⟩, ⟨p, hp, hmin⟩, ⟨q, hq, hmax⟩, ?_⟩
  · rw [hmin]
    exact WithTop.coe_le_coe.mpr hlo
  · rw [hmax]
    exact hhi
  · rw [hmin, hmax, WithTop.coe_inj]
    constructor
    · rintro ⟨h₁, h₂⟩ x hx y hy
      have hpq : bps p.1 p.2 = bps q.1 q.2 := h₁.trans h₂
      exact (le_antisymm (hpq ▸ hge x hx) (hle x hx)).trans (le_antisymm (hpq ▸ hge y hy) (hle y hy)).symm
    · intro hsame
      have hpq := hsame p hp q hq
      exact ⟨le_antisymm hlo (hpq ▸ hhi), le_antisymm hhi (hpq ▸ hlo)⟩

/-- The overall statistics, whatever rates are stored. -/
theorem overall_ordered {ds : List Entry} (hne : windowSamples ds ≠ []) (total : RateStats) :
    ((Acc.of ds).overall total).Ordered := by
  have hvalues := bucketBps_ne_nil hne
  obtain ⟨r, hr, hmin, hle⟩ := foldl_min_top hvalues
  have hge : ∀ x ∈ (Acc.of ds).bucketBps.toList.map Prod.snd,
      x ≤ ((Acc.of ds).bucketBps.toList.map Prod.snd).foldl max 0 := fun x hx => le_foldl_max hx 0
  obtain ⟨hlo, hhi⟩ := mean_mem hvalues hle hge
  rw [Acc.overall, if_neg (by simpa using hvalues)]
  refine ⟨?_, hhi⟩
  rw [hmin]
  exact WithTop.coe_le_coe.mpr hlo

end Tperf.Analyze

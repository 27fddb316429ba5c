import Tperf.Analyze.Lemmas.Load

/-!
# The pairs and the buckets of a report
-/

namespace Tperf.Analyze
open Lib Proto Metrics Db

/-- The samples of a pair. -/
def samplesOf (ds : List Entry) (k : Str × Str) : List (UInt64 × UInt64) :=
  valuesAt k (ds.flatMap Entry.samples)

/-- The samples of each pair, as statistics. -/
def rateMap (ds : List Entry) : Std.ExtTreeMap (Str × Str) RateStats pairOrder :=
  (Acc.of ds).pairSamples.filterMap fun _ l => fromSamples l

theorem rateMap_get (ds : List Entry) (k : Str × Str) : (rateMap ds)[k]? = fromSamples (samplesOf ds k) := by
  rw [rateMap, Std.ExtTreeMap.getElem?_filterMap', Acc.of, gather_push_get]
  split
  · rename_i h
    rw [samplesOf, h]
    rfl
  · rfl

theorem pairs_of (ds : List Entry) :
    (Acc.of ds).pairs = (rateMap ds).toList.map fun p => ⟨p.1.1, p.1.2, p.2⟩ := by
  rw [Acc.pairs, rateMap, Std.ExtTreeMap.toList_filterMap, List.map_filterMap]
  refine List.filterMap_congr fun p _ => ?_
  rw [Option.map_map]
  rfl

theorem mem_pairs {ds : List Entry} {st : PairStats} :
    st ∈ (Acc.of ds).pairs ↔ fromSamples (samplesOf ds (st.src, st.dst)) = some st.stats := by
  rw [pairs_of, List.mem_map, ← rateMap_get, ← Std.ExtTreeMap.mem_toList_iff_getElem?_eq_some]
  constructor
  · rintro ⟨p, hp, rfl⟩
    exact hp
  · intro hp
    exact ⟨_, hp, rfl⟩

def PairStats.Lt (a b : PairStats) : Prop := pairOrder (a.src, a.dst) (b.src, b.dst) = .lt

theorem pairs_sorted (ds : List Entry) : (Acc.of ds).pairs.Pairwise PairStats.Lt := by
  rw [pairs_of, List.pairwise_map]
  exact Std.ExtTreeMap.ordered_keys_toList

theorem mem_samplesOf {ds : List Entry} {s p : Str} {x : UInt64 × UInt64} :
    x ∈ samplesOf ds (s, p) ↔ s ≠ p ∧ ∃ d ∈ ds, d.1.server = s ∧ d.1.durationNs ≥ minWindowNs ∧
      ∃ e ∈ d.2, e.peer = p ∧ e.bytesSent > 0 ∧ x = (e.bytesSent, d.1.durationNs) := by
  simp only [samplesOf, mem_valuesAt, List.mem_flatMap, Entry.samples, List.mem_filterMap, RawRow.sample,
    Option.ite_none_right_eq_some, Option.some.injEq, Prod.mk.injEq]
  constructor
  · rintro ⟨d, hd, e, he, ⟨hne, hb, hw⟩, ⟨hs, hp⟩, hx⟩
    exact ⟨fun h => hne (by rw [hp, hs, h]), d, hd, hs, hw, e, he, hp, hb, hx.symm⟩
  · rintro ⟨hne, d, hd, rfl, hw, e, he, rfl, hb, rfl⟩
    exact ⟨d, hd, e, he, ⟨hne.symm, hb, hw⟩, ⟨rfl, rfl⟩, rfl⟩

/-- A sample of a report has sent something for some time. -/
theorem samplesOf_pos {ds : List Entry} {k : Str × Str} {x : UInt64 × UInt64} (h : x ∈ samplesOf ds k) :
    0 < x.1 ∧ 0 < x.2 := by
  obtain ⟨-, d, -, -, hw, e, -, -, hb, rfl⟩ := mem_samplesOf.mp h
  have hmin : (0 : UInt64) < minWindowNs := by decide
  exact ⟨hb, UInt64.lt_of_lt_of_le hmin hw⟩

/-! ## The order of the rows -/

variable {ds ds' : List Entry}

theorem samplesOf_perm (h : ds.Perm ds') (k : Str × Str) : (samplesOf ds k).Perm (samplesOf ds' k) :=
  valuesAt_perm (h.flatMap_right _)

theorem pairs_perm (h : ds.Perm ds') : (Acc.of ds).pairs = (Acc.of ds').pairs := by
  have hmap : rateMap ds = rateMap ds' := Std.ExtTreeMap.ext_getElem? fun k => by
    rw [rateMap_get, rateMap_get, fromSamples_perm (samplesOf_perm h k)]
  rw [pairs_of, pairs_of, hmap]

theorem bucketRates_perm (h : ds.Perm ds') : (bucketRates ds).Perm (bucketRates ds') :=
  (h.filter _).map _

theorem windowSamples_perm (h : ds.Perm ds') : (windowSamples ds).Perm (windowSamples ds') :=
  (h.filter _).map _

/-- The rates that are added up in a bucket. -/
def ratesIn (ds : List Entry) (bucket : Nat) : List Rat := valuesAt bucket (bucketRates ds)

theorem bucketBps_get (ds : List Entry) (bucket : Nat) :
    (Acc.of ds).bucketBps[bucket]? =
      if ratesIn ds bucket = [] then none else some (ratesIn ds bucket).sum :=
  gather_plus_get (bucketRates ds) bucket

theorem bucketBps_perm (h : ds.Perm ds') : (Acc.of ds).bucketBps = (Acc.of ds').bucketBps := by
  refine Std.ExtTreeMap.ext_getElem? fun k => ?_
  have hperm : (ratesIn ds k).Perm (ratesIn ds' k) := valuesAt_perm (bucketRates_perm h)
  rw [bucketBps_get, bucketBps_get, hperm.sum_eq]
  by_cases hnil : ratesIn ds k = []
  · rw [if_pos hnil, if_pos (hnil ▸ hperm).nil_eq.symm]
  · rw [if_neg hnil, if_neg fun h' => hnil (h' ▸ hperm).eq_nil]

/-- The report does not depend on the order of the rows. -/
theorem result_perm (h : ds.Perm ds') (hostsFromStr : Str → Option (List Str)) (file : DbFile)
    (config : Str × Str) : result hostsFromStr file config ds = result hostsFromStr file config ds' := by
  simp only [result, fromSamples_perm (windowSamples_perm h), report, pairs_perm h, Acc.overall,
    bucketBps_perm h]

/-! ## The buckets -/

/-- A report has at least one bucket. -/
theorem bucketBps_ne_nil {ds : List Entry} (h : windowSamples ds ≠ []) :
    (Acc.of ds).bucketBps.toList.map Prod.snd ≠ [] := by
  obtain ⟨d, hd⟩ : ∃ d, d ∈ ds.filter fun d => d.1.counts :=
    List.exists_mem_of_ne_nil _ fun hnil => h (by rw [windowSamples, hnil]; rfl)
  have hmem : d.1.sendBps ∈ ratesIn ds d.1.bucket :=
    mem_valuesAt.mpr (List.mem_map.mpr ⟨d, hd, rfl⟩)
  have hget := bucketBps_get ds d.1.bucket
  rw [if_neg (List.ne_nil_of_mem hmem), ← Std.ExtTreeMap.mem_toList_iff_getElem?_eq_some] at hget
  exact List.ne_nil_of_mem (List.mem_map_of_mem hget)

end Tperf.Analyze

import Mathlib.Algebra.Order.BigOperators.Group.List
import Tperf.Analyze.Lemmas.Inserted
import Tperf.Analyze.Theorems.Inserted
import Tperf.Lib.Abutting

/-!
# The seconds of the total
-/

namespace Tperf.Analyze
open Lib Proto Metrics Db

def second : Nat := 1000000000

def start (w : MetricWindow) : Nat := w.wallStartNs.toNat

def stop (w : MetricWindow) : Nat := w.wallEndNs.toNat

def servers (ws : List MetricWindow) : List Str := (ws.map fun w => w.server).dedup

def ofServer (ws : List MetricWindow) (s : Str) : List MetricWindow := ws.filter fun w => w.server = s

/-- The windows that start in second `B`. -/
def startingIn (ws : List MetricWindow) (B : Nat) : List MetricWindow :=
  ws.filter fun w => start w / second = B

/-- A table in which the windows of each server abut and last about a second. -/
structure Steady (ws : List MetricWindow) : Prop where
  abut : ∀ s ∈ servers ws, ∃ c : List MetricWindow, c.Perm (ofServer ws s) ∧
    c.IsChain fun v w => start w = stop v
  duration : ∀ w ∈ ws, stop w = start w + w.durationNs.toNat
  about : ∀ w ∈ ws, 999000000 ≤ w.durationNs.toNat ∧ w.durationNs.toNat ≤ 1001000000
  sent : ∀ w ∈ ws, w.bytesSent > 0

/-- Every server has windows well before and well after second `B`. -/
def Covered (ws : List MetricWindow) (B : Nat) : Prop :=
  ∀ s ∈ servers ws, (∃ w ∈ ofServer ws s, start w / second + 2 ≤ B) ∧
    ∃ w ∈ ofServer ws s, B + 2 ≤ start w / second

/-- The rates that make up `total` in second `B` are those of one window of every server. -/
def SumsOnce (ws : List MetricWindow) (B : Nat) (total : Rat) : Prop :=
  ∃ pick : Str → MetricWindow, (∀ s ∈ servers ws, pick s ∈ ws ∧ (pick s).server = s) ∧
    (startingIn ws B).Perm ((servers ws).map pick) ∧
    total = ((servers ws).map fun s => (pick s).sendBps).sum

/-- The first window of `s` that starts in second `B` or later starts in it and lasts to its end. -/
def Spans (ws : List MetricWindow) (B : Nat) (s : Str) : Prop :=
  ∀ w, FirstFrom start (B * second) (ofServer ws s) w →
    start w < (B + 1) * second ∧ (B + 1) * second ≤ stop w

variable {J : PeersJson} {ws : List MetricWindow} {B : Nat}

/-! ## What is added up -/

theorem Steady.counts (h : Steady ws) {w : MetricWindow} (hw : w ∈ ws) : Counts w := by
  refine ⟨UInt64.le_iff_toNat_le.mpr ?_, h.sent w hw⟩
  have hmin : minWindowNs.toNat = 50000000 := rfl
  have := (h.about w hw).1
  omega

theorem Steady.start_lt (h : Steady ws) {w : MetricWindow} (hw : w ∈ ws) : start w < stop w := by
  have := (h.about w hw).1
  have := h.duration w hw
  omega

theorem Steady.ratesIn_eq (h : Steady ws) (B : Nat) :
    ratesIn (ws.map (entry J)) B = (startingIn ws B).map fun w => w.sendBps := by
  have hall : (ws.map (entry J)).filter (fun d => d.1.counts) = ws.map (entry J) := by
    refine List.filter_eq_self.mpr fun d hd => ?_
    obtain ⟨w, hw, rfl⟩ := List.mem_map.mp hd
    exact counts_entry.mpr (h.counts hw)
  rw [ratesIn, valuesAt, bucketRates, hall, startingIn, List.map_map, List.filterMap_map,
    ← List.filterMap_eq_filter, List.map_filterMap]
  refine List.filterMap_congr fun w _ => ?_
  by_cases hb : start w / second = B
  · have hb' : w.wallStartNs.toNat / 1000000000 = B := hb
    simp [entry, RawRow.bucket, hb, hb', Option.guard]
  · have hb' : ¬ w.wallStartNs.toNat / 1000000000 = B := hb
    simp [entry, RawRow.bucket, hb, hb', Option.guard]

theorem bucket_getD (ds : List Entry) (B : Nat) :
    (Acc.of ds).bucketBps[B]?.getD 0 = (ratesIn ds B).sum := by
  rw [bucketBps_get]
  split
  · rename_i h
    rw [h]; rfl
  · rfl

/-! ## One window of every server -/

theorem mem_servers {s : Str} : s ∈ servers ws ↔ ∃ w ∈ ws, w.server = s := by
  simp [servers]

/-- The picks are possible exactly when each server has one window in the second. -/
theorem sumsOnce_iff {total : Rat} (htotal : total = ((startingIn ws B).map fun w => w.sendBps).sum) :
    SumsOnce ws B total ↔
      ∀ s ∈ servers ws, ((startingIn ws B).filter fun w => w.server = s).length = 1 := by
  constructor
  · rintro ⟨pick, hpick, hperm, -⟩ s hs
    rw [(hperm.filter _).length_eq, List.filter_map, List.length_map, ← List.countP_eq_length_filter]
    have hcount : (servers ws).countP ((fun w => decide (w.server = s)) ∘ pick) = (servers ws).count s := by
      refine List.countP_congr fun s' hs' => ?_
      simp [(hpick s' hs').2]
    rw [hcount]
    exact List.count_eq_one_of_mem (List.nodup_dedup _) hs
  · intro hone
    have hpick : ∀ s, ∃ w, s ∈ servers ws →
        ((startingIn ws B).filter fun w => w.server = s) = [w] := by
      intro s
      by_cases hs : s ∈ servers ws
      · obtain ⟨w, hw⟩ := List.length_eq_one_iff.mp (hone s hs)
        exact ⟨w, fun _ => hw⟩
      · obtain ⟨w⟩ : Nonempty MetricWindow := ⟨sampleWindow⟩
        exact ⟨w, fun h => absurd h hs⟩
    obtain ⟨pick, hpick⟩ := Classical.axiomOfChoice hpick
    have hmem : ∀ s ∈ servers ws, pick s ∈ (startingIn ws B).filter fun w => w.server = s := by
      intro s hs
      rw [hpick s hs]
      exact List.mem_singleton_self _
    have hserver : ∀ w ∈ startingIn ws B, w.server ∈ servers ws := fun w hw =>
      mem_servers.mpr ⟨w, (List.mem_filter.mp hw).1, rfl⟩
    have hperm : (startingIn ws B).Perm ((servers ws).map pick) := by
      have hparts : (startingIn ws B).Perm
          ((servers ws).flatMap fun s => (startingIn ws B).filter fun w => w.server = s) :=
        perm_flatMap_filter MetricWindow.server (List.nodup_dedup (ws.map fun w => w.server)) hserver
      rw [List.map_eq_flatMap]
      rwa [List.flatMap_congr hpick] at hparts
    refine ⟨pick, fun s hs => ?_, hperm, ?_⟩
    · obtain ⟨hw, hserver⟩ := List.mem_filter.mp (hmem s hs)
      exact ⟨(List.mem_filter.mp hw).1, by simpa using hserver⟩
    · rw [htotal, (hperm.map _).sum_eq, List.map_map]
      rfl

theorem second_pos : 0 < second := by decide

/-- A server has one window in the second exactly when its first window from there on spans it. -/
theorem one_iff_spans (h : Steady ws) (hB : Covered ws B) {s : Str} (hs : s ∈ servers ws) :
    ((startingIn ws B).filter fun w => w.server = s).length = 1 ↔ Spans ws B s := by
  obtain ⟨c, hperm, hchain⟩ := h.abut s hs
  have hmem : ∀ w, w ∈ c ↔ w ∈ ofServer ws s := fun w => hperm.mem_iff
  have hlen : ∀ w ∈ c, start w < stop w := fun w hw =>
    h.start_lt (List.mem_filter.mp ((hmem w).mp hw)).1
  have hafter : ∃ w ∈ c, (B + 1) * second ≤ start w := by
    obtain ⟨w, hw, hlate⟩ := (hB s hs).2
    have hle := (Nat.le_div_iff_mul_le second_pos).mp hlate
    exact ⟨w, (hmem w).mpr hw, Nat.le_trans (Nat.mul_le_mul_right second (Nat.le_succ (B + 1))) hle⟩
  have hfilter : (startingIn ws B).filter (fun w => w.server = s) =
      (ofServer ws s).filter fun w => B * second ≤ start w ∧ start w < (B + 1) * second := by
    rw [startingIn, ofServer, List.filter_filter, List.filter_filter]
    refine List.filter_congr fun w _ => ?_
    have hdiv : start w / second = B ↔ B * second ≤ start w ∧ start w < (B + 1) * second := by
      rw [Nat.div_eq_iff second_pos]
      simp only [second]
      omega
    rw [decide_eq_decide.mpr hdiv, Bool.and_comm]
  rw [hfilter, ← (hperm.filter _).length_eq,
    length_between hchain hlen (Nat.mul_lt_mul_of_pos_right (Nat.lt_succ_self B) second_pos) hafter]
  simp only [Spans, FirstFrom, hmem]

/-- The total that `load` computes for second `B` takes one window of every server exactly when for each
server the first window that starts in `B` or later spans the rest of `B`. It is then at most the sum of
any bounds of the rates of the servers. -/
theorem bucket_once {tag : Str} {rows : List Row} (hjson : ReadsPeers J ws)
    (hsel : Select (ws.map (insertMetric J tag)) rows) (hws : Steady ws) (hB : Covered ws B) :
    ∃ acc, rows.foldlM (Acc.row J) .init = .ok acc ∧
      (SumsOnce ws B (acc.bucketBps[B]?.getD 0) ↔ ∀ s ∈ servers ws, Spans ws B s) ∧
      ((∀ s ∈ servers ws, Spans ws B s) → ∀ M : Str → Rat, (∀ w ∈ ws, w.sendBps ≤ M w.server) →
        acc.bucketBps[B]?.getD 0 ≤ ((servers ws).map M).sum) := by
  obtain ⟨vs, hperm, hd⟩ := decode_select hjson hsel
  have htotal : (Acc.of (vs.map (entry J))).bucketBps[B]?.getD 0 =
      ((startingIn ws B).map fun w => w.sendBps).sum := by
    rw [bucketBps_perm (hperm.map (entry J)), bucket_getD, hws.ratesIn_eq]
  have hiff : SumsOnce ws B ((Acc.of (vs.map (entry J))).bucketBps[B]?.getD 0) ↔
      ∀ s ∈ servers ws, Spans ws B s := by
    rw [sumsOnce_iff htotal]
    exact forall₂_congr fun s hs => one_iff_spans hws hB hs
  refine ⟨_, @foldlM_of J rows _ [] hd, hiff, fun hspans M hM => ?_⟩
  obtain ⟨pick, hpick, -, hsum⟩ := hiff.mpr hspans
  rw [List.nil_append, hsum]
  refine List.sum_le_sum fun s hs => ?_
  obtain ⟨hw, hserver⟩ := hpick s hs
  have := hM (pick s) hw
  rwa [hserver] at this

/-! ## Instances -/

/-- The windows of one server, each of `d` nanoseconds, from `first` on. -/
def abutting (first d : UInt64) (n : Nat) : List MetricWindow :=
  (List.range n).map fun i =>
    { sampleWindow with
      wallStartNs := first + UInt64.ofNat i * d
      wallEndNs := first + UInt64.ofNat (i + 1) * d
      durationNs := d
      bytesSent := 1000
      sendBps := 8000 }

theorem abutting_steady {first d : UInt64} {n : Nat}
    (habut : (abutting first d n).IsChain fun v w => start w = stop v)
    (hservers : servers (abutting first d n) = ["a".toList])
    (hws : ∀ w ∈ abutting first d n, stop w = start w + w.durationNs.toNat ∧
      999000000 ≤ w.durationNs.toNat ∧ w.durationNs.toNat ≤ 1001000000 ∧ w.bytesSent > 0) :
    Steady (abutting first d n) where
  abut s hs := by
    rw [hservers] at hs
    obtain rfl := List.mem_singleton.mp hs
    refine ⟨abutting first d n, ?_, habut⟩
    rw [ofServer, List.filter_eq_self.mpr]
    intro w hw
    obtain ⟨i, -, rfl⟩ := List.mem_map.mp hw
    rfl
  duration w hw := (hws w hw).1
  about w hw := ⟨(hws w hw).2.1, (hws w hw).2.2.1⟩
  sent w hw := (hws w hw).2.2.2

/-- Seconds of exact length, of two servers that are not in step. -/
def twoServers : List MetricWindow :=
  (List.zip (abutting 500000000 1000000000 6) (abutting 700000000 1000000000 6)).flatMap fun p =>
    [p.1, { p.2 with server := "b".toList, bytesSent := 1500, sendBps := 12000 }]

theorem twoServers_steady : Steady twoServers where
  abut s hs := ⟨ofServer twoServers s, .refl _, by revert s; decide +kernel⟩
  duration := by decide +kernel
  about := by decide +kernel
  sent := by decide +kernel

theorem twoServers_spans : ∀ s ∈ servers twoServers, Spans twoServers 3 s := by
  have h : ∀ s ∈ servers twoServers, ∀ w ∈ ofServer twoServers s, 3 * second ≤ start w →
      (∀ v ∈ ofServer twoServers s, 3 * second ≤ start v → start w ≤ start v) →
      start w < 4 * second ∧ 4 * second ≤ stop w := by decide +kernel
  rintro s hs w ⟨hw, hlo, hfirst⟩
  exact h s hs w hw hlo hfirst

theorem bucket_once_exact :
    ∃ acc, (twoServers.map (insertMetric samplePeers [])).foldlM (Acc.row samplePeers) .init = .ok acc ∧
      SumsOnce twoServers 3 (acc.bucketBps[3]?.getD 0) ∧ acc.bucketBps[3]?.getD 0 ≤ 20000 := by
  have hsel : Select (twoServers.map (insertMetric samplePeers [])) (twoServers.map (insertMetric samplePeers [])) :=
    ⟨List.Perm.refl _, by decide +kernel⟩
  have hcovered : Covered twoServers 3 := by
    unfold Covered
    decide +kernel
  have hjson : ReadsPeers samplePeers twoServers := by
    unfold ReadsPeers
    decide +kernel
  let rate (s : Str) : Rat := if s = "a".toList then 8000 else 12000
  have hrate : ∀ w ∈ twoServers, w.sendBps ≤ rate w.server := by decide +kernel
  have hsum : ((servers twoServers).map rate).sum = 20000 := by decide +kernel
  obtain ⟨acc, hacc, hiff, hbound⟩ := bucket_once hjson hsel twoServers_steady hcovered
  exact ⟨acc, hacc, hiff.mpr twoServers_spans, (hbound twoServers_spans rate hrate).trans_eq hsum⟩

/-- Windows of 0.999 s, two of which start in second 3: its total is that of no single window, and the
reported maximum is twice the rate of every window. -/
theorem bucket_twice :
    Steady (abutting 1002000000 999000000 6) ∧ Covered (abutting 1002000000 999000000 6) 3 ∧
      Select ((abutting 1002000000 999000000 6).map (insertMetric samplePeers []))
        ((abutting 1002000000 999000000 6).map (insertMetric samplePeers [])) ∧
      (∃ acc, ((abutting 1002000000 999000000 6).map (insertMetric samplePeers [])).foldlM
          (Acc.row samplePeers) .init = .ok acc ∧
        ¬ ∃ pick : Str → MetricWindow,
          (∀ s ∈ servers (abutting 1002000000 999000000 6),
            pick s ∈ abutting 1002000000 999000000 6 ∧ (pick s).server = s) ∧
          acc.bucketBps[3]?.getD 0 =
            ((servers (abutting 1002000000 999000000 6)).map fun s => (pick s).sendBps).sum) ∧
      ∃ r, load samplePeers (fun _ => none) ⟨"t.db".toList, none, some ("t".toList, "[]".toList)⟩
          ((abutting 1002000000 999000000 6).map (insertMetric samplePeers [])) = .ok r ∧
        r.total.maxBps = 16000 := by
  have hservers : servers (abutting 1002000000 999000000 6) = ["a".toList] := by decide +kernel
  refine ⟨abutting_steady (by decide +kernel) hservers (by decide +kernel), ?_,
    ⟨List.Perm.refl _, by decide +kernel⟩, ?_, ?_⟩
  · unfold Covered
    decide +kernel
  · have h : (((abutting 1002000000 999000000 6).map (insertMetric samplePeers [])).foldlM
        (Acc.row samplePeers) .init).toOption.map (fun acc => acc.bucketBps[3]?) = some (some 16000) := by
      decide +kernel
    obtain ⟨acc, hacc, h⟩ := Option.map_eq_some_iff.mp h
    refine ⟨acc, ok_of_toOption hacc, ?_⟩
    rintro ⟨pick, hpick, hsum⟩
    have hrate : ∀ w ∈ abutting 1002000000 999000000 6, w.sendBps = 8000 := by decide +kernel
    rw [hservers] at hpick hsum
    have ha := hrate _ (hpick "a".toList List.mem_cons_self).1
    rw [h, List.map_cons, List.map_nil, List.sum_cons, List.sum_nil, ha] at hsum
    exact absurd hsum (by decide +kernel)
  · have h : (load samplePeers (fun _ => none) ⟨"t.db".toList, none, some ("t".toList, "[]".toList)⟩
        ((abutting 1002000000 999000000 6).map (insertMetric samplePeers []))).toOption.map
        (fun r => r.total.maxBps) = some 16000 := by decide +kernel
    obtain ⟨r, hr, h⟩ := Option.map_eq_some_iff.mp h
    exact ⟨r, ok_of_toOption hr, h⟩

end Tperf.Analyze

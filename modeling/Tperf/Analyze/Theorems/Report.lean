import Tperf.Analyze.Report
import Tperf.Analyze.Theorems.Buckets
import Tperf.Lib.Pairs
import Tperf.Server.Theorems.Windows

/-!
# The pairs of a report and the hosts of the test
-/

namespace Tperf.Analyze
open Lib Proto Metrics Db Server

/-! ## The windows of a test -/

/-- A window that the metrics loop of one of the hosts has emitted. -/
def OfLoop (hosts : List Str) (w : MetricWindow) : Prop :=
  ∃ server ∈ hosts, ∃ clkTck ls s,
    metricsLoop.run (.init server hosts clkTck) ls = some s ∧ w ∈ s.emitted

theorem OfLoop.names {hosts : List Str} {w : MetricWindow} (h : OfLoop hosts w) :
    w.server ∈ hosts ∧ ∀ e ∈ w.peers, e.peer ∈ hosts := by
  obtain ⟨server, hserver, clkTck, ls, s, hrun, hw⟩ := h
  obtain ⟨hinv, hnames, hs⟩ : s.Inv ∧ s.names = hosts ∧ s.server = server := by
    apply Machine.run_invariant (I := fun s : MetricsLoop => s.Inv ∧ s.names = hosts ∧ s.server = server)
      ?_ hrun ⟨MetricsLoop.init_inv _ _ _, rfl, rfl⟩
    rintro s l s' ⟨hinv, hnames, hs⟩ hl
    have hsteps := loop_steps hl
    exact ⟨hinv.step hsteps, hsteps.names.trans hnames, hsteps.server.trans hs⟩
  obtain ⟨k, hk⟩ := List.mem_iff_getElem?.mp hw
  obtain ⟨a, b, -, -, rfl⟩ := hinv.window_of hk
  constructor
  · change s.server ∈ hosts
    rw [hs]
    exact hserver
  intro e he
  rw [window_peers] at he
  obtain ⟨o, ho, rfl⟩ := List.mem_filterMap.mp he
  obtain ⟨j, hj⟩ := List.mem_iff_getElem?.mp ho
  rw [← hnames]
  exact List.mem_of_getElem? (entries_name hj)

/-! ## The worst pairs -/

theorem PairStats.worse_iff {a b : PairStats} :
    a.worse b = true ↔ a.stats.avgBps < b.stats.avgBps ∨
      a.stats.avgBps = b.stats.avgBps ∧ a.stats.minBps ≤ b.stats.minBps := by
  simp [worse]

theorem PairStats.worse_trans (a b c : PairStats) (hab : a.worse b = true) (hbc : b.worse c = true) :
    a.worse c = true := by
  rw [worse_iff] at *
  rcases hab with hab | ⟨hab, hmin⟩
  · rcases hbc with hbc | ⟨hbc, -⟩
    · exact .inl (hab.trans hbc)
    · exact .inl (hbc ▸ hab)
  · rcases hbc with hbc | ⟨hbc, hmin'⟩
    · exact .inl (hab ▸ hbc)
    · exact .inr ⟨hab.trans hbc, hmin.trans hmin'⟩

theorem PairStats.worse_total (a b : PairStats) : (a.worse b || b.worse a) = true := by
  rw [Bool.or_eq_true, worse_iff, worse_iff]
  rcases lt_trichotomy a.stats.avgBps b.stats.avgBps with h | h | h
  · exact .inl (.inl h)
  · rcases le_total a.stats.minBps b.stats.minBps with hmin | hmin
    · exact .inl (.inr ⟨h, hmin⟩)
    · exact .inr (.inr ⟨h.symm, hmin⟩)
  · exact .inr (.inl h)

/-- The worst pairs come first, and no other pair is worse. -/
theorem Report.worst_spec (r : Report) :
    ∃ rest, (r.worst ++ rest).Perm r.pairs ∧ (r.worst ++ rest).Pairwise (fun a b => a.worse b = true) ∧
      r.worst.length = min 5 r.observed := by
  refine ⟨(r.pairs.mergeSort PairStats.worse).drop 5, ?_, ?_, ?_⟩
  · rw [worst, List.take_append_drop]
    exact List.mergeSort_perm _ _
  · rw [worst, List.take_append_drop]
    exact List.pairwise_mergeSort PairStats.worse_trans PairStats.worse_total _
  · rw [worst, List.length_take, List.length_mergeSort]
    rfl

/-! ## The pairs -/

theorem pairs_keys_nodup (ds : List Entry) : ((Acc.of ds).pairs.map fun st => (st.src, st.dst)).Nodup := by
  rw [List.Nodup, List.pairwise_map]
  apply (pairs_sorted ds).imp
  intro a b hlt he
  have hself : pairOrder (b.src, b.dst) (b.src, b.dst) = .eq := Std.ReflCmp.compare_self
  rw [PairStats.Lt, he, hself] at hlt
  cases hlt

theorem mem_keys {J : PeersJson} {ws : List MetricWindow} {s p : Str} :
    (s, p) ∈ ((Acc.of (ws.map (entry J))).pairs.map fun st => (st.src, st.dst)) ↔
      s ≠ p ∧ ∃ w ∈ ws, w.server = s ∧ w.durationNs ≥ minWindowNs ∧
        ∃ e ∈ w.peers, e.peer = p ∧ e.bytesSent > 0 := by
  have hkey : (s, p) ∈ ((Acc.of (ws.map (entry J))).pairs.map fun st => (st.src, st.dst)) ↔
      samplesOf (ws.map (entry J)) (s, p) ≠ [] := by
    constructor
    · intro h
      obtain ⟨st, hst, he⟩ := List.mem_map.mp h
      have hmem := mem_pairs.mp hst
      rw [he] at hmem
      intro hnil
      rw [hnil] at hmem
      cases hmem
    · intro hne
      exact List.mem_map.mpr ⟨⟨s, p, _⟩, mem_pairs.mpr (fromSamples_ne_nil hne), rfl⟩
  rw [hkey]
  constructor
  · intro hne
    obtain ⟨x, hx⟩ := List.exists_mem_of_ne_nil _ hne
    have hsp := (mem_samplesOf.mp hx).1
    rw [samplesOf_entry hsp] at hx
    obtain ⟨w, hw, hs, hdur, e, he, hp, hb, -⟩ := mem_sentTo.mp hx
    exact ⟨hsp, w, hw, hs, hdur, e, he, hp, hb⟩
  · rintro ⟨hsp, w, hw, hs, hdur, e, he, hp, hb⟩
    rw [samplesOf_entry hsp]
    exact List.ne_nil_of_mem (mem_sentTo.mpr ⟨w, hw, hs, hdur, e, he, hp, hb, rfl⟩)

/-- Of the windows that the hosts of the test emitted, the report shows no more pairs than there are, all of
them exactly when every host has sent to every other, and the worst first. -/
theorem report_pairs {J : PeersJson} {hostsFromStr : Str → Option (List Str)} {file : DbFile} {tag : Str}
    {ws : List MetricWindow} {rows : List Row} {r : Report} (hjson : ReadsPeers J ws)
    (hsel : Select (ws.map (insertMetric J tag)) rows) (h : load J hostsFromStr file rows = .ok r)
    (hws : ∀ w ∈ ws, OfLoop r.hosts w) (hnodup : r.hosts.Nodup) (hfew : r.hosts.length ≤ 2 ^ 32) :
    r.observed ≤ r.expected ∧
      (r.observed = r.expected ↔ ∀ s ∈ r.hosts, ∀ p ∈ r.hosts, s ≠ p →
        ∃ w ∈ ws, w.server = s ∧ w.durationNs ≥ minWindowNs ∧
          ∃ e ∈ w.peers, e.peer = p ∧ e.bytesSent > 0) ∧
      ∃ rest, (r.worst ++ rest).Perm r.pairs ∧ (r.worst ++ rest).Pairwise (fun a b => a.worse b = true) ∧
        r.worst.length = min 5 r.observed := by
  obtain ⟨ws', hperm, hd⟩ := decode_select hjson hsel
  obtain ⟨config, ds, total, hc, hds, -, hr⟩ := load_ok h
  obtain rfl : ws'.map (entry J) = ds :=
    List.map_injective_iff.mpr (Option.some_injective _) (hd.symm.trans hds)
  have hpairs : r.pairs = (Acc.of (ws'.map (entry J))).pairs := by rw [hr]; rfl
  have hexpected : r.expected = r.hosts.length * (r.hosts.length - 1) := by
    apply Nat.min_eq_left
    have hle : r.hosts.length * (r.hosts.length - 1) ≤ 2 ^ 32 * (2 ^ 32 - 1) :=
      Nat.mul_le_mul hfew (Nat.sub_le_sub_right hfew 1)
    omega
  have hlen : r.observed = (r.pairs.map fun st => (st.src, st.dst)).length := (List.length_map _).symm
  have hkeys : ∀ k ∈ r.pairs.map fun st => (st.src, st.dst), k.1 ∈ r.hosts ∧ k.2 ∈ r.hosts ∧ k.1 ≠ k.2 := by
    rintro ⟨s, p⟩ hsp
    rw [hpairs] at hsp
    obtain ⟨hne, w, hw, rfl, -, e, he, rfl, -⟩ := mem_keys.mp hsp
    obtain ⟨hserver, hpeers⟩ := (hws w (hperm.subset hw)).names
    exact ⟨hserver, hpeers e he, hne⟩
  obtain ⟨hle, hall⟩ := offDiag_length hnodup (hpairs ▸ pairs_keys_nodup _) hkeys
  rw [hlen, hexpected]
  refine ⟨hle, hall.trans ?_, ?_⟩
  · apply forall₂_congr
    intro s _
    apply forall₂_congr
    intro p _
    rw [hpairs]
    apply forall_congr'
    intro hne
    rw [mem_keys]
    constructor
    · rintro ⟨-, w, hw, h⟩
      exact ⟨w, hperm.subset hw, h⟩
    · rintro ⟨w, hw, h⟩
      exact ⟨hne, w, hperm.symm.subset hw, h⟩
  · rw [← hlen]
    exact r.worst_spec

/-! ### Two hosts, of which one has sent -/

def hostPair : List Str := ["a".toList, "b".toList]

def sendingLoop : List LoopLabel :=
  opening 5 (sent 0 0) ++ sleptWindow 5 1000000005 (sent 100 1) ++
    sleptWindow 1000000005 2000000005 (sent 200 2)
where
  sent (bytes packets : UInt64) : Counters :=
    ((Counters.new hostPair).onTotal (·.addSent bytes packets)).onPeer 1 (·.addSent bytes packets)

def emittedWindows : List MetricWindow :=
  [{ sendingWindow with wallStartNs := 5, wallEndNs := 1000000005 },
    { sendingWindow with wallStartNs := 1000000005, wallEndNs := 2000000005 }]

def emittedRows : List Row := emittedWindows.map (insertMetric samplePeers [])

theorem report_pairs_one_way :
    ∃ r, load samplePeers (fun _ => some hostPair) ⟨"t.db".toList, none, some ("t".toList, [])⟩
        emittedRows = .ok r ∧ r.hosts = hostPair ∧
      r.observed ≤ r.expected ∧ r.observed ≠ r.expected := by
  have hrun : (metricsLoop.run (.init "a".toList hostPair 100) sendingLoop).map (·.emitted) =
      some emittedWindows := by decide +kernel
  have hload : ((load samplePeers (fun _ => some hostPair) ⟨"t.db".toList, none, some ("t".toList, [])⟩
      emittedRows).toOption.map (·.hosts)) = some hostPair := by decide +kernel
  obtain ⟨s, hs, hemitted⟩ := Option.map_eq_some_iff.mp hrun
  obtain ⟨r, hr, hhosts⟩ := Option.map_eq_some_iff.mp hload
  have hr := ok_of_toOption hr
  have hjson : ReadsPeers samplePeers emittedWindows := by
    unfold ReadsPeers
    decide +kernel
  have hsel : Select (emittedWindows.map (insertMetric samplePeers [])) emittedRows :=
    ⟨.refl _, by decide +kernel⟩
  have hws : ∀ w ∈ emittedWindows, OfLoop r.hosts w := by
    intro w hw
    rw [← hemitted] at hw
    rw [hhosts]
    exact ⟨"a".toList, by decide, 100, sendingLoop, s, hs, hw⟩
  obtain ⟨hle, hiff, -⟩ := report_pairs hjson hsel hr hws (by rw [hhosts]; decide) (by rw [hhosts]; decide)
  refine ⟨r, hr, hhosts, hle, fun heq => ?_⟩
  -- the second host has sent nothing
  obtain ⟨w, hw, hserver, -⟩ := hiff.mp heq "b".toList (by rw [hhosts]; decide) "a".toList
    (by rw [hhosts]; decide) (by decide)
  have hall : ∀ w ∈ emittedWindows, w.server ≠ "b".toList := by decide +kernel
  exact hall w hw hserver

end Tperf.Analyze

import Tperf.Analyze.Lemmas.Inserted
import Tperf.Proto.Frame

/-!
# What is inserted is what is reported
-/

namespace Tperf.Analyze
open Lib Proto Metrics Db

/-- The rows written for any windows give an error exactly when no window counts. Otherwise the pairs are
those with samples, in order, each with the statistics of its samples. The order of insertion does not
matter. -/
theorem load_inserted {J : PeersJson} {hostsFromStr : Str → Option (List Str)} {file : DbFile}
    {config : Str × Str} {tag : Str} {ws : List MetricWindow} {rows : List Row}
    (hconfig : file.config = some config) (hjson : ReadsPeers J ws)
    (hsel : Select (ws.map (insertMetric J tag)) rows) :
    (load J hostsFromStr file rows = .error (noMetrics file) ↔ ∀ w ∈ ws, ¬ Counts w) ∧
    ((∃ w ∈ ws, Counts w) → ∃ r, load J hostsFromStr file rows = .ok r ∧
      r.pairs.Pairwise PairStats.Lt ∧
      (∀ s p, (∃ st ∈ r.pairs, st.src = s ∧ st.dst = p) ↔
        s ≠ p ∧ ∃ w ∈ ws, w.server = s ∧ w.durationNs ≥ minWindowNs ∧
          ∃ e ∈ w.peers, e.peer = p ∧ e.bytesSent > 0) ∧
      ∀ st ∈ r.pairs, fromSamples (sentTo ws st.src st.dst) = some st.stats) ∧
    ∀ (ws' : List MetricWindow) (rows' : List Row), ws'.Perm ws →
      Select (ws'.map (insertMetric J tag)) rows' →
      load J hostsFromStr file rows' = load J hostsFromStr file rows := by
  obtain ⟨vs, hperm, hd⟩ := decode_select hjson hsel
  have hload : load J hostsFromStr file rows = result hostsFromStr file config (ws.map (entry J)) :=
    (load_eq hconfig hd).trans (result_perm (hperm.map _) hostsFromStr file config)
  have hnone := (fromSamples_eq_none (l := windowSamples (ws.map (entry J)))).trans
    windowSamples_entry_nil
  refine ⟨?_, ?_, ?_⟩
  · rw [hload, ← hnone, result]
    cases fromSamples (windowSamples (ws.map (entry J))) with
    | none => simp
    | some total => simp
  · rintro ⟨w, hw, hcounts⟩
    cases ht : fromSamples (windowSamples (ws.map (entry J))) with
    | none => exact absurd hcounts (hnone.mp ht w hw)
    | some total =>
        have hstats : ∀ st ∈ (Acc.of (ws.map (entry J))).pairs,
            st.src ≠ st.dst ∧ fromSamples (sentTo ws st.src st.dst) = some st.stats := by
          intro st hst
          have hmem := mem_pairs.mp hst
          have hne : st.src ≠ st.dst := by
            obtain ⟨x, hx⟩ : ∃ x, x ∈ samplesOf (ws.map (entry J)) (st.src, st.dst) :=
              List.exists_mem_of_ne_nil _ fun hnil => by rw [hnil] at hmem; cases hmem
            exact (mem_samplesOf.mp hx).1
          rw [samplesOf_entry hne] at hmem
          exact ⟨hne, hmem⟩
        refine ⟨_, by rw [hload, result, ht], pairs_sorted _, ?_, fun st hst => (hstats st hst).2⟩
        intro s p
        constructor
        · rintro ⟨st, hst, rfl, rfl⟩
          obtain ⟨hne, hfrom⟩ := hstats st hst
          obtain ⟨x, hx⟩ : ∃ x, x ∈ sentTo ws st.src st.dst :=
            List.exists_mem_of_ne_nil _ fun hnil => by rw [hnil] at hfrom; cases hfrom
          obtain ⟨w, hw, hs, hdur, e, he, hp, hb, -⟩ := mem_sentTo.mp hx
          exact ⟨hne, w, hw, hs, hdur, e, he, hp, hb⟩
        · rintro ⟨hne, w, hw, hs, hdur, e, he, hp, hb⟩
          have hx : (e.bytesSent, w.durationNs) ∈ sentTo ws s p :=
            mem_sentTo.mpr ⟨w, hw, hs, hdur, e, he, hp, hb, rfl⟩
          have hfrom := fromSamples_ne_nil (List.ne_nil_of_mem hx)
          rw [← samplesOf_entry (J := J) hne] at hfrom
          exact ⟨⟨s, p, _⟩, mem_pairs.mpr hfrom, rfl, rfl⟩
  · intro ws' rows' hws hsel'
    obtain ⟨vs', hvs, hd'⟩ := decode_select (fun w hw => hjson w (hws.subset hw)) hsel'
    rw [load_eq hconfig hd', hload]
    exact result_perm ((hvs.trans hws).map _) hostsFromStr file config

/-! ## An instance -/

def sentToB : PeerMetrics where
  peer := "b".toList
  bytesSent := 100
  bytesRecv := 0
  packetsSent := 1
  packetsRecv := 0
  packetsDropped := 0

def sentToBJson : Str :=
  "[\x7b\"peer\":\"b\",\"bytes_sent\":100,\"bytes_recv\":0,\"packets_sent\":1,".toList ++
  "\"packets_recv\":0,\"packets_dropped\":0\x7d]".toList

/-- What `serde_json` does with the peers of the windows below. -/
def samplePeers : PeersJson where
  toString peers := if peers = [sentToB] then sentToBJson else "[]".toList
  fromStr text :=
    if text = sentToBJson then some [sentToB] else if text = "[]".toList then some [] else none

def sendingWindow : MetricWindow :=
  { sampleWindow with bytesSent := 100, sendBps := 800, packetsSent := 1, peers := [sentToB] }

/-- Its start is negative as an `i64`. -/
def lateWindow : MetricWindow := { sampleWindow with wallStartNs := 0x8000000000000000 }

/-- Two windows whose rows come back in the other order. -/
theorem load_inserted_two :
    ∃ r, load samplePeers (fun _ => none) ⟨"t.db".toList, none, some ("t".toList, "[]".toList)⟩
        [insertMetric samplePeers [] lateWindow, insertMetric samplePeers [] sendingWindow] = .ok r ∧
      ∃ st ∈ r.pairs, st.src = "a".toList ∧ st.dst = "b".toList := by
  have hsel : Select ([sendingWindow, lateWindow].map (insertMetric samplePeers []))
      [insertMetric samplePeers [] lateWindow, insertMetric samplePeers [] sendingWindow] :=
    ⟨by decide +kernel, by decide +kernel⟩
  have hjson : ReadsPeers samplePeers [sendingWindow, lateWindow] := by
    unfold ReadsPeers
    decide +kernel
  obtain ⟨r, hr, -, hpairs, -⟩ := (@load_inserted samplePeers (fun _ => none)
    ⟨"t.db".toList, none, some ("t".toList, "[]".toList)⟩ _ [] _ _ rfl hjson hsel).2.1
    ⟨sendingWindow, List.mem_cons_self, by decide, by decide⟩
  refine ⟨r, hr, (hpairs "a".toList "b".toList).mpr ⟨by decide, sendingWindow, List.mem_cons_self, rfl,
    by decide, sentToB, List.mem_cons_self, rfl, by decide⟩⟩

end Tperf.Analyze

import Tperf.Analyze.Lemmas.Pairs

/-!
# Rows that `insert_metric` wrote
-/

namespace Tperf.Analyze
open Lib Proto Metrics Db

variable {J : PeersJson} {tag : Str}

/-- What `load` reads back of a window. -/
def entry (J : PeersJson) (w : MetricWindow) : Entry :=
  (⟨w.server, w.wallStartNs, w.durationNs, w.bytesSent, w.sendBps, J.toString w.peers⟩, w.peers)

/-- `serde_json` reads the peers of these windows back. -/
def ReadsPeers (J : PeersJson) (ws : List MetricWindow) : Prop :=
  ∀ w ∈ ws, J.fromStr (J.toString w.peers) = some w.peers

theorem decode_insertMetric {w : MetricWindow} (h : J.fromStr (J.toString w.peers) = some w.peers) :
    decode J (insertMetric J tag w) = some (entry J w) := by
  rw [decode, show J.fromStr (insertMetric J tag w).peersJson = some w.peers from h]
  simp [RawRow.of, insertMetric, entry]

/-- A permutation of an image is the image of a permutation. -/
theorem exists_perm_map {α β : Type} {f : α → β} {l : List β} {m : List α} (h : l.Perm (m.map f)) :
    ∃ m' : List α, m'.Perm m ∧ l = m'.map f := by
  induction l generalizing m with
  | nil => exact ⟨[], by rw [List.map_eq_nil_iff.mp h.nil_eq.symm], rfl⟩
  | cons b l ih =>
      obtain ⟨a, ha, rfl⟩ := List.mem_map.mp (h.subset List.mem_cons_self)
      obtain ⟨s, t, rfl⟩ := List.append_of_mem ha
      have hsplit : (s ++ a :: t).Perm (a :: (s ++ t)) := List.perm_middle
      obtain ⟨m', hm', rfl⟩ := ih (h.trans (hsplit.map f)).cons_inv
      exact ⟨a :: m', (hm'.cons a).trans hsplit.symm, rfl⟩

/-- Whatever the query returns is decoded to the windows in some order. -/
theorem decode_select {ws : List MetricWindow} {rows : List Row} (hjson : ReadsPeers J ws)
    (hsel : Select (ws.map (insertMetric J tag)) rows) :
    ∃ ws' : List MetricWindow, ws'.Perm ws ∧ rows.map (decode J) = (ws'.map (entry J)).map some := by
  obtain ⟨ws', hperm, rfl⟩ := exists_perm_map hsel.perm
  refine ⟨ws', hperm, ?_⟩
  rw [List.map_map, List.map_map]
  exact List.map_congr_left fun w hw => decode_insertMetric (hjson w (hperm.subset hw))

/-! ## Windows and samples -/

/-- A window long enough, in which something was sent. -/
def Counts (w : MetricWindow) : Prop := w.durationNs ≥ minWindowNs ∧ w.bytesSent > 0

/-- The entries for the peer `p` in the windows of the server `s`, each used once. -/
def sentTo (ws : List MetricWindow) (s p : Str) : List (UInt64 × UInt64) :=
  (ws.filter fun w => w.server = s ∧ w.durationNs ≥ minWindowNs).flatMap fun w =>
    (w.peers.filter fun e => e.peer = p ∧ e.bytesSent > 0).map fun e => (e.bytesSent, w.durationNs)

theorem counts_entry {w : MetricWindow} : (entry J w).1.counts = true ↔ Counts w := by
  simp [RawRow.counts, entry, Counts]

theorem windowSamples_entry_nil {ws : List MetricWindow} :
    windowSamples (ws.map (entry J)) = [] ↔ ∀ w ∈ ws, ¬ Counts w := by
  simp only [windowSamples, List.map_eq_nil_iff, List.filter_eq_nil_iff, List.mem_map,
    forall_exists_index, and_imp, forall_apply_eq_imp_iff₂, counts_entry]

theorem samples_entry {s p : Str} (hne : s ≠ p) (w : MetricWindow) :
    valuesAt (s, p) (entry J w).samples = sentTo [w] s p := by
  have hmap : valuesAt (s, p) (entry J w).samples = w.peers.filterMap fun e =>
      if (w.server = s ∧ w.durationNs ≥ minWindowNs) ∧ e.peer = p ∧ e.bytesSent > 0 then
        some (e.bytesSent, w.durationNs) else none := by
    rw [valuesAt, Entry.samples, List.filterMap_filterMap]
    refine List.filterMap_congr fun e _ => ?_
    simp only [entry, RawRow.sample]
    by_cases hs : w.server = s <;> by_cases hp : e.peer = p <;>
      by_cases hb : e.bytesSent > 0 <;> by_cases hw : w.durationNs ≥ minWindowNs <;>
      simp [hs, hp, hb, hw, hne.symm]
  rw [hmap, sentTo]
  by_cases hw : w.server = s ∧ w.durationNs ≥ minWindowNs
  · simp only [hw, and_self, true_and, decide_true, List.filter_cons_of_pos, List.filter_nil,
      List.flatMap_cons, List.flatMap_nil, List.append_nil]
    rw [← List.filterMap_eq_filter, List.map_filterMap]
    refine List.filterMap_congr fun e _ => ?_
    by_cases he : e.peer = p ∧ e.bytesSent > 0 <;> simp [he, Option.guard]
  · simp [hw]

theorem samplesOf_entry {s p : Str} (hne : s ≠ p) (ws : List MetricWindow) :
    samplesOf (ws.map (entry J)) (s, p) = sentTo ws s p := by
  induction ws with
  | nil => rfl
  | cons w ws ih =>
      have happ : sentTo (w :: ws) s p = sentTo [w] s p ++ sentTo ws s p := by
        rw [sentTo, ← List.singleton_append, List.filter_append, List.flatMap_append]
        rfl
      rw [happ, ← ih, ← samples_entry (J := J) hne, samplesOf, samplesOf, List.map_cons, List.flatMap_cons,
        valuesAt, List.filterMap_append]
      rfl

theorem mem_sentTo {ws : List MetricWindow} {s p : Str} {x : UInt64 × UInt64} :
    x ∈ sentTo ws s p ↔ ∃ w ∈ ws, w.server = s ∧ w.durationNs ≥ minWindowNs ∧
      ∃ e ∈ w.peers, e.peer = p ∧ e.bytesSent > 0 ∧ x = (e.bytesSent, w.durationNs) := by
  simp only [sentTo, List.mem_flatMap, List.mem_filter, List.mem_map, decide_eq_true_eq]
  grind

end Tperf.Analyze

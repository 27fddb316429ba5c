import Tperf.Analyze.Lemmas.Stats

/-!
# What the loop over the rows computes
-/

namespace Tperf.Analyze
open Lib Proto Metrics Db

variable {J : PeersJson}

/-- A row with its peers. -/
abbrev Entry := RawRow × List PeerMetrics

def decode (J : PeersJson) (row : Row) : Option Entry :=
  (J.fromStr row.peersJson).map fun peers => (RawRow.of row, peers)

theorem ok_of_toOption {ε α : Type} {x : Except ε α} {a : α} (h : x.toOption = some a) : x = .ok a := by
  cases x with
  | error e => cases h
  | ok b => cases h; rfl

/-! ## The entries of a row -/

/-- The window is not a stop or flush slice and something was sent in it. -/
def RawRow.counts (row : RawRow) : Bool := row.durationNs ≥ minWindowNs && row.bytesSent > 0

def RawRow.bucket (row : RawRow) : Nat := row.wallStartNs.toNat / 1000000000

def RawRow.sample (row : RawRow) (p : PeerMetrics) : Option ((Str × Str) × (UInt64 × UInt64)) :=
  if p.peer ≠ row.server ∧ p.bytesSent > 0 ∧ row.durationNs ≥ minWindowNs then
    some ((row.server, p.peer), (p.bytesSent, row.durationNs))
  else none

def Entry.samples (d : Entry) : List ((Str × Str) × (UInt64 × UInt64)) := d.2.filterMap d.1.sample

/-- What the rows with `ds` add to the buckets. -/
def bucketRates (ds : List Entry) : List (Nat × Rat) :=
  (ds.filter fun d => d.1.counts).map fun d => (d.1.bucket, d.1.sendBps)

def windowSamples (ds : List Entry) : List (UInt64 × UInt64) :=
  (ds.filter fun d => d.1.counts).map fun d => (d.1.bytesSent, d.1.durationNs)

/-- The variables of the loop after the rows with `ds`. -/
def Acc.of (ds : List Entry) : Acc where
  pairSamples := gather push ∅ (ds.flatMap Entry.samples)
  bucketBps := gather plus ∅ (bucketRates ds)
  totalSamples := windowSamples ds

/-! ## The loop -/

theorem not_pos_iff {n : UInt64} : n = 0 ↔ ¬ n > 0 := by
  rw [← UInt64.toNat_inj, gt_iff_lt, UInt64.lt_iff_toNat_lt, UInt64.toNat_zero]
  omega

theorem Acc.peer_eq (row : RawRow) (acc : Acc) (p : PeerMetrics) :
    acc.peer row p =
      { acc with pairSamples := gather push acc.pairSamples (row.sample p).toList } := by
  unfold Acc.peer RawRow.sample
  by_cases h₁ : p.peer = row.server
  · simp [h₁]
  · by_cases h₂ : p.bytesSent > 0
    · by_cases h₃ : row.durationNs ≥ minWindowNs
      · have h₂' : ¬ p.bytesSent = 0 := fun h => not_pos_iff.mp h h₂
        simp [h₁, h₂, h₃, h₂', UInt64.not_lt.mpr h₃]
      · simp [h₁, h₃, UInt64.not_le.mp h₃]
    · simp [h₁, not_pos_iff.mpr h₂]

theorem Acc.foldl_peer (row : RawRow) (acc : Acc) (peers : List PeerMetrics) :
    peers.foldl (Acc.peer row) acc =
      { acc with pairSamples := gather push acc.pairSamples (peers.filterMap row.sample) } := by
  induction peers generalizing acc with
  | nil => rfl
  | cons p peers ih =>
      rw [List.foldl_cons, ih, Acc.peer_eq]
      cases h : row.sample p with
      | none => rw [List.filterMap_cons_none h]; rfl
      | some s => rw [List.filterMap_cons_some h]; rfl

theorem Acc.row_of {ds : List Entry} {row : Row} {d : Entry} (h : decode J row = some d) :
    Acc.row J (.of ds) row = .ok (.of (ds ++ [d])) := by
  obtain ⟨peers, hp, rfl⟩ := Option.map_eq_some_iff.mp h
  have hjson : J.fromStr (RawRow.of row).peersJson = some peers := hp
  simp only [Acc.row, hjson, Acc.foldl_peer]
  refine congrArg Except.ok ?_
  simp only [Acc.total, Acc.of, bucketRates, windowSamples, List.flatMap_append, List.filter_append,
    List.map_append, gather_append]
  by_cases hc : (RawRow.of row).durationNs ≥ minWindowNs ∧ (RawRow.of row).bytesSent > 0
  · simp [hc, RawRow.counts, Entry.samples, RawRow.bucket]
  · rw [if_neg hc]
    have hc' : (RawRow.of row).counts = false := by
      simpa [RawRow.counts] using hc
    simp [hc', Entry.samples]

theorem foldlM_of {rows : List Row} {ds pre : List Entry} (h : rows.map (decode J) = ds.map some) :
    rows.foldlM (Acc.row J) (Acc.of pre) = .ok (.of (pre ++ ds)) := by
  induction rows generalizing ds pre with
  | nil =>
      obtain rfl : ds = [] := by simpa using h.symm
      rw [List.append_nil]
      rfl
  | cons row rows ih =>
      cases ds with
      | nil => cases h
      | cons d ds =>
          obtain ⟨hd, hds⟩ := List.cons.inj h
          rw [List.foldlM_cons, Acc.row_of hd, List.append_cons pre d ds]
          exact ih hds

/-- When the loop ends, every row has been decoded. -/
theorem decoded_of_foldlM {rows : List Row} {acc acc' : Acc}
    (h : rows.foldlM (Acc.row J) acc = .ok acc') : ∃ ds : List Entry, rows.map (decode J) = ds.map some := by
  induction rows generalizing acc with
  | nil => exact ⟨[], rfl⟩
  | cons row rows ih =>
      rw [List.foldlM_cons] at h
      cases hrow : Acc.row J acc row with
      | error e => rw [hrow] at h; cases h
      | ok acc₁ =>
          rw [hrow] at h
          obtain ⟨ds, hds⟩ := ih h
          cases hj : J.fromStr (RawRow.of row).peersJson with
          | none => simp only [Acc.row, hj] at hrow; cases hrow
          | some peers =>
              have hd : decode J row = some (RawRow.of row, peers) := by
                rw [decode, show J.fromStr row.peersJson = some peers from hj]
                rfl
              exact ⟨(RawRow.of row, peers) :: ds, by rw [List.map_cons, List.map_cons, hd, hds]⟩

variable {hostsFromStr : Str → Option (List Str)} {file : DbFile} {rows : List Row}

/-! ## The report -/

/-- What `load` makes of decoded rows. -/
def report (hostsFromStr : Str → Option (List Str)) (file : DbFile) (config : Str × Str)
    (ds : List Entry) (total : RateStats) : Report where
  dbPath := file.resolved.getD file.path
  tag := config.1
  hosts := (hostsFromStr config.2).getD []
  pairs := (Acc.of ds).pairs
  total := (Acc.of ds).overall total

def result (hostsFromStr : Str → Option (List Str)) (file : DbFile) (config : Str × Str)
    (ds : List Entry) : Except Str Report :=
  match fromSamples (windowSamples ds) with
  | none => .error (noMetrics file)
  | some total => .ok (report hostsFromStr file config ds total)

theorem load_eq {config : Str × Str} {ds : List Entry} (hc : file.config = some config)
    (hd : rows.map (decode J) = ds.map some) :
    load J hostsFromStr file rows = result hostsFromStr file config ds := by
  have hfold : rows.foldlM (Acc.row J) .init = .ok (Acc.of ds) := @foldlM_of J rows ds [] hd
  simp only [load, hc, hfold]
  rfl

theorem load_ok {r : Report} (h : load J hostsFromStr file rows = .ok r) :
    ∃ config ds total, file.config = some config ∧ rows.map (decode J) = ds.map some ∧
      fromSamples (windowSamples ds) = some total ∧ r = report hostsFromStr file config ds total := by
  cases hc : file.config with
  | none => simp only [load, hc] at h; cases h
  | some config =>
      cases hf : rows.foldlM (Acc.row J) .init with
      | error e => simp only [load, hc, hf] at h; cases h
      | ok acc =>
          obtain ⟨ds, hd⟩ := decoded_of_foldlM hf
          rw [load_eq hc hd, result] at h
          cases ht : fromSamples (windowSamples ds) with
          | none => rw [ht] at h; cases h
          | some total =>
              rw [ht] at h
              cases h
              exact ⟨config, ds, total, rfl, hd, ht, rfl⟩

end Tperf.Analyze

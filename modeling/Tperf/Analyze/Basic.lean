import Mathlib.Algebra.Order.Ring.Rat
import Mathlib.Order.WithBot
import Tperf.Db.Basic
import Tperf.Lib.Gather
import Tperf.Metrics.Basic

/-!
# The report of `tperf analyze`

An `f64` is an exact rational; where it can be infinite it is a `WithTop Rat`.
-/

namespace Tperf.Analyze
open Lib Proto Metrics Db

/-! ## Rates -/

def minWindowNs : UInt64 := 50000000

structure RateStats where
  minBps : WithTop Rat
  maxBps : Rat
  avgBps : Rat
  windows : Nat
  deriving DecidableEq

/-- `a.saturating_add(b)` on `u128`. -/
def satAdd128 (a b : Nat) : Nat := min (a + b) (2 ^ 128 - 1)

/-- The variables of the loop in `from_samples`. -/
structure Sums where
  minBps : WithTop Rat
  maxBps : Rat
  bytes : UInt64
  durationNs : Nat

def Sums.init : Sums := ⟨⊤, 0, 0, 0⟩

def Sums.add (a : Sums) (p : UInt64 × UInt64) : Sums :=
  let r := bps p.1 p.2
  { minBps := if (r : WithTop Rat) < a.minBps then (r : WithTop Rat) else a.minBps
    maxBps := if r > a.maxBps then r else a.maxBps
    bytes := satAdd a.bytes p.1
    durationNs := satAdd128 a.durationNs p.2.toNat }

def Sums.avgBps (a : Sums) : Rat :=
  if a.durationNs = 0 then 0 else (a.bytes.toNat : Rat) * 8 * 1000000000 / (a.durationNs : Rat)

/-- `samples` are (bytes, duration) per window. -/
def fromSamples (samples : List (UInt64 × UInt64)) : Option RateStats :=
  if samples.isEmpty then none
  else
    let a := samples.foldl Sums.add .init
    some ⟨a.minBps, a.maxBps, a.avgBps, samples.length⟩

structure PairStats where
  src : Str
  dst : Str
  stats : RateStats
  deriving DecidableEq

/-! ## The rows -/

structure RawRow where
  server : Str
  wallStartNs : UInt64
  durationNs : UInt64
  bytesSent : UInt64
  sendBps : Rat
  peersJson : Str

/-- The columns that the query selects, cast from `i64`. -/
def RawRow.of (row : Row) : RawRow where
  server := row.server
  wallStartNs := row.wallStartNs.toUInt64
  durationNs := row.durationNs.toUInt64
  bytesSent := row.bytesSent.toUInt64
  sendBps := row.sendBps
  peersJson := row.peersJson

/-- The order of `(String, String)`. -/
def pairOrder : Str × Str → Str × Str → Ordering := compareLex (compareOn Prod.fst) (compareOn Prod.snd)

instance : Std.TransCmp pairOrder :=
  inferInstanceAs (Std.TransCmp (compareLex (compareOn Prod.fst) (compareOn Prod.snd)))

instance : Std.LawfulEqCmp pairOrder where
  eq_of_compare h := by
    obtain ⟨h₁, h₂⟩ := Ordering.then_eq_eq.mp h
    exact Prod.ext (Std.LawfulEqCmp.eq_of_compare h₁) (Std.LawfulEqCmp.eq_of_compare h₂)

/-- The variables of the loop over the rows. -/
structure Acc where
  pairSamples : Std.ExtTreeMap (Str × Str) (List (UInt64 × UInt64)) pairOrder
  bucketBps : Std.ExtTreeMap Nat Rat
  totalSamples : List (UInt64 × UInt64)

namespace Acc

def init : Acc := ⟨∅, ∅, []⟩

/-- One entry of `peers_json`. -/
def peer (row : RawRow) (acc : Acc) (p : PeerMetrics) : Acc :=
  if p.peer = row.server then acc
  else if p.bytesSent = 0 ∨ row.durationNs < minWindowNs then acc
  else
    { acc with
      pairSamples := acc.pairSamples.alter (row.server, p.peer) fun o =>
        some (push o (p.bytesSent, row.durationNs)) }

def total (row : RawRow) (acc : Acc) : Acc :=
  if row.durationNs ≥ minWindowNs ∧ row.bytesSent > 0 then
    let bucket := row.wallStartNs.toNat / 1000000000
    { acc with
      bucketBps := acc.bucketBps.alter bucket fun o => some (plus o row.sendBps)
      totalSamples := acc.totalSamples ++ [(row.bytesSent, row.durationNs)] }
  else acc

def row (J : PeersJson) (acc : Acc) (r : Row) : Except Str Acc :=
  let row := RawRow.of r
  match J.fromStr row.peersJson with
  | none => .error ("peers_json for ".toList ++ row.server)
  | some peers => .ok ((peers.foldl (peer row) acc).total row)

def pairs (acc : Acc) : List PairStats :=
  acc.pairSamples.toList.filterMap fun p => (fromSamples p.2).map fun stats => ⟨p.1.1, p.1.2, stats⟩

/-- The bounds and the mean of the buckets take the place of those of the windows. -/
def overall (acc : Acc) (total : RateStats) : RateStats :=
  let values := acc.bucketBps.toList.map Prod.snd
  if values.isEmpty then total
  else
    { minBps := (values.map WithTop.some).foldl min ⊤
      maxBps := values.foldl max 0
      avgBps := values.sum / (values.length : Rat)
      windows := values.length }

end Acc

/-! ## The report -/

/-- A database file: its path as displayed and as resolved, the tag and the hosts of its `config`. -/
structure DbFile where
  path : Str
  resolved : Option Str
  config : Option (Str × Str)

structure Report where
  dbPath : Str
  tag : Str
  hosts : List Str
  pairs : List PairStats
  total : RateStats
  deriving DecidableEq

def noMetrics (file : DbFile) : Str := "no metrics rows in ".toList ++ file.path

/-- `rows` are what the query on `metrics` returns; `hostsFromStr` is `serde_json::from_str`. -/
def load (J : PeersJson) (hostsFromStr : Str → Option (List Str)) (file : DbFile) (rows : List Row) :
    Except Str Report :=
  match file.config with
  | none => .error "read config row".toList
  | some (tag, hostsJson) =>
      let hosts := (hostsFromStr hostsJson).getD []
      match rows.foldlM (Acc.row J) .init with
      | .error e => .error e
      | .ok acc =>
          let pairs := acc.pairs
          match fromSamples acc.totalSamples with
          | none => .error (noMetrics file)
          | some total => .ok ⟨file.resolved.getD file.path, tag, hosts, pairs, acc.overall total⟩

end Tperf.Analyze

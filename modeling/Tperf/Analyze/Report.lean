import Tperf.Analyze.Basic
import Tperf.Lib.Word

/-!
# What the report prints of the pairs
-/

namespace Tperf.Analyze
open Lib

namespace Report

variable (r : Report)

/-- `n.saturating_mul(n.saturating_sub(1))`, on `usize`. -/
def expected : Nat := min (r.hosts.length * (r.hosts.length - 1)) (2 ^ 64 - 1)

def observed : Nat := r.pairs.length

end Report

/-- The order of the worst pairs; no rate is a NaN. -/
def PairStats.worse (a b : PairStats) : Bool :=
  a.stats.avgBps < b.stats.avgBps || a.stats.avgBps = b.stats.avgBps && a.stats.minBps ≤ b.stats.minBps

/-- `sort_by` is stable, as `mergeSort` is. -/
def Report.worst (r : Report) : List PairStats := (r.pairs.mergeSort PairStats.worse).take 5

end Tperf.Analyze

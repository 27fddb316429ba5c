import Mathlib.Data.Rat.Cast.Defs
import Tperf.Lib.Path
import Tperf.Proto.Basic

/-!
# The database file

The table of metrics, the thread that writes it, and the query that reads it back. A `REAL` is an exact
rational, an `INTEGER` an `i64`.
-/

namespace Tperf
open Lib Proto

namespace Db

/-- What the database uses of `serde_json`, for the peers of a window. -/
structure PeersJson where
  toString : List PeerMetrics → Str
  fromStr : Str → Option (List PeerMetrics)

/-! ## The table -/

/-- A row of the table `metrics`, without its number. -/
structure Row where
  tag : Str
  server : Str
  wallStartNs : Int64
  wallEndNs : Int64
  durationNs : Int64
  bytesSent : Int64
  bytesRecv : Int64
  sendBps : Rat
  recvBps : Rat
  packetsSent : Int64
  packetsRecv : Int64
  packetsDropped : Int64
  cpuPct : Rat
  memoryBytes : Int64
  peersJson : Str
  deriving DecidableEq

/-- The row that `insert_metric` adds. -/
def insertMetric (J : PeersJson) (tag : Str) (w : MetricWindow) : Row where
  tag := tag
  server := w.server
  wallStartNs := w.wallStartNs.toInt64
  wallEndNs := w.wallEndNs.toInt64
  durationNs := w.durationNs.toInt64
  bytesSent := w.bytesSent.toInt64
  bytesRecv := w.bytesRecv.toInt64
  sendBps := w.sendBps
  recvBps := w.recvBps
  packetsSent := w.packetsSent.toInt64
  packetsRecv := w.packetsRecv.toInt64
  packetsDropped := w.packetsDropped.toInt64
  cpuPct := w.cpuPct
  memoryBytes := w.memoryBytes.toInt64
  peersJson := J.toString w.peers

/-! ## The thread -/

inductive Event
  | metric (window : MetricWindow)
  | shutdown
  deriving DecidableEq

end Db

/-- The channel, the window that the thread has received and not inserted yet, the table, and what the thread
has returned. -/
structure Db where
  queue : List Db.Event
  taken : Option MetricWindow
  table : List Db.Row
  ended : Option (Except Str Unit)

namespace Db

/-- What `create` ensures of the path. -/
def ensurePath (path : Str) : Except Str Unit :=
  if extension path = some "db".toList then .ok ()
  else .error ("database path must end in .db, got ".toList ++ path)

def create : Db where
  queue := []
  taken := none
  table := []
  ended := none

/-- `tx.send(ev)`; when the thread has ended nobody receives. -/
def send (db : Db) (ev : Event) : Db :=
  if db.ended.isSome then db else { db with queue := db.queue ++ [ev] }

theorem send_open {db : Db} (h : db.ended = none) (ev : Event) :
    db.send ev = { db with queue := db.queue ++ [ev] } := by
  rw [send, if_neg (by rw [h]; exact Bool.false_ne_true)]

theorem send_ended {db : Db} {r : Except Str Unit} (h : db.ended = some r) (ev : Event) :
    db.send ev = db := by
  rw [send, if_pos (by rw [h]; rfl)]

/-- `DbHandle::insert`. -/
def insert (db : Db) (w : MetricWindow) : Db := db.send (.metric w)

/-- The thread inserts the window it has received, or it receives an event; `inserted` is what SQLite makes of
the insert. -/
def next (J : PeersJson) (tag : Str) (db : Db) (inserted : Except Str Unit) : Option Db :=
  if db.ended.isSome then none
  else match db.taken, db.queue with
    | some w, _ => match inserted with
        | .ok () => some { db with taken := none, table := db.table ++ [insertMetric J tag w] }
        | .error e => some { db with queue := [], taken := none, ended := some (.error e) }
    | none, .metric w :: queue => some { db with queue := queue, taken := some w }
    | none, .shutdown :: queue => some { db with queue := queue, ended := some (.ok ()) }
    | none, [] => none

/-- The events that have been sent and are not dealt with. -/
def pending (db : Db) : List Event := db.taken.toList.map .metric ++ db.queue

theorem send_pending {db : Db} (h : db.ended = none) (ev : Event) :
    (db.send ev).pending = db.pending ++ [ev] := by
  rw [send_open h, pending, pending, List.append_assoc]

/-- What a step of the thread can do. -/
inductive Next (J : PeersJson) (tag : Str) (db : Db) : Except Str Unit → Db → Prop
  | inserted (w : MetricWindow) (htaken : db.taken = some w) :
      Next J tag db (.ok ()) { db with taken := none, table := db.table ++ [insertMetric J tag w] }
  | failed (w : MetricWindow) (e : Str) (htaken : db.taken = some w) :
      Next J tag db (.error e) { db with queue := [], taken := none, ended := some (.error e) }
  | received (r : Except Str Unit) (w : MetricWindow) (queue : List Event) (htaken : db.taken = none)
      (hqueue : db.queue = .metric w :: queue) : Next J tag db r { db with queue := queue, taken := some w }
  | shut (r : Except Str Unit) (queue : List Event) (htaken : db.taken = none)
      (hqueue : db.queue = .shutdown :: queue) :
      Next J tag db r { db with queue := queue, ended := some (.ok ()) }

theorem next_cases {J : PeersJson} {tag : Str} {db db' : Db} {r : Except Str Unit}
    (h : db.next J tag r = some db') : db.ended = none ∧ Next J tag db r db' := by
  rw [next] at h
  split at h
  · cases h
  · rename_i hended
    refine ⟨by simpa using hended, ?_⟩
    split at h
    · split at h
      · cases h; exact .inserted _ ‹_›
      · cases h; exact .failed _ _ ‹_›
    · cases h; exact .received r _ _ ‹_› ‹_›
    · cases h; exact .shut r _ ‹_› ‹_›
    · cases h

/-! ## The query -/

/-- `ORDER BY wall_start_ns, server`. -/
def orderBy : Row → Row → Ordering := compareLex (compareOn Row.wallStartNs) (compareOn Row.server)

/-- `rows` is a result of the query on `table`. -/
structure Select (table rows : List Row) : Prop where
  perm : rows.Perm table
  sorted : rows.Pairwise fun a b => (orderBy a b).isLE

end Db

end Tperf

import Tperf.Db.Basic
import Tperf.Lib.Machine

/-!
# The thread behind the handles

`Db::create` starts a thread that sets the file up and then takes events from the channel; any number of
handles send windows to it. `Db` keeps a sender until `shutdown` has joined the thread, so `recv` fails
in no run.
-/

namespace Tperf.Db
open Lib Proto

/-- What SQLite makes of the calls of the thread. -/
structure Sqlite where
  /-- `Connection::open` -/
  opened : Except Str Unit
  /-- `conn.execute_batch` -/
  schema : Except Str Unit
  /-- `INSERT INTO config` -/
  config : Except Str Unit
  /-- `insert_metric`, when `n` windows are in the table -/
  insert (n : Nat) (w : MetricWindow) : Except Str Unit

/-- The calls before the first event. -/
inductive Stage
  | opening
  | schema
  | config
  | receiving
  deriving DecidableEq, Repr

structure Thread where
  db : Db
  stage : Stage
  handles : Nat
  /-- `shutdown` has been called. -/
  closing : Bool
  /-- What `shutdown` has returned. -/
  returned : Option (Except Str Unit)

inductive ThreadLabel
  /-- `Db::handle` -/
  | handle
  /-- The `h`-th handle is cloned. -/
  | clone (h : Nat)
  /-- `DbHandle::insert` on the `h`-th handle. -/
  | insert (h : Nat) (w : MetricWindow)
  /-- `shutdown` sends its event. -/
  | shutdown
  /-- The thread makes its next call of SQLite, or receives an event. -/
  | thread
  /-- `join` returns. -/
  | join

namespace Thread

def init : Thread where
  db := create
  stage := .opening
  handles := 0
  closing := false
  returned := none

/-- A `?` of the thread before the first event. -/
def call (s : Thread) (result : Except Str Unit) (stage : Stage) : Thread :=
  match result with
  | .ok () => { s with stage := stage }
  | .error e => { s with db := { s.db with queue := [], ended := some (.error e) } }

/-- The thread has not ended, and does the next thing. -/
def advance (Q : Sqlite) (J : PeersJson) (tag : Str) (s : Thread) : Option Thread :=
  match s.stage with
  | .opening => some (s.call Q.opened .schema)
  | .schema => some (s.call Q.schema .config)
  | .config => some (s.call Q.config .receiving)
  | .receiving => match s.db.taken with
      | some w => (s.db.next J tag (Q.insert s.db.table.length w)).map fun db => { s with db := db }
      | none => (s.db.next J tag (.ok ())).map fun db => { s with db := db }

def step (Q : Sqlite) (J : PeersJson) (tag : Str) (s : Thread) : ThreadLabel → Option Thread
  | .handle => if s.closing then none else some { s with handles := s.handles + 1 }
  | .clone h => if h < s.handles then some { s with handles := s.handles + 1 } else none
  | .insert h w => if h < s.handles then some { s with db := s.db.insert w } else none
  | .shutdown => if s.closing then none else some { s with db := s.db.send .shutdown, closing := true }
  | .thread => if s.db.ended.isSome then none else advance Q J tag s
  | .join =>
      if s.closing ∧ s.returned = none then
        s.db.ended.map fun r => { s with returned := some r }
      else none

def machine (Q : Sqlite) (J : PeersJson) (tag : Str) : Machine Thread ThreadLabel where
  step := step Q J tag

end Thread

/-! ## What the thread is for -/

/-- The event that a label sends to the channel. -/
def ThreadLabel.event : ThreadLabel → Option Event
  | .insert _ w => some (.metric w)
  | .shutdown => some .shutdown
  | _ => none

/-- The windows that come before the first shutdown event. -/
def beforeShutdown : List Event → List MetricWindow
  | .metric w :: evs => w :: beforeShutdown evs
  | .shutdown :: _ => []
  | [] => []

/-- The events sent, in channel order. -/
def sent (ls : List ThreadLabel) : List Event := ls.filterMap ThreadLabel.event

def sentBefore (ls : List ThreadLabel) : List MetricWindow := beforeShutdown (sent ls)

namespace Sqlite

variable (Q : Sqlite)

def setup : Except Str Unit := Q.opened >>= fun _ => Q.schema >>= fun _ => Q.config

/-- The windows before the first one whose insert fails. -/
def good (ws : List MetricWindow) : List MetricWindow :=
  (ws.zipIdx.takeWhile fun p => (Q.insert p.2 p.1).isOk).map Prod.fst

def stored (ws : List MetricWindow) : List MetricWindow := if Q.setup.isOk then Q.good ws else []

/-- No insert of these windows fails. -/
def AllGood (ws : List MetricWindow) : Prop := ∀ p ∈ ws.zipIdx, Q.insert p.2 p.1 = .ok ()

end Sqlite

end Tperf.Db

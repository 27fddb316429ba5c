import Tperf.Client.Pump
import Tperf.Db.Basic
import Tperf.Lib.Machine
import Tperf.Testplan.Basic

/-!
# A run of the client

The main task of `run` with its rounds, the reader tasks, the thread of the database, and the servers as
far as the client can tell. A label is a choice of the environment: which of them moves, what a call
returns, when a deadline has passed. A start is represented by its round.
-/

namespace Tperf.Client
open Lib Proto Testplan

/-! ## State -/

/-- A control connection: the server at its far end, and the reader of this end. -/
structure Conn where
  /-- The starts that the server has not read. -/
  inbox : List Nat
  /-- The start that it has read and not answered. -/
  busy : Option Nat
  /-- The round whose assignment it runs. -/
  running : Option Nat
  /-- History: the starts that it acknowledged, in order. -/
  acked : List Nat
  /-- What it has sent and the reader has not read. -/
  outbox : List Msg
  reader : Pump
  aborted : Bool

namespace Conn

def connect (host : Str) : Conn where
  inbox := []
  busy := none
  running := none
  acked := []
  outbox := []
  reader := .init host
  aborted := false

/-- The reader task has not ended. -/
def live (c : Conn) : Bool := c.reader.ended.isNone && !c.aborted

/-- A start is written. -/
def start (round : Nat) (c : Conn) : Conn := { c with inbox := c.inbox ++ [round] }

/-- The server stops its test for the start it reads. -/
def serve (c : Conn) : Option Conn :=
  match c.busy, c.inbox with
  | none, round :: inbox => some { c with inbox := inbox, busy := some round, running := none }
  | _, _ => none

/-- The server answers the start it has read. -/
def reply (c : Conn) (r : Except Str Unit) : Option Conn :=
  match c.busy with
  | none => none
  | some round => match r with
      | .ok () => some { c with
          busy := none
          running := some round
          acked := c.acked ++ [round]
          outbox := c.outbox ++ [startAck] }
      | .error message => some { c with busy := none, outbox := c.outbox ++ [.error message] }

/-- The server sends anything else. -/
def send (m : Msg) (c : Conn) : Conn := { c with outbox := c.outbox ++ [m] }

/-- The reader has read `m`. -/
def read (m : Msg) (c : Conn) : Conn := { c with outbox := c.outbox.tail, reader := c.reader.recv m }

def readErr (c : Conn) : Conn := { c with reader := c.reader.recvErr }

def abort (c : Conn) : Conn := { c with aborted := true }

end Conn

inductive Pc
  | connecting
  /-- The head of the loop over the rounds. -/
  | nextRound
  /-- `send_starts` has written to `k` servers. -/
  | sending (k : Nat)
  /-- The first loop of `wait_round`. -/
  | waiting
  | traffic
  /-- `cancel.cancelled().await` in mesh mode. -/
  | mesh
  /-- A stop has been written to `k` servers. -/
  | stopping (k : Nat)
  | draining
  | aborting
  /-- `db.shutdown()` is next. -/
  | closing
  | joining
  | returned (r : Except Str Unit)
  | exited (r : Except Str Unit)
  deriving DecidableEq

structure Run where
  pc : Pc
  conns : List Conn
  /-- The number of calls of `send_starts`. -/
  round : Nat
  startAcks : Nat
  cancelled : Bool
  db : Db
  /-- History: the windows passed to `DbHandle::insert` before `run` returned, and after. -/
  passed : List MetricWindow
  late : List MetricWindow

namespace Run

def init : Run where
  pc := .connecting
  conns := []
  round := 0
  startAcks := 0
  cancelled := false
  db := .create
  passed := []
  late := []

def goto (s : Run) (pc : Pc) : Run := { s with pc := pc }

def onConn (s : Run) (i : Nat) (f : Conn → Conn) : Run := { s with conns := s.conns.modify i f }

/-- `send_starts` is called. -/
def beginRound (s : Run) : Run := { s with round := s.round + 1, startAcks := 0, pc := .sending 0 }

def returned (s : Run) : Bool :=
  match s.pc with
  | .returned _ | .exited _ => true
  | _ => false

/-- `db.insert(window)`. -/
def pass (s : Run) (w : MetricWindow) : Run :=
  { s with
    db := s.db.insert w
    passed := if s.returned then s.passed else s.passed ++ [w]
    late := if s.returned then s.late ++ [w] else s.late }

/-- What a message read does outside its reader. -/
def effect (s : Run) (m : Msg) : Run :=
  match m with
  | .metrics window => s.pass window
  | m => if m = startAck then { s with startAcks := s.startAcks + 1 } else s

/-- The readers left are gone. -/
def abortAll (s : Run) : Run := { s with conns := s.conns.map Conn.abort }

/-- The main task goes on by itself. -/
def main (cfg : Config) (s : Run) : Option Run :=
  match s.pc with
  | .connecting =>
      if s.conns.length < cfg.hostlist.length then none
      else match cfg.testType with
        | .pairs => some (s.goto .nextRound)
        | .mesh => some s.beginRound
  | .nextRound =>
      if s.cancelled then some (s.goto (.stopping 0))
      else if (roundRobinRounds cfg.hostlist).isEmpty then some s
      else some s.beginRound
  | .sending k =>
      if k < s.conns.length then none
      else match cfg.testType with
        | .pairs => some (s.goto .waiting)
        | .mesh => some (s.goto .mesh)
  | .mesh => if s.cancelled then some (s.goto (.stopping 0)) else none
  | .stopping k => if k < s.conns.length then none else some (s.goto .draining)
  | .draining => if s.conns.any Conn.live then none else some (s.goto .closing)
  | .aborting => some (s.abortAll.goto .closing)
  | .closing => some ({ s with db := s.db.send .shutdown }.goto .joining)
  | .joining => s.db.ended.map fun r => s.goto (.returned r)
  | .returned r => some (s.goto (.exited r))
  | .waiting | .traffic | .exited _ => none

/-- One look at `start_acks` in `wait_round`; `expired` says that the deadline has passed. -/
def poll (s : Run) (expired : Bool) : Run :=
  if s.startAcks < s.conns.length then
    if s.cancelled then s.goto .nextRound
    else if expired then s.goto .traffic
    else s
  else s.goto .traffic

end Run

/-! ## Steps -/

inductive RunLabel
  | connect
  /-- A host is not resolved, or not reached. -/
  | connectErr (e : Str)
  | main
  | sendStart
  | sendStartErr (e : Str)
  | poll (expired : Bool)
  /-- The traffic of a round is over, or cancelled. -/
  | slept
  | sendStop
  | drainTimeout
  | cancel
  | serve (i : Nat)
  | reply (i : Nat) (r : Except Str Unit)
  | send (i : Nat) (m : Msg)
  | read (i : Nat)
  | readErr (i : Nat)
  | db (inserted : Except Str Unit)
  deriving DecidableEq

open Run in
def run (cfg : Config) (J : Db.PeersJson) : Machine Run RunLabel where
  step s
    | .connect => match s.pc, cfg.hostlist[s.conns.length]? with
        | .connecting, some host => some { s with conns := s.conns ++ [.connect host] }
        | _, _ => none
    | .connectErr e => match s.pc with
        | .connecting => some (s.goto (.returned (.error e)))
        | _ => none
    | .main => s.main cfg
    | .sendStart => match s.pc with
        | .sending k =>
            if k < s.conns.length then some ((s.onConn k (.start s.round)).goto (.sending (k + 1)))
            else none
        | _ => none
    | .sendStartErr e => match s.pc with
        | .sending k => (s.conns[k]?).map fun c =>
            s.goto (.returned (.error ("send start to ".toList ++ c.reader.name ++ ": ".toList ++ e)))
        | _ => none
    | .poll expired => match s.pc with
        | .waiting => some (s.poll expired)
        | _ => none
    | .slept => match s.pc with
        | .traffic => some (s.goto .nextRound)
        | _ => none
    | .sendStop => match s.pc with
        | .stopping k => if k < s.conns.length then some (s.goto (.stopping (k + 1))) else none
        | _ => none
    | .drainTimeout => match s.pc with
        | .draining => some (s.goto .aborting)
        | _ => none
    | .cancel => match s.pc with
        | .exited _ => none
        | _ => some { s with cancelled := true }
    | .serve i => match s.conns[i]?.bind Conn.serve with
        | some c => some (s.onConn i fun _ => c)
        | none => none
    | .reply i r => match s.conns[i]?.bind (Conn.reply · r) with
        | some c => some (s.onConn i fun _ => c)
        | none => none
    | .send i m => some (s.onConn i (.send m))
    | .read i => match s.pc, s.conns[i]? with
        | .exited _, _ => none
        | _, some c => match c.live, c.outbox with
            | true, m :: _ => some ((s.onConn i (.read m)).effect m)
            | _, _ => none
        | _, none => none
    | .readErr i => match s.pc with
        | .exited _ => none
        | _ => some (s.onConn i fun c => if c.live then c.readErr else c)
    | .db inserted => match s.pc with
        | .exited _ => none
        | _ => (s.db.next J cfg.tag inserted).map fun db => { s with db := db }

end Tperf.Client

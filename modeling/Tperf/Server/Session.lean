import Tperf.Lib.Machine
import Tperf.Proto.Frame
import Tperf.Server.Start

/-!
# A control session of the server

`handle_conn` and the metrics tasks of its tests, which write to one socket behind one lock. A label
is a choice of the environment: what arrives, which step of `start_test` fails, who gets the lock, how
much of a frame the socket takes, when a timer fires.
-/

namespace Tperf.Server
open Lib Proto

/-! ## State -/

/-- What `handle_conn` writes: the reply to a start that made a test, to one that failed, to a stop. -/
inductive Reply
  | started (test : Nat)
  | failed (message : Str)
  | stopped
  deriving DecidableEq, Repr

def Reply.msg : Reply → Msg
  | .started _ => .ack "start".toList
  | .failed message => .error message
  | .stopped => .ack "stop".toList

/-- A message with its writer: `handle_conn`, or the metrics task of a test. -/
inductive Sent
  | reply (r : Reply)
  | metrics (test : Nat) (window : MetricWindow)
  deriving DecidableEq

def Sent.msg : Sent → Msg
  | .reply r => r.msg
  | .metrics _ window => .metrics window

inductive MetricsPc
  | waiting
  | emitting (window : MetricWindow)
  | done
  deriving DecidableEq

/-- A test that `start_test` returned: its token and its `JoinSet`. -/
structure RunningTest where
  cancelled : Bool
  /-- The data-plane tasks that have not ended. -/
  io : List IoTask
  metrics : MetricsPc
  /-- `stop` has joined the tasks. -/
  joined : Bool
  deriving DecidableEq

/-- What `handle_conn` does when `RunningTest::stop` returns. -/
inductive After
  | startTest (config : Config) (assignment : Assignment)
  | ackStop
  | finish
  deriving DecidableEq, Repr

inductive MainPc
  | reading
  | stopWait (test : Nat) (k : After)
  | stopJoin (test : Nat) (k : After)
  | starting (ops : List StartOp) (spawned : List IoTask)
  | replying (r : Reply)
  | returned
  deriving DecidableEq, Repr

def After.pc : After → MainPc
  | .startTest config assignment => .starting (Server.startTest config assignment) []
  | .ackStop => .replying .stopped
  | .finish => .returned

structure Session where
  pc : MainPc
  /-- The variable `test`; a test is its number in `tests`. -/
  test : Option Nat
  /-- Every test that `start_test` returned. -/
  tests : List RunningTest
  /-- The tasks that a failed `start_test` had spawned. -/
  orphans : List IoTask
  /-- What the owner of the lock writes, and how many bytes of its frame the socket has taken. -/
  lock : Option (Sent × Nat)
  out : List UInt8
  /-- The socket has reported an error. -/
  sockErr : Bool
  /-- History: the messages whose frames have been written to the end. -/
  sent : List Sent
  /-- History: the messages that `read_frame` returned. -/
  requests : List Msg
  /-- History: the test or the error that each call of `start_test` returned. -/
  outcomes : List (Except Str Nat)

namespace Session

def init : Session where
  pc := .reading
  test := none
  tests := []
  orphans := []
  lock := none
  out := []
  sockErr := false
  sent := []
  requests := []
  outcomes := []

def goto (s : Session) (pc : MainPc) : Session := { s with pc := pc }

def onTest (s : Session) (i : Nat) (f : RunningTest → RunningTest) : Session :=
  { s with tests := s.tests.modify i f }

def setMetrics (s : Session) (i : Nat) (pc : MetricsPc) : Session :=
  s.onTest i fun t => { t with metrics := pc }

/-! ## `handle_conn` -/

/-- `t.stop().await`, which first cancels. -/
def stop (s : Session) (i : Nat) (k : After) : Session :=
  (s.onTest i fun t => { t with cancelled := true }).goto (.stopWait i k)

/-- `if let Some(t) = test.take() { t.stop().await; }` and what follows. -/
def stopThen (s : Session) (k : After) : Session :=
  match s.test with
  | none => s.goto k.pc
  | some i => { s with test := none }.stop i k

/-- A message has been read. -/
def recv (s : Session) (m : Msg) : Session :=
  let s := { s with requests := s.requests ++ [m] }
  match m with
  | .start config assignment => s.stopThen (.startTest config assignment)
  | .stop => s.stopThen .ackStop
  | _ => s

/-- `start_test` has returned a test. -/
def started (s : Session) (spawned : List IoTask) : Session :=
  { s with
    pc := .replying (.started s.tests.length)
    tests := s.tests ++ [⟨false, spawned, .waiting, false⟩]
    outcomes := s.outcomes ++ [.ok s.tests.length] }

/-- `start_test` has failed, and its `JoinSet` is dropped. -/
def startFailed (s : Session) (spawned : List IoTask) (message : Str) : Session :=
  { s with
    pc := .replying (.failed message)
    orphans := s.orphans ++ spawned
    outcomes := s.outcomes ++ [.error message] }

/-- The write of a reply has ended. -/
def replied (s : Session) (ok : Bool) : Reply → Session
  | .started i => if ok then { s with test := some i, pc := .reading } else s.stop i .finish
  | .failed _ => s.goto .reading
  | .stopped => s.goto (if ok then .reading else .returned)

/-- `write_frame_locked` has returned to its caller. -/
def wrote (s : Session) (ok : Bool) : Sent → Session
  | .reply r => s.replied ok r
  | .metrics i _ => s.setMetrics i .waiting

/-- The writer of `x` has the lock. A frame that is too large gives it back at once. -/
def locked (J : SerdeJson) (s : Session) (x : Sent) : Session :=
  match writeFrame J x.msg with
  | .ok _ => { s with lock := some (x, 0) }
  | .error _ => s.wrote false x

/-- The tasks of the test are joined, and with its metrics task its hold on the lock is gone. -/
def joined (s : Session) (i : Nat) (k : After) : Session :=
  { s with
    pc := k.pc
    tests := s.tests.modify i fun t => { t with io := [], metrics := .done, joined := true }
    lock := match s.lock with
      | some (.metrics j w, n) => if j = i then none else some (.metrics j w, n)
      | l => l }

end Session

/-! ## Steps -/

inductive SessionLabel
  | recv (m : Msg)
  /-- `read_frame` fails. -/
  | recvErr
  /-- `start_test` goes one step on. -/
  | startStep
  | startErr (message : Str)
  /-- A target is not resolved. -/
  | startSkip
  /-- `handle_conn` gets the lock. -/
  | lockMain
  /-- The metrics task of a test gets the lock. -/
  | lockMetrics (test : Nat)
  /-- The socket takes `k` more bytes. -/
  | write (k : Nat)
  | writeErr
  /-- A window closes. -/
  | emit (test : Nat) (window : MetricWindow)
  /-- The metrics task sees the cancellation and returns. -/
  | metricsDone (test : Nat)
  /-- A data-plane task ends. -/
  | ioDone (test task : Nat)
  /-- `metrics_done` is received. -/
  | stopDone
  /-- The two seconds are over. -/
  | stopTimeout
  /-- `abort_all` has taken effect and all tasks are joined. -/
  | joined
  deriving DecidableEq

open Session in
def session (J : SerdeJson) : Machine Session SessionLabel where
  step s
    | .recv m => match s.pc with
        | .reading => some (s.recv m)
        | _ => none
    | .recvErr => match s.pc with
        | .reading => some (s.stopThen .finish)
        | _ => none
    | .startStep => match s.pc with
        | .starting [] spawned => some (s.started spawned)
        | .starting (.check _ :: ops) spawned => some (s.goto (.starting ops spawned))
        | .starting (.spawn task :: ops) spawned => some (s.goto (.starting ops (spawned ++ [task])))
        | .starting (.target tasks :: ops) spawned => some (s.goto (.starting ops (spawned ++ tasks)))
        | _ => none
    | .startErr message => match s.pc with
        | .starting (.check _ :: _) spawned => some (s.startFailed spawned message)
        | _ => none
    | .startSkip => match s.pc with
        | .starting (.target _ :: ops) spawned => some (s.goto (.starting ops spawned))
        | _ => none
    | .lockMain => match s.lock, s.pc with
        | none, .replying r => some (s.locked J (.reply r))
        | _, _ => none
    | .lockMetrics i => match s.lock, s.tests[i]? with
        | none, some ⟨_, _, .emitting window, _⟩ => some (s.locked J (.metrics i window))
        | _, _ => none
    | .write k => match s.lock with
        | none => none
        | some (x, n) =>
            let bs := frame (J.toVec x.msg)
            if k = 0 ∨ bs.length < n + k then none
            else
              let s := { s with out := s.out ++ (bs.drop n).take k }
              if n + k < bs.length then some { s with lock := some (x, n + k) }
              else some ({ s with lock := none, sent := s.sent ++ [x] }.wrote true x)
    | .writeErr => match s.lock with
        | none => none
        | some (x, _) => some ({ s with lock := none, sockErr := true }.wrote false x)
    | .emit i window => match s.tests[i]? with
        | some ⟨_, _, .waiting, _⟩ => some (s.setMetrics i (.emitting window))
        | _ => none
    | .metricsDone i => match s.tests[i]? with
        | some ⟨true, _, .waiting, _⟩ => some (s.setMetrics i .done)
        | _ => none
    | .ioDone i j => some (s.onTest i fun t => { t with io := t.io.eraseIdx j })
    | .stopDone => match s.pc with
        | .stopWait i k => match s.tests[i]? with
            | some ⟨_, _, .done, _⟩ => some (s.goto (.stopJoin i k))
            | _ => none
        | _ => none
    | .stopTimeout => match s.pc with
        | .stopWait i k => some (s.goto (.stopJoin i k))
        | _ => none
    | .joined => match s.pc with
        | .stopJoin i k => some (s.joined i k)
        | _ => none

end Tperf.Server

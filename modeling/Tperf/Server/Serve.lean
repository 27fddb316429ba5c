import Tperf.Server.Session

/-!
# The loop of `run` over the connections

`tcp_accept_loop` puts the receive task of a connection on the runtime, not into the `JoinSet` of the test:
`stop` does not wait for it, and it may outlive its test and its session.
-/

namespace Tperf.Server
open Lib Proto

/-- The data-plane tasks of a test, which may run before `start_test` returns it. -/
def Session.ioOf (s : Session) (i : Nat) : List IoTask :=
  match s.tests[i]?, s.pc with
  | some u, _ => u.io
  | none, .starting _ spawned => if i = s.tests.length then spawned else []
  | none, _ => []

structure Serving where
  /-- History: the sessions that have ended, in order. -/
  past : List Session
  /-- The session of `handle_conn`. -/
  current : Option Session
  /-- The receive tasks of connections that have not ended: of which session each is, and of which test. -/
  receivers : List (Nat × Nat)
  /-- `accept` has failed, and `run` with it. -/
  ended : Bool

inductive ServingLabel
  | accept
  | acceptErr
  | session (l : SessionLabel)
  /-- The accept task of a test gets a connection and spawns its receive task. -/
  | connect (test : Nat)
  /-- A receive task sees the cancellation, or its connection ends. -/
  | received (k : Nat)

namespace Serving

def init : Serving where
  past := []
  current := none
  receivers := []
  ended := false

def sessions (s : Serving) : List Session := s.past ++ s.current.toList

/-- Every test of the server. -/
def tests (s : Serving) : List RunningTest := s.sessions.flatMap Session.tests

/-- The test of a receive task. -/
def testOf (s : Serving) (r : Nat × Nat) : Option RunningTest := do
  let t ← s.sessions[r.1]?
  t.tests[r.2]?

/-- The session is now `t`. -/
def goOn (s : Serving) (t : Session) : Serving :=
  if t.pc = .returned then { s with past := s.past ++ [t], current := none }
  else { s with current := some t }

end Serving

def serving (J : SerdeJson) : Machine Serving ServingLabel where
  step s
    | .accept =>
        if s.ended = false ∧ s.current.isNone then some { s with current := some .init } else none
    | .acceptErr => if s.ended = false ∧ s.current.isNone then some { s with ended := true } else none
    | .session l => do
        let t ← s.current
        let t ← (session J).step t l
        some (s.goOn t)
    | .connect i => do
        let t ← s.current
        if .accept ∈ t.ioOf i then some { s with receivers := s.receivers ++ [(s.past.length, i)] } else none
    | .received k =>
        if k < s.receivers.length then some { s with receivers := s.receivers.eraseIdx k } else none

end Tperf.Server

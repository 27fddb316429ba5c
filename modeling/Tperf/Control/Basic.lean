import Tperf.Client.Run
import Tperf.Net.Display
import Tperf.Server.Session

/-!
# The client and its servers

The client of `Client.Run` with a session of the server at the far end of each connection. What one end
writes is bytes, and what the other end reads is what `read_frame` makes of them. The fields of a
connection of the client that stand for its far end are not used here.
-/

namespace Tperf.Control
open Lib Proto Client Server Testplan Net Dataplane

/-! ## What the client sends -/

structure Setup where
  cfg : Config
  /-- The addresses that `run` has resolved, one for each host. -/
  resolved : List SocketAddr
  serde : SerdeJson
  peers : Db.PeersJson

namespace Setup

/-- What the `round`-th call of `send_starts` sends. In pairs mode the rounds of the tournament are taken
in turn, again and again. -/
def assignments (D : Setup) (round : Nat) : Outcome Empty (List Assignment) :=
  match D.cfg.testType with
  | .mesh => fillResolved showSocketAddr D.resolved (assignmentsMesh D.cfg.hostlist)
  | .pairs =>
      let rounds := roundRobinRounds D.cfg.hostlist
      Outcome.index rounds ((round - 1) % rounds.length) >>= fun pairs =>
      roundAssignments showSocketAddr D.resolved D.cfg.hostlist pairs

/-- The start for host `k`. -/
def start (D : Setup) (round k : Nat) : Option Msg :=
  match D.assignments round with
  | .ok asg => (asg[k]?).map (Msg.start D.cfg)
  | _ => none

theorem start_eq (D : Setup) {round k : Nat} {m : Msg} (h : D.start round k = some m) :
    ∃ a, m = .start D.cfg a := by
  unfold start at h
  split at h
  · obtain ⟨a, -, rfl⟩ := Option.map_eq_some_iff.mp h
    exact ⟨a, rfl⟩
  · cases h

end Setup

/-! ## State -/

/-- A control connection. -/
structure Link where
  /-- What the client has written, and how much of it the server has read. -/
  up : List UInt8
  upRead : Nat
  session : Session
  /-- How much of what the server has written the client has read. -/
  downRead : Nat
  /-- History: the messages that the client has written to the end. -/
  written : List Msg
  /-- History: the messages that the reader has read. -/
  got : List Msg

namespace Link

def init : Link where
  up := []
  upRead := 0
  session := .init
  downRead := 0
  written := []
  got := []

/-- `write_frame` has succeeded. -/
def write (J : SerdeJson) (m : Msg) (L : Link) : Link :=
  { L with up := L.up ++ frame (J.toVec m), written := L.written ++ [m] }

/-- `write_frame` has failed with `n` bytes of the frame written; not with all of them. -/
def tear (J : SerdeJson) (m : Msg) (n : Nat) (L : Link) : Link :=
  match writeFrame J m with
  | .ok bs => { L with up := L.up ++ bs.dropLast.take n }
  | .error _ => L

/-- The reader has read `m`, and `left` bytes are behind it. -/
def take (m : Msg) (left : Nat) (L : Link) : Link :=
  { L with downRead := L.session.out.length - left, got := L.got ++ [m] }

/-- The session takes a step. It receives what the client has written, and a socket that has reported an
error takes nothing more. -/
def serve (J : SerdeJson) (L : Link) : SessionLabel → Option Link
  | .recv m => match readFrame J (L.up.drop L.upRead) with
      | .ok (m', rest) =>
          if m' = m then ((Server.session J).step L.session (.recv m)).map fun s =>
            { L with session := s, upRead := L.up.length - rest.length }
          else none
      | .error _ => none
  | .write k =>
      if L.session.sockErr then none
      else ((Server.session J).step L.session (.write k)).map fun s => { L with session := s }
  | l => ((Server.session J).step L.session l).map fun s => { L with session := s }

end Link

structure World where
  client : Run
  links : List Link

namespace World

def init : World := ⟨.init, []⟩

def onLink (W : World) (i : Nat) (f : Link → Link) : World := { W with links := W.links.modify i f }

/-- The client takes a step, and does `f` to connection `i`. -/
def advance (D : Setup) (W : World) (l : RunLabel) (i : Nat) (f : Link → Link) : Option World :=
  ((run D.cfg D.peers).step W.client l).map fun s => { W with client := s }.onLink i f

end World

/-- The reader of connection `i` reads `m`. -/
def receive (s : Run) (i : Nat) (m : Msg) : Option Run :=
  match s.pc, s.conns[i]? with
  | .exited _, _ => none
  | _, some c => if c.live then some ((s.onConn i (.read m)).effect m) else none
  | _, none => none

/-! ## Steps -/

inductive WorldLabel
  /-- A step of the client in which no message is written or read. -/
  | client (l : RunLabel)
  | sendStart
  | sendStartErr (e : Str) (n : Nat)
  | sendStop
  /-- A stop is not written to the end, which `run` only reports. -/
  | sendStopErr (n : Nat)
  | server (i : Nat) (l : SessionLabel)
  | read (i : Nat)
  deriving DecidableEq

/-- The steps of the client in which no message is written or read. -/
def own : RunLabel → Bool
  | .sendStart | .sendStartErr _ | .sendStop | .serve _ | .reply _ _ | .send _ _ | .read _ => false
  | _ => true

/-- A connection comes with a session. -/
def newLinks : RunLabel → List Link
  | .connect => [.init]
  | _ => []

def world (D : Setup) : Machine World WorldLabel where
  step W
    | .client l =>
        if own l then ((run D.cfg D.peers).step W.client l).map fun s => ⟨s, W.links ++ newLinks l⟩
        else none
    | .sendStart => match W.client.pc with
        | .sending k => (D.start W.client.round k).bind fun m =>
            if (writeFrame D.serde m).isOk then W.advance D .sendStart k (.write D.serde m) else none
        | _ => none
    | .sendStartErr e n => match W.client.pc with
        | .sending k => (D.start W.client.round k).bind fun m =>
            W.advance D (.sendStartErr e) k (.tear D.serde m n)
        | _ => none
    | .sendStop => match W.client.pc with
        | .stopping k =>
            if (writeFrame D.serde .stop).isOk then W.advance D .sendStop k (.write D.serde .stop) else none
        | _ => none
    | .sendStopErr n => match W.client.pc with
        | .stopping k => W.advance D .sendStop k (.tear D.serde .stop n)
        | _ => none
    | .server i l => (W.links[i]?.bind (Link.serve D.serde · l)).map fun L => W.onLink i fun _ => L
    | .read i => W.links[i]?.bind fun L =>
        match readFrame D.serde (L.session.out.drop L.downRead) with
        | .ok (m, rest) => (receive W.client i m).map fun s =>
            { W with client := s }.onLink i (.take m rest.length)
        | .error _ => none

end Tperf.Control

import Tperf.Config.Validate
import Tperf.Dataplane.Checked
import Tperf.Lib.Machine
import Tperf.Net.Resolve

/-!
# `start_test` with its values

What `start_test` computes on its way, up to the loops that it spawns and beyond. A label is what the
environment answers: the lookups, the sockets, the choice of the task that runs. A panic is a state.
-/

namespace Tperf.Server
open Lib Proto Config Net Dataplane

/-- The errors of `start_test`. -/
inductive StartError
  /-- `config from client` -/
  | config (e : ConfigError)
  | addr (e : AddrError)
  /-- `cannot determine bind address for {}` -/
  | bind (selfName : Str) (e : ResolveError)
  /-- The error of `tcp_listen` or `udp_bind`. -/
  | socket (message : Str)
  | payload (message : Str)
  deriving DecidableEq, Repr

inductive Launch
  /-- `resolve_retry` in `resolve_bind`. -/
  | resolving (port : UInt16) (family : Option AddrFamily) (delay : Nat)
  /-- The bind address is known. -/
  | binding (port : UInt16) (family : Option AddrFamily) (bindAddr : SocketAddr)
  /-- `build_ip_map` -/
  | mapping (port : UInt16) (family : Option AddrFamily)
  /-- The UDP tasks run, the receive task with its buffer, while `delay` is that of the next target. -/
  | udp (family : Option AddrFamily) (payload : Payload) (buf : List UInt8) (io : UdpIo) (delay : Nat)
  /-- The TCP tasks run; `delays` are those of the send tasks that connect. -/
  | tcp (payload : Payload) (ipToId : IpAddr → Option UInt32) (io : TcpIo) (delays : Nat → Nat)
  | failed (e : StartError)
  | panicked

inductive LaunchLabel
  /-- A turn of `resolve_bind`; `locals` is what `local_unicast_ips` returns. -/
  | turn (t : Turn) (locals : List IpAddr)
  /-- `tcp_listen` or `udp_bind` returns. -/
  | socket (result : Except Str Unit)
  /-- The lookups of `build_ip_map`. -/
  | map (lookup : Nat → Str → Option (List SocketAddr))
  /-- A turn for the next UDP target. -/
  | target (t : Turn)
  | send (l : SenderLabel)
  | recv (l : RecvLabel)
  | tcp (l : TcpIoLabel)
  /-- A send task could not connect, and sleeps. -/
  | sleep (i : Nat)

namespace Launch

/-- Where a call that ends so leads. -/
def ofOutcome {α : Type} (f : α → Launch) : Outcome StartError α → Launch
  | .ok a => f a
  | .err e => .failed e
  | .panic => .panicked

/-- The checks, the two accessors, and the bind address of the assignment if it is one. -/
def init (cfg : Config) (assignment : Assignment) : Launch :=
  ofOutcome (fun (port, family) =>
    match if assignment.bind = [] then none else parseSocketAddr assignment.bind with
    | some a => .binding port family a
    | none => .resolving port family firstDelay) do
  (validate cfg).mapErr .config
  let family ← (testFamily cfg).mapErr .addr
  let port ← (testPort cfg).mapErr .addr
  .ok (port, family)

/-- What `resolve_bind` does with the outcome of `resolve_retry`. -/
def bound (assignment : Assignment) (port : UInt16) (family : Option AddrFamily) (locals : List IpAddr)
    (resolved : Option SocketAddr) : Launch :=
  match resolved.filter fun a => !isLoopback a.ip || isLoopbackHost assignment.selfName with
  | some a => .binding port family a
  | none =>
      ofOutcome (.binding port family)
        ((pickAddr (locals.map fun ip => ⟨ip, port⟩) family).mapErr (.bind assignment.selfName))

/-- A turn of `resolve_bind`. -/
def turn (assignment : Assignment) (port : UInt16) (family : Option AddrFamily) (delay : Nat) (t : Turn)
    (locals : List IpAddr) : Launch :=
  match resolveTurn family delay t with
  | .ok (.again delay) => .resolving port family delay
  | .ok (.done a) => bound assignment port family locals (some a)
  | .err _ => bound assignment port family locals none
  | .panic => .panicked

/-- The payload and the buffer of the receive task; then the tasks are spawned. -/
def spawnUdp (cfg : Config) (assignment : Assignment) (family : Option AddrFamily) : Launch :=
  ofOutcome (fun (payload, buf) => .udp family payload buf (.init cfg assignment) firstDelay) do
  let payload ← (makePayload cfg.payloadSize).mapErr .payload
  let buf ← zeroed udpRecvBuf
  .ok (payload, buf)

def spawnTcp (cfg : Config) (assignment : Assignment) (ipToId : IpAddr → Option UInt32) : Launch :=
  ofOutcome (fun payload => .tcp payload ipToId (.init cfg assignment) fun _ => firstDelay)
    ((makePayload cfg.payloadSize).mapErr .payload)

/-- A turn for the next UDP target, whose address is parsed or looked up. -/
def target (cfg : Config) (family : Option AddrFamily) (payload : Payload) (buf : List UInt8) (io : UdpIo)
    (delay : Nat) (t : Turn) : Option Launch :=
  match io.targets with
  | [] => none
  | next :: _ =>
      let spawned := ((udpIo cfg payload).step io .spawn).map fun io =>
        ofOutcome (fun _ => .udp family payload buf io firstDelay) (zeroed udpPkt)
      match parseSocketAddr next.addr with
      | some _ => spawned
      | none =>
          match resolveTurn family delay t with
          | .ok (.done _) => spawned
          | .ok (.again delay) => some (.udp family payload buf io delay)
          | .err _ => ((udpIo cfg payload).step io .unresolved).map fun io =>
              .udp family payload buf io firstDelay
          | .panic => some .panicked

/-- The step of a task, whose checks can only panic. -/
def ofTask {α : Type} (f : α → Option Launch) : Outcome Empty α → Option Launch
  | .ok a => f a
  | .err e => e.elim
  | .panic => some .panicked

end Launch

open Launch in
def launch (cfg : Config) (assignment : Assignment) : Machine Launch LaunchLabel where
  step
    | .resolving port family delay, .turn t locals => some (turn assignment port family delay t locals)
    | .binding port family _, .socket result =>
        match result, cfg.network with
        | .error message, _ => some (.failed (.socket message))
        | .ok (), .tcp => some (.mapping port family)
        | .ok (), .udp => some (spawnUdp cfg assignment family)
    | .mapping port family, .map lookup =>
        some (spawnTcp cfg assignment (buildIpMap lookup cfg.hostlist port family))
    | .udp family payload buf io delay, .target t => target cfg family payload buf io delay t
    | .udp family payload buf io delay, .send l =>
        ofTask (fun send => send.map fun send => .udp family payload buf { io with send := send } delay)
          (Checked.send io.send l)
    | .udp family payload buf io delay, .recv l =>
        ofTask (fun (buf, _) => ((udpIo cfg payload).step io (.recv l)).map fun io =>
          .udp family payload buf io delay) (Checked.recv buf io.send.test io.recv l)
    | .tcp payload ipToId io delays, .tcp l =>
        ofTask (fun _ => ((tcpIo cfg payload ipToId).step io l).map fun io => .tcp payload ipToId io delays)
          (Checked.alloc l)
    | .tcp payload ipToId io delays, .sleep i =>
        if (io.senders[i]?).any fun w => w.pc = .connecting then
          ofTask (fun delay => some (.tcp payload ipToId io (Function.update delays i delay)))
            (nextDelay (delays i))
        else none
    | _, _ => none

/-- What `handle_conn` writes when `start_test` has returned; the loops may go on. -/
def Launch.answer (text : StartError → Str) : Launch → Option Msg
  | .failed e => some (.error (text e))
  | .udp _ _ _ io _ => if io.targets = [] then some (.ack "start".toList) else none
  | .tcp _ _ io _ => if io.targets = [] then some (.ack "start".toList) else none
  | _ => none

end Tperf.Server

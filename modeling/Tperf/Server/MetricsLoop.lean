import Tperf.Lib.Machine
import Tperf.Metrics.Basic

/-!
# The metrics loop of a test

Each label is what one call returns: a clock, the counters, the cancellation token, the timer.
-/

namespace Tperf.Server
open Lib Metrics Proto

def windowNs : UInt64 := 1000000000
def windowSpinNs : UInt64 := 200000

/-- What the loop carries from one window to the next: the `prev_` values, `mono_start` and
`wall_start`. -/
structure Carry where
  total : Snap
  peers : List Snap
  proc : Option ProcSample
  mono : UInt64
  wall : UInt64
  deriving DecidableEq, Repr

inductive LoopPc
  | start
  | startProc
  | startMono
  | startReal
  | waitNow
  | waitCheck (now : UInt64)
  | sleep
  | spinNow
  | spinCheck
  | closeMono
  | closeReal (monoEnd : UInt64)
  | closeSnap (monoEnd wallEnd : UInt64)
  | closeProc (monoEnd wallEnd : UInt64) (tot : Snap) (peers : List Snap)
  | writing (next : Carry)
  | loopCancel
  | done
  deriving DecidableEq, Repr

inductive LoopLabel
  | snap (c : Counters)
  | proc (p : Option ProcSample)
  | mono (t : UInt64)
  | real (t : UInt64)
  | cancelled (b : Bool)
  | wake (cancelled : Bool)
  | wrote
  | abort
  deriving DecidableEq

structure MetricsLoop where
  server : Str
  names : List Str
  clkTck : UInt64
  pc : LoopPc
  carry : Carry
  origin : UInt64
  windowI : UInt64
  /-- History: the windows handed to `write_frame_locked`. -/
  emitted : List MetricWindow
  /-- History: what the loop carried at the start, and what each emitted window closed with. -/
  carries : List Carry
  /-- History: the first clock reading of the current wait. -/
  began : Option UInt64
  /-- History: the same for each emitted window. -/
  begins : List UInt64
  /-- History: the last reading of `CLOCK_MONOTONIC`. -/
  clock : UInt64
  deriving DecidableEq

namespace MetricsLoop

def init (server : Str) (names : List Str) (clkTck : UInt64) : MetricsLoop where
  server := server
  names := names
  clkTck := clkTck
  pc := .start
  carry := ⟨⟨0, 0, 0, 0, 0⟩, [], none, 0, 0⟩
  origin := 0
  windowI := 1
  emitted := []
  carries := []
  began := none
  begins := []
  clock := 0

def deadline (s : MetricsLoop) : UInt64 := satAdd s.origin (satMul s.windowI windowNs)

/-- `duration_ns` of `emit_window`. -/
def durationNs (a b : Carry) : UInt64 := max (satSub b.mono a.mono) 1

/-- The window that `emit_window` builds. -/
def window (s : MetricsLoop) (a b : Carry) : MetricWindow :=
  let deltaPeers := (a.peers.zip b.peers).map fun p => p.1.delta p.2
  let cpu := match a.proc, b.proc with
    | some x, some y => cpuPct s.clkTck x y (durationNs a b)
    | _, _ => 0
  let mem := (b.proc.map (·.rssBytes)).getD 0
  buildWindow s.server a.wall b.wall (durationNs a b) (a.total.delta b.total) deltaPeers s.names cpu mem

def goto (s : MetricsLoop) (pc : LoopPc) : MetricsLoop := { s with pc := pc }

/-- The window that closes with `next` is handed over. -/
def emit (s : MetricsLoop) (next : Carry) : MetricsLoop :=
  { s with
    pc := .writing next
    emitted := s.emitted ++ [s.window s.carry next]
    carries := s.carries ++ [next]
    begins := s.begins ++ [s.began.getD 0] }

end MetricsLoop

open MetricsLoop in
/-- `metrics_loop`, with `wait_until_mono` and `emit_window`. -/
def metricsLoop : Machine MetricsLoop LoopLabel where
  step s
    | .snap c =>
        if c.names ≠ s.names then none
        else
          match s.pc with
          | .start =>
              some { s with
                carry := { s.carry with total := c.snapshotAll.1, peers := c.snapshotAll.2 }
                pc := .startProc }
          | .closeSnap m w => some (s.goto (.closeProc m w c.snapshotAll.1 c.snapshotAll.2))
          | _ => none
    | .proc p =>
        match s.pc with
        | .startProc => some { s with carry := { s.carry with proc := p }, pc := .startMono }
        | .closeProc m w tot peers => some (s.emit ⟨tot, peers, p, m, w⟩)
        | _ => none
    | .mono t =>
        match s.pc with
        | .startMono =>
            some { s with
              origin := t
              carry := { s.carry with mono := t }
              clock := t
              pc := .startReal }
        | .waitNow =>
            some { s with
              began := s.began.or (some t)
              clock := t
              pc := if t ≥ s.deadline then .closeMono else .waitCheck t }
        | .spinNow =>
            some { s with clock := t, pc := if t < s.deadline then .spinCheck else .closeMono }
        | .closeMono => some { s with clock := t, pc := .closeReal t }
        | _ => none
    | .real t =>
        match s.pc with
        | .startReal =>
            some { s with
              carry := { s.carry with wall := t }
              carries := [{ s.carry with wall := t }]
              pc := .waitNow }
        | .closeReal m => some (s.goto (.closeSnap m t))
        | _ => none
    | .cancelled b =>
        match s.pc with
        | .waitCheck now =>
            some (s.goto (if b then .done
              else if s.deadline - now > windowSpinNs then .sleep else .spinNow))
        | .spinCheck => some (s.goto (if b then .done else .spinNow))
        | .loopCancel => some (s.goto (if b then .done else .waitNow))
        | _ => none
    | .wake b =>
        match s.pc with
        | .sleep => some (s.goto (if b then .done else .waitNow))
        | _ => none
    | .wrote =>
        match s.pc with
        | .writing next =>
            some { s with
              carry := next
              windowI := satAdd s.windowI 1
              began := none
              pc := .loopCancel }
        | _ => none
    | .abort =>
        match s.pc with
        | .start | .sleep | .writing _ => some (s.goto .done)
        | _ => none

end Tperf.Server

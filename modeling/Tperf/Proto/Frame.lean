import Tperf.Lib.Framing
import Tperf.Proto.Basic

/-!
# Frames of the control connection
-/

namespace Tperf.Proto
open Lib

def maxFrame : Nat := 16 * 1024 * 1024

/-- `serde_json` on messages. -/
structure SerdeJson where
  toVec : Msg → List UInt8
  fromSlice : List UInt8 → Option Msg

/-- The encoding of `m` is not empty, and is read back as `m`. -/
def SerdeJson.ReadsBack (J : SerdeJson) (m : Msg) : Prop :=
  J.toVec m ≠ [] ∧ J.fromSlice (J.toVec m) = some m

inductive FrameErr
  | tooLarge (bytes : Nat)
  | eof
  | invalidLength (len : Nat)
  | deserialize
  deriving DecidableEq, Repr

/-- The bytes that `write_frame` puts on the stream, if it does not bail. -/
def writeFrame (J : SerdeJson) (m : Msg) : Except FrameErr (List UInt8) :=
  let data := J.toVec m
  if data.length > maxFrame then .error (.tooLarge data.length) else .ok (frame data)

/-- The message that `read_frame` returns, and what is left of the stream. -/
def readFrame (J : SerdeJson) (bs : List UInt8) : Except FrameErr (Msg × List UInt8) :=
  match deframe maxFrame bs with
  | .error .eof => .error .eof
  | .error (.invalid len) => .error (.invalidLength len)
  | .ok (buf, rest) =>
      match J.fromSlice buf with
      | some m => .ok (m, rest)
      | none => .error .deserialize

variable {J : SerdeJson} {m : Msg}

theorem writeFrame_eq_ok {bs : List UInt8} :
    writeFrame J m = .ok bs ↔ (J.toVec m).length ≤ maxFrame ∧ bs = frame (J.toVec m) := by
  rw [writeFrame]
  split <;> simp_all [eq_comm, Nat.not_le.mpr, Nat.not_lt.mp]

/-- A frame that was written is read back, whatever follows it. -/
theorem readFrame_frame (hm : J.ReadsBack m) (hle : (J.toVec m).length ≤ maxFrame)
    (rest : List UInt8) : readFrame J (frame (J.toVec m) ++ rest) = .ok (m, rest) := by
  rw [readFrame, deframe_frame (by decide) hm.1 hle]
  simp only [hm.2]

theorem readFrame_cut (hm : J.toVec m ≠ []) (hle : (J.toVec m).length ≤ maxFrame)
    {bs : List UInt8} (hpre : bs <+: frame (J.toVec m)) (hbs : bs ≠ frame (J.toVec m)) :
    readFrame J bs = .error .eof := by
  rw [readFrame, deframe_cut (by decide) hm hle hpre hbs]

theorem readFrame_nil : readFrame J [] = .error .eof := rfl

/-! ## A sample -/

def ackJson (cmd : Str) : Str :=
  "\x7b\"op\":\"ack\",\"cmd\":\"".toList ++ cmd ++ "\"\x7d".toList

def sampleWindow : MetricWindow where
  server := "a".toList
  wallStartNs := 0
  wallEndNs := 1000000000
  durationNs := 1000000000
  bytesSent := 0
  bytesRecv := 0
  sendBps := 0
  recvBps := 0
  packetsSent := 0
  packetsRecv := 0
  packetsDropped := 0
  cpuPct := 0
  memoryBytes := 0
  peers := []

def windowJson : Str :=
  "\x7b\"op\":\"metrics\",\"window\":\x7b\"server\":\"a\",\"wall_start_ns\":0,".toList ++
  "\"wall_end_ns\":1000000000,\"duration_ns\":1000000000,\"bytes_sent\":0,\"bytes_recv\":0,".toList ++
  "\"send_bps\":0.0,\"recv_bps\":0.0,\"packets_sent\":0,\"packets_recv\":0,".toList ++
  "\"packets_dropped\":0,\"cpu_pct\":0.0,\"memory_bytes\":0,\"peers\":[]\x7d\x7d".toList

/-- What `serde_json` does with the messages of the sample runs. -/
def sampleJson : SerdeJson where
  toVec
    | .ack cmd => utf8 (ackJson cmd)
    | .metrics _ => utf8 windowJson
    | .error message => utf8 ("\x7b\"op\":\"error\",\"message\":\"".toList ++ message ++ "\"\x7d".toList)
    | .stop => utf8 "\x7b\"op\":\"stop\"\x7d".toList
    | .start _ _ => utf8 "\x7b\"op\":\"start\"\x7d".toList
  fromSlice bs :=
    if bs = utf8 (ackJson "start".toList) then some (.ack "start".toList)
    else if bs = utf8 (ackJson "stop".toList) then some (.ack "stop".toList)
    else if bs = utf8 windowJson then some (.metrics sampleWindow)
    else none

def sampleConfig : Config where
  clientAddr := "0.0.0.0:7777".toList
  testAddr := "10.0.0.1:9100".toList
  network := .tcp
  payloadSize := 1
  workers := 1
  testType := .mesh
  hostlist := ["a".toList, "b".toList]
  hostlistRaw := []
  tag := "t".toList

end Tperf.Proto

import Tperf.Proto.Frame
import Tperf.Server.Theorems.Replies

/-!
# The reader of a control connection
-/

namespace Tperf.Client
open Lib Proto

/-- One task running `pump_server`. -/
structure Pump where
  name : Str
  gotStart : Bool
  /-- What the task has returned. -/
  ended : Option (Except Str Unit)
  /-- History: how often `start_acks` was incremented. -/
  acks : Nat
  /-- History: the windows passed to `DbHandle::insert`. -/
  inserted : List MetricWindow

namespace Pump

def init (name : Str) : Pump where
  name := name
  gotStart := false
  ended := none
  acks := 0
  inserted := []

def finish (p : Pump) (r : Except Str Unit) : Pump := { p with ended := some r }

/-- What the task does with a message. -/
def recv (p : Pump) : Msg → Pump
  | .ack cmd =>
      if cmd = "start".toList then { p with gotStart := true, acks := p.acks + 1 }
      else if cmd = "stop".toList then p.finish (.ok ())
      else p
  | .metrics window => { p with inserted := p.inserted ++ [window] }
  | .error message =>
      if p.gotStart then p else p.finish (.error (p.name ++ ": ".toList ++ message))
  | .start _ _ | .stop => p

/-- What the task does when `read_frame` fails. -/
def recvErr (p : Pump) : Pump := p.finish (.ok ())

/-- The task over the messages it is sent; what comes after its return is not read. -/
def run (p : Pump) : List Msg → Pump
  | [] => p
  | m :: ms => if p.ended.isSome then p else (p.recv m).run ms

end Pump

def startAck : Msg := .ack "start".toList
def stopAck : Msg := .ack "stop".toList

/-- The windows of some messages, in order. -/
def windows (ms : List Msg) : List MetricWindow := ms.filterMap fun m => match m with
  | .metrics window => some window
  | _ => none

/-- An error that ends a reader which has seen `pre`. -/
def Fatal (pre : List Msg) (m : Msg) : Prop := (∃ message, m = .error message) ∧ startAck ∉ pre

theorem windows_append (l m : List Msg) : windows (l ++ m) = windows l ++ windows m :=
  List.filterMap_append

/-! ## What is read -/

/-- The task has read `ms` and goes on. -/
structure Pump.Read (name : Str) (ms : List Msg) (p : Pump) : Prop where
  name_eq : p.name = name
  running : p.ended = none
  gotStart : p.gotStart = true ↔ startAck ∈ ms
  acks : p.acks = ms.count startAck
  inserted : p.inserted = windows ms

theorem Pump.read_init (name : Str) : Pump.Read name [] (.init name) where
  name_eq := rfl
  running := rfl
  gotStart := by simp [init]
  acks := rfl
  inserted := rfl

/-- A message that neither ends the task nor is an answer to a start. -/
theorem Pump.Read.other {name : Str} {ms : List Msg} {p q : Pump} (h : p.Read name ms) {m : Msg}
    (hne : m ≠ startAck) (hn : q.name = p.name) (he : q.ended = p.ended)
    (hg : q.gotStart = p.gotStart) (ha : q.acks = p.acks)
    (hi : q.inserted = p.inserted ++ windows [m]) : q.Read name (ms ++ [m]) where
  name_eq := hn.trans h.name_eq
  running := he.trans h.running
  gotStart := by simp [hg, h.gotStart, hne.symm]
  acks := by
    rw [ha, h.acks, List.count_append, List.count_singleton, if_neg (by simpa using hne), Nat.add_zero]
  inserted := by rw [hi, h.inserted, windows_append]

theorem Pump.Read.recv {name : Str} {ms : List Msg} {p : Pump} (h : p.Read name ms) {m : Msg}
    (hstop : m ≠ stopAck) (hfatal : ¬ Fatal ms m) : (p.recv m).Read name (ms ++ [m]) := by
  cases m with
  | ack cmd =>
      rw [Pump.recv]
      split
      · rename_i hcmd
        have hm : Msg.ack cmd = startAck := congrArg Msg.ack hcmd
        exact ⟨h.name_eq, h.running, by simp [hm], by simp [hm, h.acks],
          by simp [h.inserted, windows]⟩
      · rename_i hcmd
        have hne : Msg.ack cmd ≠ startAck := fun hm => hcmd (Msg.ack.inj hm)
        split
        · rename_i hcmd'
          exact absurd (congrArg Msg.ack hcmd') hstop
        · exact h.other hne rfl rfl rfl rfl (by simp [windows])
  | metrics window => exact h.other nofun rfl rfl rfl rfl rfl
  | error message =>
      rw [Pump.recv]
      split
      · exact h.other nofun rfl rfl rfl rfl (by simp [windows])
      · rename_i hg
        exact absurd ⟨⟨message, rfl⟩, fun hs => hg (h.gotStart.mpr hs)⟩ hfatal
  | start _ _ => exact h.other nofun rfl rfl rfl rfl (by simp [windows, Pump.recv])
  | stop => exact h.other nofun rfl rfl rfl rfl (by simp [windows, Pump.recv])

theorem Pump.run_cons {p : Pump} (h : p.ended = none) (m : Msg) (ms : List Msg) :
    p.run (m :: ms) = (p.recv m).run ms := by
  rw [Pump.run, h]; rfl

theorem Pump.run_ended {p : Pump} (h : p.ended.isSome) (ms : List Msg) : p.run ms = p := by
  cases ms with
  | nil => rfl
  | cons m ms => rw [Pump.run, if_pos h]

theorem Pump.run_append (p : Pump) (l ms : List Msg) : p.run (l ++ ms) = (p.run l).run ms := by
  induction l generalizing p with
  | nil => rfl
  | cons m l ih =>
      rw [List.cons_append]
      cases h : p.ended with
      | none => rw [Pump.run_cons h, Pump.run_cons h, ih]
      | some r =>
          have hsome : p.ended.isSome := by rw [h]; rfl
          rw [Pump.run_ended hsome, Pump.run_ended hsome, Pump.run_ended hsome]

/-- Messages that do not end the task are all read. -/
theorem Pump.Read.run {name : Str} {pre ms : List Msg} {p : Pump} (h : p.Read name pre)
    (hstop : stopAck ∉ ms) (hfatal : ∀ l m r, ms = l ++ m :: r → ¬ Fatal (pre ++ l) m) :
    (p.run ms).Read name (pre ++ ms) := by
  induction ms generalizing pre p with
  | nil => rw [List.append_nil]; exact h
  | cons m ms ih =>
      rw [Pump.run_cons h.running, List.append_cons]
      refine ih (h.recv (fun hm => hstop (hm ▸ List.mem_cons_self)) ?_)
        (fun hm => hstop (List.mem_cons_of_mem _ hm)) ?_
      · simpa using hfatal [] m ms rfl
      · intro l x r hl
        have := hfatal (m :: l) x r (by rw [hl]; rfl)
        rwa [List.append_cons] at this

theorem Pump.Read.stop {name : Str} {pre : List Msg} {p : Pump} (h : p.Read name pre)
    (post : List Msg) : p.run (stopAck :: post) = p.finish (.ok ()) := by
  rw [Pump.run_cons h.running]
  have hrecv : p.recv stopAck = p.finish (.ok ()) := by
    rw [stopAck, Pump.recv, if_neg (by decide), if_pos rfl]
  rw [hrecv]
  exact Pump.run_ended rfl post

theorem Pump.Read.fatal {name : Str} {pre : List Msg} {p : Pump} (h : p.Read name pre)
    (hno : startAck ∉ pre) (message : Str) (post : List Msg) :
    p.run (.error message :: post) = p.finish (.error (name ++ ": ".toList ++ message)) := by
  have hg : ¬ p.gotStart = true := fun hg => hno (h.gotStart.mp hg)
  rw [Pump.run_cons h.running, Pump.recv, if_neg hg, h.name_eq]
  exact Pump.run_ended rfl post

/-- Without an error before the first answer to a start, the task inserts every window that comes
before the answer to the stop and counts every answer to a start. An error before that ends it. -/
theorem pump_reads (name : Str) (ms : List Msg) :
    (∀ pre post, ms = pre ++ stopAck :: post → stopAck ∉ pre →
      (∀ l message r, pre = l ++ .error message :: r → startAck ∈ l) →
      ((Pump.init name).run ms).inserted = windows pre ∧
      ((Pump.init name).run ms).acks = pre.count startAck ∧
      ((Pump.init name).run ms).ended = some (.ok ())) ∧
    (∀ pre message post, ms = pre ++ .error message :: post → stopAck ∉ pre → startAck ∉ pre →
      (∀ message', .error message' ∉ pre) →
      ((Pump.init name).run ms).inserted = windows pre ∧
      ((Pump.init name).run ms).acks = 0 ∧
      ((Pump.init name).run ms).ended = some (.error (name ++ ": ".toList ++ message))) := by
  constructor
  · rintro pre post rfl hstop herr
    have hread : ((Pump.init name).run pre).Read name pre := by
      refine (Pump.read_init name).run hstop ?_
      rintro l m r hl ⟨⟨message, rfl⟩, hno⟩
      exact hno (herr l message r hl)
    rw [Pump.run_append, hread.stop post]
    exact ⟨hread.inserted, hread.acks, rfl⟩
  · rintro pre message post rfl hstop hno herr
    have hread : ((Pump.init name).run pre).Read name pre := by
      refine (Pump.read_init name).run hstop ?_
      rintro l m r hl ⟨⟨message', rfl⟩, -⟩
      exact herr message' (by rw [hl]; simp)
    rw [Pump.run_append, hread.fatal hno message post]
    exact ⟨hread.inserted, hread.acks.trans (List.count_eq_zero.mpr hno), rfl⟩

theorem pump_reads_error_later :
    ((Pump.init "a".toList).run [startAck, .error "e".toList, .metrics sampleWindow, stopAck]).inserted =
      [sampleWindow] :=
  ((pump_reads "a".toList [startAck, .error "e".toList, .metrics sampleWindow, stopAck]).1
    [startAck, .error "e".toList, .metrics sampleWindow] [] rfl (by decide) fun l message r hl => by
      cases l with
      | nil => cases hl
      | cons m l => rw [(List.cons.inj hl).1]; exact List.mem_cons_self).1

/-- The first start of a session fails, the second one makes a test that emits a window. -/
def secondStartRun : List Server.SessionLabel :=
  let start : Server.SessionLabel := .recv (.start sampleConfig ⟨"a".toList, 0, [], []⟩)
  [start, .startErr "e".toList, .lockMain, .write 32, start] ++ List.replicate 8 .startStep ++
    [.lockMain, .write 30, .emit 0 sampleWindow, .lockMetrics 0, .write 268, .recv .stop,
      .metricsDone 0, .stopDone, .joined, .lockMain, .write 29]

/-- The reader of that session has ended at the error: the later ack and window are not read. -/
theorem second_start_ignored :
    ∃ s, (Server.session sampleJson).run .init secondStartRun = some s ∧
      s.sent.map Server.Sent.msg =
        [.error "e".toList, startAck, .metrics sampleWindow, stopAck] ∧
      ((Pump.init "a".toList).run (s.sent.map Server.Sent.msg)).acks = 0 ∧
      ((Pump.init "a".toList).run (s.sent.map Server.Sent.msg)).inserted = [] := by
  have h : ((Server.session sampleJson).run .init secondStartRun).map
      (fun s => s.sent.map Server.Sent.msg) =
      some [.error "e".toList, startAck, .metrics sampleWindow, stopAck] := by decide +kernel
  obtain ⟨s, hs, h⟩ := Option.map_eq_some_iff.mp h
  refine ⟨s, hs, h, ?_, ?_⟩
  · rw [h]; rfl
  · rw [h]; rfl

end Tperf.Client

import Tperf.Client.Theorems.Persist
import Tperf.Control.Lemmas.Heard
import Tperf.Server.Theorems.Filled

/-!
# The client and its servers do what the client alone may do
-/

namespace Tperf.Control
open Lib Proto Client Server Testplan Net

variable {D : Setup} {f : MetricWindow → MetricWindow}

/-- A run of the client with its servers, over the bytes between them, is a run of the client whose servers
answer as they like: the client is in the same place, and has still to read what the sessions have sent. -/
theorem world_refines {W : World} {ls : List WorldLabel} (hne : ∀ m, D.serde.toVec m ≠ [])
    (h : ((world D).guard fun W l => W.tears l = false).run .init ls = some W) (hback : W.ReadsBack D.serde f) :
    ∃ ks r, (run D.cfg D.peers).run .init ks = some r ∧ r = { W.client with conns := r.conns } ∧
      r.conns.length = W.links.length ∧
      ∀ (i : Nat) (L : Link) (c a : Conn), W.links[i]? = some L → W.client.conns[i]? = some c →
        r.conns[i]? = some a → a.reader = c.reader ∧ a.aborted = c.aborted ∧
          a.outbox = (L.session.sent.map fun x => x.msg.back f).drop L.got.length := by
  obtain ⟨hok, ks, r, hks, hm⟩ := simulates True (G := fun _ => true)
    (fun W l hl => ⟨hl, .inl trivial, fun _ _ => rfl⟩) (fun _ _ => rfl) hne h hback
  refine ⟨ks, r, Machine.run_of_guard hks, hm.main, hm.length.trans hok.length.symm, fun i L c a hL hc ha => ?_⟩
  have ht := hm.twins i L c a hL hc ha
  exact ⟨ht.reader, ht.aborted, ht.outbox⟩

/-! ## A sample -/

def quoted (s : Str) : Str := '"' :: s ++ ['"']

def commas : List Str → Str
  | [] => []
  | [s] => s
  | s :: ss => s ++ ',' :: commas ss

def objectJson (fields : List (String × Str)) : Str :=
  '{' :: commas (fields.map fun p => quoted p.1.toList ++ ':' :: p.2) ++ ['}']

def arrayJson (items : List Str) : Str := '[' :: commas items ++ [']']

def numberJson (n : Nat) : Str := Nat.toDigits 10 n

def configJson (cfg : Config) : Str := objectJson [
  ("client_addr", quoted cfg.clientAddr),
  ("test_addr", quoted cfg.testAddr),
  ("network", quoted (match cfg.network with | .tcp => "tcp".toList | .udp => "udp".toList)),
  ("payload_size", numberJson cfg.payloadSize.toNat),
  ("workers", numberJson cfg.workers.toNat),
  ("type", quoted (match cfg.testType with | .pairs => "pairs".toList | .mesh => "mesh".toList)),
  ("hostlist", arrayJson (cfg.hostlist.map quoted)),
  ("hostlist_raw", arrayJson (cfg.hostlistRaw.map quoted)),
  ("tag", quoted cfg.tag)]

def targetJson (t : Target) : Str := objectJson [
  ("name", quoted t.name),
  ("id", numberJson t.id.toNat),
  ("addr", quoted t.addr)]

def assignmentJson (a : Assignment) : Str := objectJson [
  ("self_name", quoted a.selfName),
  ("self_id", numberJson a.selfId.toNat),
  ("bind", quoted a.bind),
  ("targets", arrayJson (a.targets.map targetJson))]

def startJson (cfg : Config) (a : Assignment) : Str := objectJson [
  ("op", quoted "start".toList),
  ("config", configJson cfg),
  ("assignment", assignmentJson a)]

/-- The starts of the sample runs. -/
def pairStarts : List Msg := meshPlan.map (Msg.start pairsConfig)

/-- What `serde_json` does with the messages of the sample runs. -/
def pairJson : SerdeJson where
  toVec
    | .start cfg a => utf8 (startJson cfg a)
    | m => sampleJson.toVec m
  fromSlice bs :=
    if bs = sampleJson.toVec .stop then some .stop
    else match pairStarts.find? fun m => match m with
        | .start cfg a => utf8 (startJson cfg a) = bs
        | _ => false with
      | some m => some m
      | none => sampleJson.fromSlice bs

/-- Two hosts in pairs mode. -/
def pairSetup : Setup := ⟨pairsConfig, twoAddrs, pairJson, emptyPeers⟩

/-- Two connections, and the starts of the first round. -/
def openingRun : List WorldLabel :=
  [.client .connect, .client .connect, .client .main, .client .main, .sendStart, .sendStart, .client .main]

/-- Server `i` reads its start and makes a test, and the client reads the answer. -/
def startedRun (i : Nat) : List WorldLabel :=
  ((pairSetup.start 1 i).map fun m => .server i (.recv m)).toList ++ List.replicate 9 (.server i .startStep) ++
    [.server i .lockMain, .server i (.write 30), .read i]

/-- Server `i` sends a window, and the client reads it. -/
def windowRun (i : Nat) : List WorldLabel :=
  [.server i (.emit 0 sampleWindow), .server i (.lockMetrics 0), .server i (.write 268), .read i]

/-- Server `i` reads the stop, and the client reads the answer. -/
def stoppedRun (i : Nat) : List WorldLabel :=
  [.server i (.recv .stop), .server i (.metricsDone 0), .server i .stopDone, .server i .joined, .server i .lockMain,
    .server i (.write 29), .read i]

def roundRun : List WorldLabel := openingRun ++ startedRun 0 ++ startedRun 1 ++ [.client (.poll false)]

/-- One round with one window, and the end. -/
def wholeRun : List WorldLabel :=
  roundRun ++ windowRun 0 ++ [.client (.db (.ok ())), .client .slept, .client (.db (.ok ())), .client .cancel,
    .client .main, .sendStop, .sendStop, .client .main] ++ stoppedRun 1 ++ stoppedRun 0 ++
    [.client .main, .client .main, .client (.db (.ok ())), .client .main, .client .main]

theorem pairJson_ne_nil (m : Msg) : pairJson.toVec m ≠ [] := by
  cases m with
  | start cfg a =>
      show utf8 (startJson cfg a) ≠ []
      exact utf8_ne_nil (by simp [startJson, objectJson])
  | stop =>
      show utf8 "\x7b\"op\":\"stop\"\x7d".toList ≠ []
      exact utf8_ne_nil (by decide +kernel)
  | ack cmd =>
      show utf8 (ackJson cmd) ≠ []
      exact utf8_ne_nil (List.append_ne_nil_of_right_ne_nil _ (by decide +kernel))
  | metrics _ =>
      show utf8 windowJson ≠ []
      exact utf8_ne_nil (List.append_ne_nil_of_right_ne_nil _ (by decide +kernel))
  | error message =>
      show utf8 ("\x7b\"op\":\"error\",\"message\":\"".toList ++ message ++ "\"\x7d".toList) ≠ []
      exact utf8_ne_nil (List.append_ne_nil_of_right_ne_nil _ (by decide +kernel))

/-- The messages sent and written on each connection. -/
def messages (W : World) : List (List Msg × List Msg) :=
  W.links.map fun L => (L.session.sent.map Sent.msg, L.written)

theorem back_id (m : Msg) : m.back id = m := by cases m <;> rfl

theorem readsBack_of_messages {W : World}
    (h : ∀ p ∈ messages W, ∀ m ∈ p.1 ++ p.2, pairJson.fromSlice (pairJson.toVec m) = some m) :
    W.ReadsBack pairJson id := by
  intro L hL
  have hp := h _ (List.mem_map_of_mem hL)
  refine ⟨fun x hx => ?_, fun m hm => hp m (List.mem_append_right _ hm)⟩
  rw [back_id]
  exact hp _ (List.mem_append_left _ (List.mem_map_of_mem hx))

/-- What a sample run has to show. -/
theorem readsBack_sample {W : World} {l : List (List Msg × List Msg)} (hW : messages W = l)
    (hl : l.all (fun p => (p.1 ++ p.2).all fun m => pairJson.fromSlice (pairJson.toVec m) = some m) = true) :
    W.ReadsBack pairJson id := by
  refine readsBack_of_messages fun p hp m hm => ?_
  rw [hW] at hp
  simpa using List.all_eq_true.mp (List.all_eq_true.mp hl p hp) m hm

theorem world_refines_round :
    ∃ W ks r, (world pairSetup).run .init (roundRun ++ windowRun 0) = some W ∧
      (run pairsConfig emptyPeers).run .init ks = some r ∧ r.passed = [sampleWindow] ∧ r.startAcks = 2 := by
  have h : (((world pairSetup).guard fun W l => W.tears l = false).run .init (roundRun ++ windowRun 0)).map
      (fun W => (messages W, W.client.passed, W.client.startAcks)) =
      some ([([startAck, .metrics sampleWindow], (pairSetup.start 1 0).toList), ([startAck], (pairSetup.start 1 1).toList)],
        [sampleWindow], 2) := by decide +kernel
  obtain ⟨W, hW, h⟩ := Option.map_eq_some_iff.mp h
  simp only [Prod.mk.injEq] at h
  obtain ⟨hmsg, hpassed, hacks⟩ := h
  obtain ⟨ks, r, hks, hr, -⟩ := world_refines pairJson_ne_nil hW (readsBack_sample hmsg (by decide +kernel))
  refine ⟨W, ks, r, Machine.run_of_guard hW, hks, ?_, ?_⟩
  · rw [hr]; exact hpassed
  · rw [hr]; exact hacks

end Tperf.Control

import Tperf.Lib.Modify
import Tperf.Net.Roundtrip
import Tperf.Proto.Frame
import Tperf.Server.Lemmas.Launch
import Tperf.Testplan.Basic

/-!
# A start whose addresses are filled in

The addresses that the client has resolved are those that a server binds and sends to.
-/

namespace Tperf.Server
open Lib Proto Config Net Dataplane Testplan

variable {cfg : Config} {resolved : List SocketAddr}

/-! ## What `fill_resolved` returns -/

/-- The addresses of an assignment are those of its ids. -/
structure Filled (resolved : List SocketAddr) (a : Assignment) : Prop where
  bind : ∃ b, resolved[a.selfId.toNat]? = some b ∧ a.bind = showSocketAddr b
  targets : ∀ t ∈ a.targets, ∃ d, resolved[t.id.toNat]? = some d ∧ t.addr = showSocketAddr d

theorem resolvedStr_eq_ok {id : UInt32} {s : Str}
    (h : resolvedStr showSocketAddr resolved id = .ok s) :
    ∃ b, resolved[id.toNat]? = some b ∧ s = showSocketAddr b := by
  obtain ⟨b, hb, hs⟩ := Outcome.bind_eq_ok.mp h
  cases hs
  refine ⟨b, ?_, rfl⟩
  rw [Outcome.index] at hb
  split at hb
  · cases hb; assumption
  · cases hb

theorem fillResolved_filled {asg out : List Assignment}
    (h : fillResolved showSocketAddr resolved asg = .ok out) {a : Assignment} (ha : a ∈ out) :
    Filled resolved a := by
  obtain ⟨a₀, -, hfill⟩ := Outcome.mem_of_mapM h ha
  obtain ⟨bind, hbind, hfill⟩ := Outcome.bind_eq_ok.mp hfill
  obtain ⟨targets, htargets, hfill⟩ := Outcome.bind_eq_ok.mp hfill
  cases hfill
  refine ⟨resolvedStr_eq_ok hbind, fun t ht => ?_⟩
  obtain ⟨t₀, -, hone⟩ := Outcome.mem_of_mapM htargets ht
  obtain ⟨addr, haddr, hone⟩ := Outcome.bind_eq_ok.mp hone
  cases hone
  exact resolvedStr_eq_ok haddr

/-! ## The send tasks -/

/-- The hosts that the tasks of some targets send to. -/
def destsOf (cfg : Config) (targets : List Target) : List UInt32 :=
  targets.flatMap fun t => List.replicate cfg.workers.toNat t.id

/-- The hosts that the send tasks spawned so far send to. -/
def Launch.dests : Launch → List UInt32
  | .udp _ _ _ io _ => io.send.workers.map (·.destId)
  | .tcp _ _ io _ => io.senders.map (·.destId)
  | _ => []

/-- The targets left are some of the assignment, and the tasks so far are those of the others. -/
structure Planned (cfg : Config) (a : Assignment) (targets : List Target) (dests : List UInt32) : Prop where
  left : targets <:+ a.targets
  spawned : dests ++ destsOf cfg targets = destsOf cfg a.targets

theorem Planned.spawn {a : Assignment} {t : Target} {targets : List Target} {dests : List UInt32}
    (h : Planned cfg a (t :: targets) dests) :
    Planned cfg a targets (dests ++ List.replicate cfg.workers.toNat t.id) where
  left := (List.suffix_cons t targets).trans h.left
  spawned := by
    rw [← h.spawned, List.append_assoc]
    rfl

/-- The plan of a UDP test. -/
def udpPlan (cfg : Config) (a : Assignment) (io : UdpIo) : Prop :=
  Planned cfg a io.targets (io.send.workers.map (·.destId))

/-- The plan of a TCP test. -/
def tcpPlan (cfg : Config) (a : Assignment) (io : TcpIo) : Prop :=
  Planned cfg a io.targets (io.senders.map (·.destId))

variable {a : Assignment}

theorem udpPlan_step {payload : Payload} {io io' : UdpIo} {l : UdpIoLabel} (h : udpPlan cfg a io)
    (hl : l ≠ .unresolved) (hs : (udpIo cfg payload).step io l = some io') : udpPlan cfg a io' := by
  cases udpIo_steps hs with
  | cancel | recv => exact h
  | worker hw hsteps =>
      unfold udpPlan
      simp only
      rw [map_set_eq hw hsteps.fixed.1]
      exact h
  | spawn ht =>
      rw [udpPlan, ht] at h
      have hnext := h.spawn
      rw [udpPlan, List.map_append, List.map_replicate]
      exact hnext
  | unresolved => exact absurd rfl hl

theorem tcpPlan_step {payload : Payload} {ipToId : IpAddr → Option UInt32} {io io' : TcpIo} {l : TcpIoLabel}
    (h : tcpPlan cfg a io) (hs : (tcpIo cfg payload ipToId).step io l = some io') : tcpPlan cfg a io' := by
  cases tcpIo_steps hs with
  | cancel | accept | read | step | close => exact h
  | task hw hsteps =>
      unfold tcpPlan
      simp only
      rw [map_set_eq hw hsteps.fixed.1]
      exact h
  | spawn ht =>
      rw [tcpPlan, ht] at h
      have hnext := h.spawn
      rw [tcpPlan, List.map_append, List.map_replicate]
      exact hnext

/-! ## The launch -/

/-- What holds of a launch with a filled assignment. -/
def Launch.OnPlan (cfg : Config) (resolved : List SocketAddr) (a : Assignment) : Launch → Prop
  | .resolving .. => False
  | .binding _ _ b => resolved[a.selfId.toNat]? = some b
  | .udp _ _ _ io _ => udpPlan cfg a io
  | .tcp _ _ io _ => tcpPlan cfg a io
  | .mapping .. | .failed _ | .panicked => True

theorem planned_init : Planned cfg a a.targets [] := ⟨List.suffix_rfl, rfl⟩

theorem Launch.init_onPlan (hv : Valid cfg) (hf : Filled resolved a) :
    (Launch.init cfg a).OnPlan cfg resolved a := by
  obtain ⟨family, hfamily⟩ := hv.testFamily
  obtain ⟨port, hport⟩ := hv.testPort
  obtain ⟨b, hb, hbind⟩ := hf.bind
  have hparse : parseSocketAddr a.bind = some b := by rw [hbind]; exact parseSocketAddr_show b
  have hne : a.bind ≠ [] := by
    intro hnil
    rw [hnil] at hparse
    cases hparse
  rw [init, (validate_iff cfg).mpr hv, hfamily, hport]
  simp only [Outcome.mapErr, Outcome.ok_bind, ofOutcome]
  rw [if_neg hne, hparse]
  exact hb

theorem Launch.ofOutcome_onPlan {α : Type} {f : α → Launch} {o : Outcome StartError α}
    (h : ∀ x, (f x).OnPlan cfg resolved a) : (ofOutcome f o).OnPlan cfg resolved a := by
  cases o with
  | ok x => exact h x
  | err e => trivial
  | panic => trivial

theorem checked_send_step {s s' : Sender} {l : SenderLabel}
    (h : Checked.send (ε := Empty) s l = .ok (some s')) : sender.step s l = some s' := by
  unfold Checked.send at h
  split at h
  · split at h
    · obtain ⟨_, -, h⟩ := Outcome.bind_eq_ok.mp h
      exact Outcome.ok.inj h
    · cases h
  · exact Outcome.ok.inj h

/-- The next target has an address, so its tasks are spawned whatever a lookup says. -/
theorem Launch.target_filled (hf : Filled resolved a) {family : Option AddrFamily} {payload : Payload}
    {buf : List UInt8} {io : UdpIo} {delay : Nat} {t : Turn} {s : Launch}
    (hleft : io.targets <:+ a.targets) (h : target cfg family payload buf io delay t = some s) :
    ∃ io', (udpIo cfg payload).step io .spawn = some io' ∧ s = .udp family payload buf io' firstDelay := by
  unfold target at h
  split at h
  · cases h
  · rename_i next targets htargets
    obtain ⟨d, -, hd⟩ := hf.targets next (hleft.subset (by rw [htargets]; exact List.mem_cons_self))
    simp only [hd, parseSocketAddr_show] at h
    obtain ⟨io', hio, rfl⟩ := Option.map_eq_some_iff.mp h
    rw [zeroed_ok (by decide)]
    exact ⟨io', hio, rfl⟩

theorem Launch.OnPlan.step (hf : Filled resolved a) {s s' : Launch} {l : LaunchLabel}
    (h : s.OnPlan cfg resolved a) (hs : (launch cfg a).step s l = some s') : s'.OnPlan cfg resolved a := by
  have hcopy := hs
  cases launch_steps hs with
  | turn => exact h.elim
  | refused | listening | targetPanics | sendPanics | recvPanics | allocPanics | sleepPanics => trivial
  | bound => exact ofOutcome_onPlan fun _ => planned_init
  | mapped => exact ofOutcome_onPlan fun _ => planned_init
  | spawned | unresolved | again =>
      obtain ⟨io', hio, heq⟩ := target_filled hf h.left hcopy
      rw [heq]
      exact udpPlan_step h (by simp) hio
  | @sent family payload buf io delay l send hsend =>
      have hio : (udpIo cfg payload).step io (.send l) = some { io with send := send } := by
        simp only [udpIo, checked_send_step hsend]
        rfl
      exact udpPlan_step h (by simp) hio
  | received _ hio => exact udpPlan_step h (by simp) hio
  | tcp hio => exact tcpPlan_step h hio
  | slept => exact h

/-- For a start with filled addresses a server looks up neither its bind address nor a target (over TCP it still
looks up the hosts, for the map of addresses): it binds the address of its own id, sends to those of the ids of
its targets, and when it acknowledges the start it runs every worker for every target. -/
theorem filled_start (hv : validate cfg = .ok ()) {asg out : List Assignment}
    (hfill : fillResolved showSocketAddr resolved asg = .ok out) (ha : a ∈ out) {s : Launch}
    (hs : (launch cfg a).Reach (.init cfg a) s) :
    (∀ port family delay, s ≠ .resolving port family delay) ∧
    (∀ port family b, s = .binding port family b → resolved[a.selfId.toNat]? = some b) ∧
    (∀ t ∈ a.targets, ∃ d, resolved[t.id.toNat]? = some d ∧ parseSocketAddr t.addr = some d) ∧
    ∀ text, s.answer text = some (.ack "start".toList) → s.dests = destsOf cfg a.targets := by
  have hf := fillResolved_filled hfill ha
  obtain ⟨ls, hrun⟩ := hs
  have hplan : s.OnPlan cfg resolved a := Machine.run_invariant (fun h hs => h.step hf hs) hrun
    (Launch.init_onPlan ((validate_iff cfg).mp hv) hf)
  refine ⟨?_, ?_, fun t ht => ?_, fun text hanswer => ?_⟩
  · rintro port family delay rfl
    exact hplan
  · rintro port family b rfl
    exact hplan
  · obtain ⟨d, hd, haddr⟩ := hf.targets t ht
    exact ⟨d, hd, by rw [haddr]; exact parseSocketAddr_show d⟩
  · have hspawned : ∀ {targets dests}, Planned cfg a targets dests → targets = [] →
        dests = destsOf cfg a.targets := by
      rintro targets dests h rfl
      rw [← h.spawned, destsOf, List.flatMap_nil, List.append_nil]
    cases s with
    | udp family payload buf io delay =>
        simp only [Launch.answer] at hanswer
        split at hanswer
        · rename_i hnil; exact hspawned hplan hnil
        · cases hanswer
    | tcp payload ipToId io delays =>
        simp only [Launch.answer] at hanswer
        split at hanswer
        · rename_i hnil; exact hspawned hplan hnil
        · cases hanswer
    | failed e => simp [Launch.answer] at hanswer
    | resolving | binding | mapping | panicked => cases hanswer

def twoAddrs : List SocketAddr := [⟨.v4 0x0A000001, 9100⟩, ⟨.v6 1, 9100⟩]

def udpConfig : Config := { sampleConfig with network := .udp, workers := 2, payloadSize := 3 }

def meshAssignment : Assignment :=
  ⟨"a".toList, 0, "10.0.0.1:9100".toList, [⟨"b".toList, 1, "[::1]:9100".toList⟩]⟩

def meshPlan : List Assignment :=
  [meshAssignment, ⟨"b".toList, 1, "[::1]:9100".toList, [⟨"a".toList, 0, "10.0.0.1:9100".toList⟩]⟩]

theorem filled_start_mesh :
    ∃ s, (launch udpConfig meshAssignment).Reach (.init udpConfig meshAssignment) s ∧
      s.dests = destsOf udpConfig meshAssignment.targets ∧ s.dests = [1, 1] := by
  have hfill : fillResolved showSocketAddr twoAddrs (assignmentsMesh udpConfig.hostlist) = .ok meshPlan := by
    decide +kernel
  let failing : Turn := ⟨false, none, true, false⟩
  have hrun : ((launch udpConfig meshAssignment).run (.init udpConfig meshAssignment)
      [.socket (.ok ()), .target failing]).map (fun s => (s.answer fun _ => [], s.dests)) =
      some (some (.ack "start".toList), [1, 1]) := by decide +kernel
  obtain ⟨s, hs, h⟩ := Option.map_eq_some_iff.mp hrun
  simp only [Prod.mk.injEq] at h
  exact ⟨s, ⟨_, hs⟩, (filled_start (by decide +kernel) hfill List.mem_cons_self ⟨_, hs⟩).2.2.2 _ h.1, h.2⟩

end Tperf.Server

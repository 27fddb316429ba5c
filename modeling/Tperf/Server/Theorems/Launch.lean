import Tperf.Server.Lemmas.Launch
import Tperf.Server.Lemmas.Simulation

/-!
# What a config can do to a server
-/

namespace Tperf.Server
open Lib Proto Config Net Dataplane

/-- `start_test` and the loops that it spawns never panic, it can always still return, and a session that
received the start then answers it. -/
structure Survives (text : StartError → Str) (cfg : Config) (assignment : Assignment) : Prop where
  no_panic : ∀ s, (launch cfg assignment).Reach (.init cfg assignment) s → s ≠ .panicked
  returns : ∀ s, (launch cfg assignment).Reach (.init cfg assignment) s →
    ∃ s' m, (launch cfg assignment).Reach s s' ∧ s'.answer text = some m
  replies : ∀ s m, (launch cfg assignment).Reach (.init cfg assignment) s → s.answer text = some m →
    ∀ (J : SerdeJson) (S : Session), S.pc = .starting (startTest cfg assignment) [] →
      ∃ S' r, (session J).Reach S S' ∧ S'.pc = .replying r ∧ r.msg = m

variable {text : StartError → Str} {cfg : Config} {assignment : Assignment}

/-! ## The answer comes -/

/-- The token is cancelled: the last turn of a loop. -/
def lastTurn : Turn := ⟨true, none, false, false⟩

theorem target_drops (cfg : Config) (family : Option AddrFamily) (payload : Payload) (buf : List UInt8) {io : UdpIo}
    (delay : Nat) {next : Target} {targets : List Target} (h : io.targets = next :: targets) :
    ∃ io', Launch.target cfg family payload buf io delay lastTurn =
      some (.udp family payload buf io' firstDelay) ∧ io'.targets = targets := by
  have hturn : resolveTurn family delay lastTurn = .err .cancelled := rfl
  unfold Launch.target
  simp only [h, hturn]
  rw [zeroed_ok (by decide)]
  cases parseSocketAddr next.addr with
  | some a => exact ⟨_, by simp only [udpIo, h]; rfl, rfl⟩
  | none => exact ⟨_, by simp only [udpIo, h]; rfl, rfl⟩

theorem udp_answered (family : Option AddrFamily) (payload : Payload) (buf : List UInt8) (io : UdpIo)
    (delay : Nat) :
    ∃ s' m, (launch cfg assignment).Reach (.udp family payload buf io delay) s' ∧ s'.answer text = some m := by
  generalize ht : io.targets = targets
  induction targets generalizing io delay with
  | nil => exact ⟨_, _, .refl _, if_pos ht⟩
  | cons next targets ih =>
      obtain ⟨io', hstep, htargets⟩ := target_drops cfg family payload buf delay ht
      obtain ⟨s', m, hreach, hanswer⟩ := ih io' firstDelay htargets
      exact ⟨s', m, .trans (.of_step (l := .target lastTurn) hstep) hreach, hanswer⟩

theorem tcp_answered (payload : Payload) (ipToId : IpAddr → Option UInt32) (io : TcpIo) (delays : Nat → Nat) :
    ∃ s' m, (launch cfg assignment).Reach (.tcp payload ipToId io delays) s' ∧ s'.answer text = some m := by
  generalize ht : io.targets = targets
  induction targets generalizing io with
  | nil => exact ⟨_, _, .refl _, if_pos ht⟩
  | cons next targets ih =>
      obtain ⟨s', m, hreach, hanswer⟩ := ih { io with
        senders := io.senders ++ List.replicate cfg.workers.toNat (TcpSend.init io.counters next.id payload)
        targets := targets } rfl
      refine ⟨s', m, .trans (.of_step (l := .tcp .spawn) ?_) hreach, hanswer⟩
      simp only [launch, Checked.alloc, Launch.ofTask, tcpIo, ht]
      rfl

theorem launch_answered (hsize : cfg.payloadSize.toNat < 2 ^ 63) {s : Launch} (h : s.Inv) :
    ∃ s' m, (launch cfg assignment).Reach s s' ∧ s'.answer text = some m := by
  cases s with
  | resolving port family delay =>
      have hstep : Launch.turn assignment port family delay lastTurn [] =
          .failed (.bind assignment.selfName .noMatching) := by
        cases family <;> rfl
      exact ⟨_, _, .of_step (l := .turn lastTurn []) (congrArg some hstep), rfl⟩
  | binding port family a =>
      exact ⟨.failed (.socket []), _, .of_step (l := .socket (.error [])) rfl, rfl⟩
  | mapping port family =>
      have hne := makePayload_ne_panic hsize
      cases hp : makePayload cfg.payloadSize with
      | ok payload =>
          let ipToId := buildIpMap (fun _ _ => none) cfg.hostlist port family
          have hstep : (launch cfg assignment).step (.mapping port family) (.map fun _ _ => none) =
              some (.tcp payload ipToId (.init cfg assignment) fun _ => firstDelay) := by
            simp only [launch, Launch.spawnTcp, hp]
            rfl
          obtain ⟨s', m, hreach, hanswer⟩ : ∃ s' m,
              (launch cfg assignment).Reach (.tcp payload ipToId (.init cfg assignment) fun _ => firstDelay) s' ∧
                s'.answer text = some m := tcp_answered payload ipToId _ _
          exact ⟨s', m, (Machine.Reach.of_step hstep).trans hreach, hanswer⟩
      | err message =>
          have hstep : (launch cfg assignment).step (.mapping port family) (.map fun _ _ => none) =
              some (.failed (.payload message)) := by
            simp only [launch, Launch.spawnTcp, hp]
            rfl
          exact ⟨_, _, .of_step hstep, rfl⟩
      | panic => exact absurd hp hne
  | udp family payload buf io delay => exact udp_answered family payload buf io delay
  | tcp payload ipToId io delays => exact tcp_answered payload ipToId io delays
  | failed e => exact ⟨_, _, .refl _, rfl⟩
  | panicked => exact absurd h id

/-! ## The reply -/

theorem launch_follows {J : SerdeJson} {S : Session} {s : Launch}
    (hpc : S.pc = .starting (startTest cfg assignment) [])
    (h : (launch cfg assignment).Reach (.init cfg assignment) s) :
    Launch.Follows J text cfg assignment S s := by
  obtain ⟨ls, hrun⟩ := h
  refine Machine.run_invariant (fun {s l s'} hs hstep => ?_) hrun (Launch.follows_init hpc)
  obtain ⟨S₁, hreach, hmatch⟩ := hs
  exact .after hreach (launch_simulated hmatch hstep)

/-- When `start_test` has returned, the session goes on to the reply. -/
theorem launch_replies {s : Launch} {m : Msg} (h : (launch cfg assignment).Reach (.init cfg assignment) s)
    (hm : s.answer text = some m) (J : SerdeJson) (S : Session)
    (hpc : S.pc = .starting (startTest cfg assignment) []) :
    ∃ S' r, (session J).Reach S S' ∧ S'.pc = .replying r ∧ r.msg = m := by
  obtain ⟨S₁, hreach, hmatch⟩ := launch_follows hpc h
  have hended : ∀ {ops spawned}, S₁.pc = .starting ops spawned → ops = [] → m = .ack "start".toList →
      ∃ S' r, (session J).Reach S S' ∧ S'.pc = .replying r ∧ r.msg = m := by
    rintro ops spawned hstarting rfl rfl
    obtain ⟨S', r, hreach', hr, hmsg⟩ := Session.starts (J := J) hstarting
    exact ⟨S', r, hreach.trans hreach', hr, hmsg⟩
  cases s with
  | failed e =>
      cases hm
      exact ⟨S₁, _, hreach, hmatch, rfl⟩
  | udp family payload buf io delay =>
      obtain ⟨spawned, hstarting⟩ := hmatch
      simp only [Launch.answer] at hm
      split at hm <;> cases hm
      rename_i ht
      exact hended hstarting (by rw [Launch.ops, ht, List.map_nil]) rfl
  | tcp payload ipToId io delays =>
      obtain ⟨spawned, hstarting⟩ := hmatch
      simp only [Launch.answer] at hm
      split at hm <;> cases hm
      rename_i ht
      exact hended hstarting (by rw [Launch.ops, ht, List.flatMap_nil]) rfl
  | resolving | binding | mapping | panicked => cases hm

/-! ## The panic -/

/-- A lookup that fails for good. -/
def noAddress : Turn := ⟨false, none, true, false⟩

/-- Some address of the family. -/
def someIp : Option AddrFamily → IpAddr
  | some .v6 => .v6 0
  | _ => .v4 0

theorem someIp_fits (family : Option AddrFamily) (port : UInt16) :
    (family.map (·.fits ⟨someIp family, port⟩)).getD true = true := by
  rcases family with _ | _ | _ <;> rfl

theorem binding_reached (h : Valid cfg) (assignment : Assignment) :
    ∃ port family a, (launch cfg assignment).Reach (.init cfg assignment) (.binding port family a) := by
  obtain ⟨port, family, ⟨a, heq⟩ | heq⟩ := Launch.init_valid h assignment
  · rw [heq]
    exact ⟨port, family, a, .refl _⟩
  · have hpick : pickAddr [⟨someIp family, port⟩] family = .ok ⟨someIp family, port⟩ :=
      pickAddr_singleton (someIp_fits family port)
    have hstep : Launch.turn assignment port family firstDelay noAddress [someIp family] =
        .binding port family ⟨someIp family, port⟩ := by
      have hturn : resolveTurn family firstDelay noAddress = .err (.givingUp .lookup) := rfl
      simp only [Launch.turn, hturn, Launch.bound, Option.filter_none, List.map_cons, List.map_nil, hpick]
      rfl
    rw [heq]
    exact ⟨port, family, _, .of_step (l := .turn noAddress [someIp family]) (congrArg some hstep)⟩

/-- A payload whose capacity overflows ends the server, whatever the assignment. -/
theorem launch_panics (h : Valid cfg) (hsize : 2 ^ 63 ≤ cfg.payloadSize.toNat) (assignment : Assignment) :
    (launch cfg assignment).Reach (.init cfg assignment) .panicked := by
  have hpanic := makePayload_panic hsize
  obtain ⟨port, family, a, hreach⟩ := binding_reached h assignment
  refine hreach.trans ?_
  cases hnet : cfg.network with
  | tcp =>
      have hlisten : (launch cfg assignment).step (.binding port family a) (.socket (.ok ())) =
          some (.mapping port family) := by
        simp only [launch, hnet]
      have hmap : (launch cfg assignment).step (.mapping port family) (.map fun _ _ => none) =
          some .panicked := by
        simp only [launch, Launch.spawnTcp, hpanic]
        rfl
      exact (Machine.Reach.of_step hlisten).trans (.of_step hmap)
  | udp =>
      have hbind : (launch cfg assignment).step (.binding port family a) (.socket (.ok ())) =
          some .panicked := by
        simp only [launch, hnet, Launch.spawnUdp, hpanic]
        rfl
      exact .of_step hbind

/-! ## The theorem -/

/-- An accepted config cannot crash a server exactly when a vector can hold its payload. -/
theorem start_survives_iff (text : StartError → Str) (cfg : Config) (h : validate cfg = .ok ())
    (assignment : Assignment) :
    Survives text cfg assignment ↔ cfg.payloadSize.toNat < 2 ^ 63 := by
  have hvalid := (validate_iff cfg).mp h
  constructor
  · intro hs
    by_contra hsize
    exact hs.no_panic _ (launch_panics hvalid (Nat.not_lt.mp hsize) assignment) rfl
  · intro hsize
    have hinv : ∀ s, (launch cfg assignment).Reach (.init cfg assignment) s → s.Inv := by
      rintro s ⟨ls, hrun⟩
      exact Machine.run_invariant (launch_inv hsize) hrun (Launch.init_inv hvalid assignment)
    constructor
    · rintro s hs rfl
      exact hinv _ hs
    · exact fun s hs => launch_answered hsize (hinv s hs)
    · exact fun s m hs hm => launch_replies hs hm

def sampleAssignment : Assignment where
  selfName := "a".toList
  selfId := 0
  bind := "10.0.0.1:9100".toList
  targets := [⟨"b".toList, 1, "10.0.0.2:9100".toList⟩]

theorem sampleConfig_survives : Survives (fun _ => []) sampleConfig sampleAssignment :=
  (start_survives_iff (fun _ => []) sampleConfig (by decide) sampleAssignment).mpr (by decide)

def hugeConfig : Config := { sampleConfig with network := .udp, payloadSize := 0x8000000000000000 }

/-- The bind address is taken from the assignment, the socket is bound, and `vec!` panics. -/
theorem hugeConfig_panics : validate hugeConfig = .ok () ∧
    (launch hugeConfig sampleAssignment).run (.init hugeConfig sampleAssignment) [.socket (.ok ())] =
      some .panicked ∧ ¬ Survives (fun _ => []) hugeConfig sampleAssignment := by
  have hok : validate hugeConfig = .ok () := by decide
  have hport : testPort hugeConfig = .ok 9100 := by decide
  have hfamily : testFamily hugeConfig = .ok (some .v4) := by decide
  have haddr : parseSocketAddr sampleAssignment.bind = some ⟨.v4 0x0A000001, 9100⟩ := by decide
  have hinit : Launch.init hugeConfig sampleAssignment = .binding 9100 (some .v4) ⟨.v4 0x0A000001, 9100⟩ := by
    rw [Launch.init, hok, hport, hfamily, if_neg (by decide), haddr]
    rfl
  have hpayload : makePayload hugeConfig.payloadSize = .panic := makePayload_panic (by decide)
  have hrun : (launch hugeConfig sampleAssignment).run (.init hugeConfig sampleAssignment) [.socket (.ok ())] =
      some .panicked := by
    have hstep : (launch hugeConfig sampleAssignment).step
        (.binding 9100 (some .v4) ⟨.v4 0x0A000001, 9100⟩) (.socket (.ok ())) =
          some (Launch.spawnUdp hugeConfig sampleAssignment (some .v4)) := rfl
    rw [hinit, Machine.run_cons, hstep, Launch.spawnUdp, hpayload]
    rfl
  exact ⟨hok, hrun, fun h => h.no_panic _ ⟨_, hrun⟩ rfl⟩

end Tperf.Server

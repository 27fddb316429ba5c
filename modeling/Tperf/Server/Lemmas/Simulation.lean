import Tperf.Server.Lemmas.Launch
import Tperf.Server.Session

/-!
# A launch inside a session

The session knows of `start_test` which steps it takes, and the launch with which values. Every step of a
launch is some steps of the session, or none.
-/

namespace Tperf.Server
open Lib Proto Config Net Dataplane

variable {J : SerdeJson} {cfg : Config} {assignment : Assignment} {text : StartError → Str}

/-! ## The steps of the session -/

namespace Session

variable {S : Session} {ops : List StartOp} {spawned : List IoTask}

theorem passes {c : Check} (h : S.pc = .starting (.check c :: ops) spawned) :
    ∃ S', (session J).Reach S S' ∧ S'.pc = .starting ops spawned :=
  ⟨S.goto (.starting ops spawned), .of_step (l := .startStep) (by simp only [session, h]), rfl⟩

theorem fails {c : Check} (h : S.pc = .starting (.check c :: ops) spawned) (message : Str) :
    ∃ S', (session J).Reach S S' ∧ S'.pc = .replying (.failed message) :=
  ⟨S.startFailed spawned message, .of_step (l := .startErr message) (by simp only [session, h]), rfl⟩

theorem spawns {task : IoTask} (h : S.pc = .starting (.spawn task :: ops) spawned) :
    ∃ S', (session J).Reach S S' ∧ S'.pc = .starting ops (spawned ++ [task]) :=
  ⟨S.goto (.starting ops (spawned ++ [task])), .of_step (l := .startStep) (by simp only [session, h]), rfl⟩

theorem spawnsAll {tasks : List IoTask} (h : S.pc = .starting (tasks.map .spawn ++ ops) spawned) :
    ∃ S', (session J).Reach S S' ∧ S'.pc = .starting ops (spawned ++ tasks) := by
  induction tasks generalizing S spawned with
  | nil => exact ⟨S, .refl S, by simpa using h⟩
  | cons task tasks ih =>
      obtain ⟨S₁, hreach₁, hpc₁⟩ := spawns (J := J) h
      obtain ⟨S₂, hreach₂, hpc₂⟩ := ih hpc₁
      exact ⟨S₂, hreach₁.trans hreach₂, by simpa using hpc₂⟩

theorem targets {tasks : List IoTask} (h : S.pc = .starting (.target tasks :: ops) spawned) :
    ∃ S', (session J).Reach S S' ∧ S'.pc = .starting ops (spawned ++ tasks) :=
  ⟨S.goto (.starting ops (spawned ++ tasks)), .of_step (l := .startStep) (by simp only [session, h]), rfl⟩

theorem skips {tasks : List IoTask} (h : S.pc = .starting (.target tasks :: ops) spawned) :
    ∃ S', (session J).Reach S S' ∧ S'.pc = .starting ops spawned :=
  ⟨S.goto (.starting ops spawned), .of_step (l := .startSkip) (by simp only [session, h]), rfl⟩

theorem starts (h : S.pc = .starting [] spawned) :
    ∃ S' r, (session J).Reach S S' ∧ S'.pc = .replying r ∧ r.msg = .ack "start".toList :=
  ⟨S.started spawned, .started S.tests.length, .of_step (l := .startStep) (by simp only [session, h]), rfl, rfl⟩

end Session

/-! ## The relation -/

/-- The steps after the bind address is known. -/
def afterBind (cfg : Config) (assignment : Assignment) : List StartOp :=
  match cfg.network with
  | .tcp => .spawn .accept :: assignment.targets.flatMap fun t => (senders cfg t).map .spawn
  | .udp => .spawn .recv :: assignment.targets.map fun t => .target (senders cfg t)

namespace Launch

/-- The steps of `start_test` that are left. -/
def ops (cfg : Config) (assignment : Assignment) : Launch → List StartOp
  | .resolving .. => .check .resolveBind :: .check .listen :: .check .payload :: afterBind cfg assignment
  | .binding .. => .check .listen :: .check .payload :: afterBind cfg assignment
  | .mapping .. => .check .payload :: .spawn .accept ::
      assignment.targets.flatMap fun t => (senders cfg t).map .spawn
  | .udp _ _ _ io _ => io.targets.map fun t => .target (senders cfg t)
  | .tcp _ _ io _ => io.targets.flatMap fun t => (senders cfg t).map .spawn
  | .failed _ | .panicked => []

/-- The session stands where the launch does. -/
def Matches (text : StartError → Str) (cfg : Config) (assignment : Assignment) (s : Launch) (S : Session) :
    Prop :=
  match s with
  | .failed e => S.pc = .replying (.failed (text e))
  | .panicked => True
  | s => ∃ spawned, S.pc = .starting (s.ops cfg assignment) spawned

/-- From `S` the session goes to where the launch stands. -/
def Follows (J : SerdeJson) (text : StartError → Str) (cfg : Config) (assignment : Assignment) (S : Session)
    (s : Launch) : Prop :=
  ∃ S', (session J).Reach S S' ∧ s.Matches text cfg assignment S'

theorem Follows.after {S S' : Session} {s : Launch} (h : (session J).Reach S S')
    (hs : Follows J text cfg assignment S' s) : Follows J text cfg assignment S s := by
  obtain ⟨S'', hreach, hmatch⟩ := hs
  exact ⟨S'', h.trans hreach, hmatch⟩

/-- A call of `start_test` that can fail is a check of the session. -/
theorem follows_bind {α β : Type} {f : α → Launch} {o : Outcome StartError β} {g : β → Outcome StartError α}
    {S : Session} {c : Check} {ops : List StartOp} {spawned : List IoTask}
    (h : S.pc = .starting (.check c :: ops) spawned)
    (hg : ∀ b, ∀ S' : Session, S'.pc = .starting ops spawned →
      Follows J text cfg assignment S' (ofOutcome f (g b))) :
    Follows J text cfg assignment S (ofOutcome f (o >>= g)) := by
  cases o with
  | ok b =>
      obtain ⟨S', hreach, hpc⟩ := Session.passes (J := J) h
      exact .after hreach (hg b S' hpc)
  | err e =>
      obtain ⟨S', hreach, hpc⟩ := Session.fails (J := J) h (text e)
      exact ⟨S', hreach, hpc⟩
  | panic => exact ⟨S, .refl S, trivial⟩

theorem follows_ofOutcome {α : Type} {f : α → Launch} {o : Outcome StartError α} {S : Session} {c : Check}
    {ops : List StartOp} {spawned : List IoTask} (h : S.pc = .starting (.check c :: ops) spawned)
    (hf : ∀ a, ∀ S' : Session, S'.pc = .starting ops spawned → Follows J text cfg assignment S' (f a)) :
    Follows J text cfg assignment S (ofOutcome f o) := by
  rw [← bind_pure o]
  exact follows_bind h hf

/-! ## The simulation -/

theorem startTest_eq (cfg : Config) (assignment : Assignment) :
    startTest cfg assignment = .check .validate :: .check .testFamily :: .check .testPort ::
      .check .resolveBind :: .check .listen :: .check .payload :: afterBind cfg assignment := by
  rw [startTest, afterBind]
  cases cfg.network <;> rfl

theorem follows_init {S : Session} (h : S.pc = .starting (startTest cfg assignment) []) :
    Follows J text cfg assignment S (init cfg assignment) := by
  rw [startTest_eq] at h
  unfold init
  refine follows_bind h fun _ S₁ h₁ => follows_bind h₁ fun family S₂ h₂ => follows_bind h₂ fun port S₃ h₃ => ?_
  simp only [ofOutcome]
  split
  · obtain ⟨S', hreach, hpc⟩ := Session.passes (J := J) h₃
    exact ⟨S', hreach, _, hpc⟩
  · exact ⟨S₃, .refl S₃, _, h₃⟩

theorem follows_bound {S : Session} {spawned : List IoTask} (port : UInt16) (family : Option AddrFamily)
    (locals : List IpAddr) (resolved : Option SocketAddr)
    (h : S.pc = .starting (.check .resolveBind :: .check .listen :: .check .payload ::
      afterBind cfg assignment) spawned) :
    Follows J text cfg assignment S (bound assignment port family locals resolved) := by
  unfold bound
  split
  · obtain ⟨S', hreach, hpc⟩ := Session.passes (J := J) h
    exact ⟨S', hreach, _, hpc⟩
  · exact follows_ofOutcome h fun a S' hpc => ⟨S', .refl S', _, hpc⟩

theorem follows_spawnUdp {S : Session} {spawned : List IoTask} (family : Option AddrFamily)
    (hnet : cfg.network = .udp)
    (h : S.pc = .starting (.check .payload :: afterBind cfg assignment) spawned) :
    Follows J text cfg assignment S (spawnUdp cfg assignment family) := by
  unfold spawnUdp
  refine follows_bind h fun payload S₁ h₁ => ?_
  rw [afterBind, hnet] at h₁
  obtain ⟨S', hreach, hpc⟩ := Session.spawns (J := J) h₁
  rw [zeroed_ok (by decide)]
  exact ⟨S', hreach, _, hpc⟩

theorem follows_spawnTcp {S : Session} {spawned : List IoTask} (ipToId : IpAddr → Option UInt32)
    (h : S.pc = .starting (.check .payload :: .spawn .accept ::
      assignment.targets.flatMap fun t => (senders cfg t).map .spawn) spawned) :
    Follows J text cfg assignment S (spawnTcp cfg assignment ipToId) := by
  unfold spawnTcp
  refine follows_ofOutcome h fun payload S₁ h₁ => ?_
  obtain ⟨S', hreach, hpc⟩ := Session.spawns (J := J) h₁
  exact ⟨S', hreach, _, hpc⟩

theorem tcpIo_targets {payload : Payload} {ipToId : IpAddr → Option UInt32} {io io' : TcpIo} {l : TcpIoLabel}
    (h : (tcpIo cfg payload ipToId).step io l = some io') :
    io'.targets = io.targets ∨ ∃ t, io.targets = t :: io'.targets := by
  cases tcpIo_steps h with
  | spawn ht => exact .inr ⟨_, ht⟩
  | task | cancel | accept | read | step | close => exact .inl rfl

end Launch

open Launch in
/-- The session follows every step of a launch. -/
theorem launch_simulated {S : Session} {s s' : Launch} {l : LaunchLabel} (h : s.Matches text cfg assignment S)
    (hs : (launch cfg assignment).step s l = some s') : Follows J text cfg assignment S s' := by
  cases launch_steps hs with
  | turn =>
      obtain ⟨spawned, hpc⟩ := h
      unfold turn
      split
      · exact ⟨S, .refl S, spawned, hpc⟩
      · exact follows_bound _ _ _ _ hpc
      · exact follows_bound _ _ _ _ hpc
      · exact ⟨S, .refl S, trivial⟩
  | @refused _ _ _ message =>
      obtain ⟨spawned, hpc⟩ := h
      obtain ⟨S', hreach, hpc'⟩ := Session.fails (J := J) hpc (text (.socket message))
      exact ⟨S', hreach, hpc'⟩
  | listening hnet =>
      obtain ⟨spawned, hpc⟩ := h
      obtain ⟨S', hreach, hpc'⟩ := Session.passes (J := J) hpc
      exact ⟨S', hreach, spawned, by rw [hpc', afterBind, hnet]; rfl⟩
  | bound hnet =>
      obtain ⟨spawned, hpc⟩ := h
      obtain ⟨S', hreach, hpc'⟩ := Session.passes (J := J) hpc
      exact .after hreach (follows_spawnUdp _ hnet hpc')
  | mapped =>
      obtain ⟨spawned, hpc⟩ := h
      exact follows_spawnTcp _ hpc
  | spawned hio =>
      obtain ⟨spawned, hpc⟩ := h
      cases udpIo_steps hio with
      | spawn ht =>
          rw [ops, ht, List.map_cons] at hpc
          obtain ⟨S', hreach, hpc'⟩ := Session.targets (J := J) hpc
          exact ⟨S', hreach, _, hpc'⟩
  | unresolved hio =>
      obtain ⟨spawned, hpc⟩ := h
      cases udpIo_steps hio with
      | unresolved ht =>
          rw [ops, ht, List.map_cons] at hpc
          obtain ⟨S', hreach, hpc'⟩ := Session.skips (J := J) hpc
          exact ⟨S', hreach, _, hpc'⟩
  | received hrecv hio =>
      obtain ⟨spawned, hpc⟩ := h
      cases udpIo_steps hio with
      | recv => exact ⟨S, .refl S, spawned, hpc⟩
  | again | sent | slept =>
      obtain ⟨spawned, hpc⟩ := h
      exact ⟨S, .refl S, spawned, hpc⟩
  | tcp hio =>
      obtain ⟨spawned, hpc⟩ := h
      rcases tcpIo_targets hio with heq | ⟨t, ht⟩
      · exact ⟨S, .refl S, spawned, by rw [hpc, ops, ops, heq]⟩
      · rw [ops, ht, List.flatMap_cons] at hpc
        obtain ⟨S', hreach, hpc'⟩ := Session.spawnsAll (J := J) hpc
        exact ⟨S', hreach, _, hpc'⟩
  | targetPanics | sendPanics | recvPanics | allocPanics | sleepPanics => exact ⟨S, .refl S, trivial⟩

end Tperf.Server

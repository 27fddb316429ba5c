import Tperf.Proto.Basic

/-!
# What `start_test` does, in order

The steps that can fail, and the tasks that are spawned into the `JoinSet` of the test. The metrics
task is spawned last, when nothing can fail any more.
-/

namespace Tperf.Server
open Proto

inductive Check
  | validate
  | testFamily
  | testPort
  | resolveBind
  | listen
  | payload
  deriving DecidableEq, Repr

/-- A task of the data plane that `spawn_tcp` or `spawn_udp` puts into the `JoinSet`. The receive tasks of TCP
connections are not: they are the receivers of `serving`. -/
inductive IoTask
  | accept
  | recv
  | send (target : UInt32)
  deriving DecidableEq, Repr

inductive StartOp
  | check (c : Check)
  | spawn (task : IoTask)
  /-- The senders to a UDP target, which is passed over when its address is not resolved. -/
  | target (tasks : List IoTask)
  deriving DecidableEq, Repr

/-- The workers that send to one target. -/
def senders (config : Config) (t : Target) : List IoTask :=
  List.replicate config.workers.toNat (.send t.id)

def spawnTcp (config : Config) (assignment : Assignment) : List StartOp :=
  [.check .testPort, .check .resolveBind, .check .listen, .check .payload, .spawn .accept] ++
    assignment.targets.flatMap fun t => (senders config t).map .spawn

def spawnUdp (config : Config) (assignment : Assignment) : List StartOp :=
  [.check .testPort, .check .resolveBind, .check .listen, .check .payload, .spawn .recv] ++
    assignment.targets.map fun t => .target (senders config t)

def startTest (config : Config) (assignment : Assignment) : List StartOp :=
  [.check .validate, .check .testFamily] ++
    match config.network with
    | .tcp => spawnTcp config assignment
    | .udp => spawnUdp config assignment

def StartOp.isCheck : StartOp → Bool
  | .check _ => true
  | _ => false

/-- Nothing is spawned before the last step that can fail. -/
def ChecksFirst : List StartOp → Prop
  | [] => True
  | op :: ops => if op.isCheck then ChecksFirst ops else ∀ o ∈ ops, o.isCheck = false

theorem checksFirst_append {cs ops : List StartOp} (hcs : ∀ c ∈ cs, c.isCheck = true)
    (hops : ∀ o ∈ ops, o.isCheck = false) : ChecksFirst (cs ++ ops) := by
  induction cs with
  | nil =>
      cases ops with
      | nil => trivial
      | cons o ops =>
          rw [List.nil_append, ChecksFirst, hops o List.mem_cons_self]
          exact fun o' ho' => hops o' (List.mem_cons_of_mem o ho')
  | cons c cs ih =>
      rw [List.cons_append, ChecksFirst, hcs c List.mem_cons_self]
      exact ih fun c' hc' => hcs c' (List.mem_cons_of_mem c hc')

/-- The steps of `start_test` that can fail, for both networks. -/
def startChecks : List StartOp :=
  [.check .validate, .check .testFamily, .check .testPort, .check .resolveBind, .check .listen,
    .check .payload]

theorem startChecks_isCheck : ∀ c ∈ startChecks, c.isCheck = true := by decide

theorem startTest_checksFirst (config : Config) (assignment : Assignment) :
    ChecksFirst (startTest config assignment) := by
  rw [startTest]
  cases config.network with
  | tcp =>
      have hops : ∀ o ∈ StartOp.spawn .accept ::
          assignment.targets.flatMap fun t => (senders config t).map .spawn, o.isCheck = false := by
        intro o ho
        rcases List.mem_cons.mp ho with rfl | ho
        · rfl
        · obtain ⟨t, _, ho⟩ := List.mem_flatMap.mp ho
          obtain ⟨task, _, rfl⟩ := List.mem_map.mp ho
          rfl
      have h := checksFirst_append startChecks_isCheck hops
      exact h
  | udp =>
      have hops : ∀ o ∈ StartOp.spawn .recv ::
          assignment.targets.map fun t => .target (senders config t), o.isCheck = false := by
        intro o ho
        rcases List.mem_cons.mp ho with rfl | ho
        · rfl
        · obtain ⟨t, _, rfl⟩ := List.mem_map.mp ho
          rfl
      have h := checksFirst_append startChecks_isCheck hops
      exact h

end Tperf.Server

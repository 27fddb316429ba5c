import Tperf.Server.Session

/-!
# What a step of a session does, and which tests may run

Every test that is not stopped is held by `handle_conn`: in its variable while it reads, in a local
variable while it stops the test or answers the start.
-/

namespace Tperf.Server
open Lib Proto

/-- The test in a local variable. -/
def MainPc.holds : MainPc → Option Nat
  | .stopWait i _ | .stopJoin i _ | .replying (.started i) => some i
  | _ => none

theorem After.checks (k : After) : ∀ ops spawned, k.pc = .starting ops spawned →
    ChecksFirst ops ∧ (spawned = [] ∨ ∀ o ∈ ops, o.isCheck = false) := by
  intro ops spawned hpc
  cases k with
  | startTest config assignment =>
      cases hpc
      exact ⟨startTest_checksFirst config assignment, .inl rfl⟩
  | ackStop => cases hpc
  | finish => cases hpc

namespace Session

variable {J : SerdeJson} {s t : Session}

/-! ## One step -/

inductive Steps (J : SerdeJson) (s : Session) : SessionLabel → Session → Prop
  | recv (m : Msg) : s.pc = .reading → Steps J s (.recv m) (s.recv m)
  | recvErr : s.pc = .reading → Steps J s .recvErr (s.stopThen .finish)
  | started (spawned : List IoTask) : s.pc = .starting [] spawned →
      Steps J s .startStep (s.started spawned)
  | startOp (l : SessionLabel) (op : StartOp) (ops : List StartOp) (spawned more : List IoTask) :
      s.pc = .starting (op :: ops) spawned → (op.isCheck = true → more = []) →
      Steps J s l (s.goto (.starting ops (spawned ++ more)))
  | startErr (message : Str) (op : StartOp) (ops : List StartOp) (spawned : List IoTask) :
      s.pc = .starting (op :: ops) spawned → op.isCheck = true →
      Steps J s (.startErr message) (s.startFailed spawned message)
  | lock (l : SessionLabel) (x : Sent) : s.lock = none →
      (∀ r, x = .reply r → s.pc = .replying r ∧ l = .lockMain) →
      (∀ i w, x = .metrics i w → l = .lockMetrics i ∧
        ∃ u, s.tests[i]? = some u ∧ u.metrics = .emitting w) →
      Steps J s l (s.locked J x)
  | write (x : Sent) (n k : Nat) : s.lock = some (x, n) → 0 < k →
      n + k < (frame (J.toVec x.msg)).length →
      Steps J s (.write k) { s with
        out := s.out ++ ((frame (J.toVec x.msg)).drop n).take k
        lock := some (x, n + k) }
  | last (x : Sent) (n k : Nat) : s.lock = some (x, n) → 0 < k →
      n + k = (frame (J.toVec x.msg)).length →
      Steps J s (.write k) ({ s with
        out := s.out ++ ((frame (J.toVec x.msg)).drop n).take k
        lock := none
        sent := s.sent ++ [x] }.wrote true x)
  | writeErr (x : Sent) (n : Nat) : s.lock = some (x, n) →
      Steps J s .writeErr ({ s with lock := none, sockErr := true }.wrote false x)
  | metrics (l : SessionLabel) (i : Nat) (u : RunningTest) (pc : MetricsPc) :
      s.tests[i]? = some u → u.metrics = .waiting → Steps J s l (s.setMetrics i pc)
  | ioDone (i j : Nat) : Steps J s (.ioDone i j) (s.onTest i fun u => { u with io := u.io.eraseIdx j })
  | stopped (l : SessionLabel) (i : Nat) (k : After) : s.pc = .stopWait i k →
      Steps J s l (s.goto (.stopJoin i k))
  | joined (i : Nat) (k : After) : s.pc = .stopJoin i k → Steps J s .joined (s.joined i k)

theorem steps {l : SessionLabel} (h : (session J).step s l = some t) : Steps J s l t := by
  cases l with
  | recv m =>
      simp only [session] at h
      split at h
      · cases h; exact .recv m ‹_›
      · cases h
  | recvErr =>
      simp only [session] at h
      split at h
      · cases h; exact .recvErr ‹_›
      · cases h
  | startStep =>
      simp only [session] at h
      split at h
      · cases h; exact .started _ ‹_›
      · rename_i c ops spawned hpc
        cases h
        simpa using Steps.startOp (J := J) .startStep (.check c) ops spawned [] hpc fun _ => rfl
      · cases h; exact .startOp _ _ _ _ [_] ‹_› fun hc => by cases hc
      · cases h; exact .startOp _ _ _ _ _ ‹_› fun hc => by cases hc
      · cases h
  | startErr message =>
      simp only [session] at h
      split at h
      · cases h; exact .startErr message _ _ _ ‹_› rfl
      · cases h
  | startSkip =>
      simp only [session] at h
      split at h
      · rename_i tasks ops spawned hpc
        cases h
        simpa using Steps.startOp (J := J) .startSkip (.target tasks) ops spawned [] hpc fun _ => rfl
      · cases h
  | lockMain =>
      simp only [session] at h
      split at h
      · rename_i r hl hpc
        cases h
        exact .lock _ (.reply r) hl (fun _ hr => by cases hr; exact ⟨hpc, rfl⟩) nofun
      · cases h
  | lockMetrics i =>
      simp only [session] at h
      split at h
      · rename_i window _ hl hu
        cases h
        exact .lock _ (.metrics i window) hl nofun fun _ _ hx => by
          cases hx; exact ⟨rfl, _, hu, rfl⟩
      · cases h
  | write k =>
      simp only [session] at h
      split at h
      · cases h
      · rename_i x n hl
        split at h
        · cases h
        · rename_i hk
          split at h
          · rename_i hlt
            cases h
            exact .write x n k hl (by omega) hlt
          · rename_i hlt
            cases h
            exact .last x n k hl (by omega) (by omega)
  | writeErr =>
      simp only [session] at h
      split at h
      · cases h
      · cases h; exact .writeErr _ _ ‹_›
  | emit i window =>
      simp only [session] at h
      split at h
      · cases h; exact .metrics _ i _ _ ‹_› rfl
      · cases h
  | metricsDone i =>
      simp only [session] at h
      split at h
      · cases h; exact .metrics _ i _ _ ‹_› rfl
      · cases h
  | ioDone i j =>
      simp only [session] at h
      cases h
      exact .ioDone i j
  | stopDone =>
      simp only [session] at h
      split at h
      · split at h
        · cases h; exact .stopped _ _ _ ‹_›
        · cases h
      · cases h
  | stopTimeout =>
      simp only [session] at h
      split at h
      · cases h; exact .stopped _ _ _ ‹_›
      · cases h
  | joined =>
      simp only [session] at h
      split at h
      · cases h; exact .joined _ _ ‹_›
      · cases h

/-! ## Tests -/

theorem onTest_get {i j : Nat} {f : RunningTest → RunningTest} {u : RunningTest}
    (h : (s.onTest i f).tests[j]? = some u) :
    ∃ v, s.tests[j]? = some v ∧ u = if i = j then f v else v := by
  rw [onTest, List.getElem?_modify] at h
  obtain ⟨v, hv, hu⟩ := Option.map_eq_some_iff.mp h
  exact ⟨v, hv, hu.symm⟩

theorem get_onTest {i j : Nat} (f : RunningTest → RunningTest) {v : RunningTest}
    (h : s.tests[j]? = some v) :
    (s.onTest i f).tests[j]? = some (if i = j then f v else v) := by
  rw [onTest, List.getElem?_modify, h]
  rfl

/-! ## Who holds a test, and who the lock -/

/-- The writer of `x` is at its write. -/
def Owns (s : Session) : Sent → Prop
  | .reply r => s.pc = .replying r
  | .metrics i window => ∃ u, s.tests[i]? = some u ∧ u.metrics = .emitting window

structure Inv (s : Session) : Prop where
  owner : ∀ x n, s.lock = some (x, n) → s.Owns x
  joined : ∀ (i : Nat) (u : RunningTest), s.tests[i]? = some u → u.joined = true →
    u.cancelled = true ∧ u.io = [] ∧ u.metrics = .done
  held : ∀ (i : Nat) (u : RunningTest), s.tests[i]? = some u → u.joined = false →
    s.test = some i ∨ s.pc.holds = some i
  cancelled : ∀ (i : Nat) (k : After), s.pc = .stopWait i k ∨ s.pc = .stopJoin i k →
    ∀ u : RunningTest, s.tests[i]? = some u → u.cancelled = true
  var : s.pc ≠ .reading → s.test = none
  checks : ∀ ops spawned, s.pc = .starting ops spawned →
    ChecksFirst ops ∧ (spawned = [] ∨ ∀ o ∈ ops, o.isCheck = false)
  orphans : s.orphans = []

theorem init_inv : init.Inv where
  owner := nofun
  joined := by simp [init]
  held := by simp [init]
  cancelled := by simp [init]
  var _ := rfl
  checks := by simp [init]
  orphans := rfl

/-- Where the program point holds no test, the variable does. -/
theorem held_var (hh : s.pc.holds = none) {j : Nat} (hj : s.test = some j ∨ s.pc.holds = some j) :
    s.test = some j := by
  rcases hj with hj | hj
  · exact hj
  · rw [hh] at hj; cases hj

/-- Where `handle_conn` holds no test, none runs. -/
theorem Inv.all_joined (h : s.Inv) (hpc : s.pc ≠ .reading) (hh : s.pc.holds = none) {i : Nat}
    {u : RunningTest} (hu : s.tests[i]? = some u) : u.joined = true := by
  cases hj : u.joined with
  | true => rfl
  | false =>
      have ht := held_var hh (h.held i u hu hj)
      rw [h.var hpc] at ht
      cases ht

/-- There is one test at most that is not joined. -/
theorem Inv.at_most_one (h : s.Inv) {i j : Nat} {u v : RunningTest} (hu : s.tests[i]? = some u)
    (hv : s.tests[j]? = some v) (huj : u.joined = false) (hvj : v.joined = false) : i = j := by
  have hi := h.held i u hu huj
  have hj := h.held j v hv hvj
  cases htest : s.test with
  | some k =>
      -- only at the head of the loop is there a test in the variable
      have hpc : s.pc = .reading := by
        apply Classical.byContradiction
        intro hpc
        rw [h.var hpc] at htest
        cases htest
      have hnone : s.pc.holds = none := by rw [hpc]; rfl
      rw [hnone] at hi hj
      simp only [reduceCtorEq, or_false] at hi hj
      exact Option.some.inj (hi.symm.trans hj)
  | none =>
      rw [htest] at hi hj
      simp only [reduceCtorEq, false_or] at hi hj
      exact Option.some.inj (hi.symm.trans hj)

/-! ## Moves of `handle_conn` -/

/-- `handle_conn` owns the lock only at a reply. -/
theorem Inv.no_reply (h : s.Inv) (hpc : ∀ r, s.pc ≠ .replying r) (r : Reply) (n : Nat) :
    s.lock ≠ some (.reply r, n) := fun hl => hpc r (h.owner _ n hl)

theorem Inv.owner_metrics (h : s.Inv) (hpc : ∀ r, s.pc ≠ .replying r) {x : Sent} {n : Nat}
    (hl : s.lock = some (x, n)) : ∃ i w u, x = .metrics i w ∧ s.tests[i]? = some u ∧
      u.metrics = .emitting w := by
  cases x with
  | reply r => exact absurd hl (h.no_reply hpc r n)
  | metrics i w =>
      obtain ⟨u, hu, hw⟩ := h.owner _ n hl
      exact ⟨i, w, u, rfl, hu, hw⟩

/-- `handle_conn` goes on; it keeps hold of the test it held, and no reply owns the lock. -/
theorem Inv.move (h : s.Inv) {pc : MainPc} {test : Option Nat}
    (hlock : ∀ r n, s.lock ≠ some (.reply r, n))
    (hheld : ∀ i, s.test = some i ∨ s.pc.holds = some i → test = some i ∨ pc.holds = some i)
    (hcancelled : ∀ (i : Nat) (k : After), pc = .stopWait i k ∨ pc = .stopJoin i k →
      ∀ u : RunningTest, s.tests[i]? = some u → u.cancelled = true)
    (hvar : pc ≠ .reading → test = none)
    (hchecks : ∀ ops spawned, pc = .starting ops spawned →
      ChecksFirst ops ∧ (spawned = [] ∨ ∀ o ∈ ops, o.isCheck = false)) :
    Inv { s with pc := pc, test := test } where
  owner x n hl := by
    cases x with
    | reply r => exact absurd hl (hlock r n)
    | metrics i w => exact h.owner _ n hl
  joined := h.joined
  held i u hu hj := hheld i (h.held i u hu hj)
  cancelled := hcancelled
  var := hvar
  checks := hchecks
  orphans := h.orphans

/-- A test changes, but neither how it stands with `stop` nor what its metrics task writes. -/
theorem Inv.onTest (h : s.Inv) {i : Nat} {f : RunningTest → RunningTest}
    (hjoined : ∀ u, (f u).joined = u.joined)
    (hf : ∀ u, s.tests[i]? = some u → u.joined = true → f u = u)
    (hcancelled : ∀ u, u.cancelled = true → (f u).cancelled = true)
    (hwrite : ∀ w n, s.lock = some (.metrics i w, n) → ∀ u, (f u).metrics = u.metrics) :
    (s.onTest i f).Inv where
  owner x n hl := by
    cases x with
    | reply r => exact h.owner _ n hl
    | metrics j w =>
        obtain ⟨u, hu, hw⟩ := h.owner _ n hl
        refine ⟨_, get_onTest f hu, ?_⟩
        split
        · rename_i hij
          rw [hwrite w n (hij ▸ hl), hw]
        · exact hw
  joined j u hu hj := by
    obtain ⟨v, hv, rfl⟩ := onTest_get hu
    split
    · rename_i hij
      subst hij
      rw [if_pos rfl, hjoined] at hj
      rw [hf v hv hj]
      exact h.joined i v hv hj
    · rename_i hij
      rw [if_neg hij] at hj
      exact h.joined j v hv hj
  held j u hu hj := by
    obtain ⟨v, hv, rfl⟩ := onTest_get hu
    refine h.held j v hv ?_
    split at hj
    · rw [← hjoined]; exact hj
    · exact hj
  cancelled j k hpc u hu := by
    obtain ⟨v, hv, rfl⟩ := onTest_get hu
    have := h.cancelled j k hpc v hv
    split
    · exact hcancelled v this
    · exact this
  var := h.var
  checks := h.checks
  orphans := h.orphans

/-- `stop` on the test that `handle_conn` holds. -/
theorem Inv.stop (h : s.Inv) {i : Nat} (hlock : ∀ r n, s.lock ≠ some (.reply r, n))
    (hheld : ∀ j, s.test = some j ∨ s.pc.holds = some j → j = i) (k : After) :
    ({ s with test := none }.stop i k).Inv := by
  have hc : (s.onTest i fun u => { u with cancelled := true }).Inv := by
    refine h.onTest (fun _ => rfl) (fun u hu hj => ?_) (fun _ _ => rfl) fun _ _ _ _ => rfl
    have := (h.joined i u hu hj).1
    cases u
    simp_all
  refine hc.move hlock (fun j hj => .inr (congrArg some (hheld j hj).symm)) ?_ (fun _ => rfl) nofun
  intro j k' hpc u hu
  obtain ⟨v, _, rfl⟩ := onTest_get hu
  obtain rfl : i = j := by
    rcases hpc with hpc | hpc
    · cases hpc; rfl
    · cases hpc
  rw [if_pos rfl]

theorem Inv.stopThen (h : s.Inv) (hpc : s.pc = .reading) (k : After) : (s.stopThen k).Inv := by
  have hlock := h.no_reply (by simp [hpc])
  have hheld : s.pc.holds = none := by rw [hpc]; rfl
  rw [Session.stopThen]
  split
  · rename_i ht
    refine h.move hlock (fun j hj => .inl (held_var hheld hj)) ?_ (fun _ => ht) k.checks
    rintro j k' (hk | hk) <;> cases k <;> cases hk
  · rename_i i ht
    exact h.stop hlock (fun j hj => Option.some.inj ((held_var hheld hj).symm.trans ht)) k

/-- The lock is free behind the write of `x`. -/
theorem Inv.wrote (h : s.Inv) (hl : s.lock = none) {x : Sent} (hx : s.Owns x) (ok : Bool) :
    (s.wrote ok x).Inv := by
  have hlock : ∀ r n, s.lock ≠ some (.reply r, n) := fun r n h => by rw [hl] at h; cases h
  cases x with
  | metrics i w =>
      obtain ⟨u, hu, hw⟩ := hx
      refine h.onTest (fun _ => rfl) (fun v hv hj => ?_) (fun _ hc => hc) fun _ _ h => ?_
      · cases hu.symm.trans hv
        rw [(h.joined i u hu hj).2.2] at hw
        cases hw
      · rw [hl] at h; cases h
  | reply r =>
      have hpc : s.pc = .replying r := hx
      have hvar : s.test = none := h.var (by simp [hpc])
      cases r with
      | started i =>
          have hheld : ∀ j, s.test = some j ∨ s.pc.holds = some j → j = i := by
            rintro j (hj | hj)
            · rw [hvar] at hj; cases hj
            · rw [hpc] at hj; cases hj; rfl
          cases ok with
          | true =>
              exact h.move hlock (fun j hj => .inl (congrArg some (hheld j hj).symm))
                (by rintro j k (hk | hk) <;> cases hk) (fun hne => absurd rfl hne) nofun
          | false =>
              have hs : { s with test := none } = s := by rw [← hvar]
              have := h.stop hlock hheld .finish
              rw [hs] at this
              exact this
      | failed message =>
          have hheld : s.pc.holds = none := by rw [hpc]; rfl
          exact h.move hlock (fun j hj => .inl (held_var hheld hj))
            (by rintro j k (hk | hk) <;> cases hk) (fun _ => hvar) nofun
      | stopped =>
          have hheld : s.pc.holds = none := by rw [hpc]; rfl
          refine h.move hlock (fun j hj => .inl (held_var hheld hj)) ?_ (fun _ => hvar) ?_
          · rintro j k (hk | hk) <;> cases ok <;> cases hk
          · cases ok <;> exact nofun

theorem Inv.locked (h : s.Inv) (hl : s.lock = none) {x : Sent} (hx : s.Owns x) :
    (s.locked J x).Inv := by
  rw [Session.locked]
  split
  · refine { h with owner := fun y n hy => ?_ }
    cases hy
    exact hx
  · exact h.wrote hl hx false

/-- The lock may be let go of at any time. -/
theorem Inv.unlock (h : s.Inv) {out : List UInt8} {sent : List Sent} {err : Bool} :
    Inv { s with lock := none, out := out, sent := sent, sockErr := err } :=
  { h with owner := nofun }

/-- The new test is not joined, and every other is. -/
theorem Inv.started (h : s.Inv) {spawned : List IoTask} (hpc : s.pc = .starting [] spawned) :
    (s.started spawned).Inv := by
  have hall : ∀ (i : Nat) (u : RunningTest), s.tests[i]? = some u → u.joined = true :=
    fun i u hu => h.all_joined (by simp [hpc]) (by rw [hpc]; rfl) hu
  have hnew : ∀ (i : Nat) (u : RunningTest),
      (s.tests ++ [⟨false, spawned, .waiting, false⟩])[i]? = some u → s.tests[i]? = some u ∨
        i = s.tests.length ∧ u = ⟨false, spawned, .waiting, false⟩ := by
    intro i u hu
    rw [List.getElem?_append] at hu
    split at hu
    · exact .inl hu
    · rename_i hi
      obtain ⟨hi', rfl⟩ : i - s.tests.length = 0 ∧ _ = u := by
        simpa [List.getElem?_singleton] using hu
      exact .inr ⟨by omega, rfl⟩
  refine ⟨fun x n hl => ?_, fun i u hu hj => ?_, fun i u hu hj => ?_, ?_, fun _ => ?_,
    (fun _ _ hk => by cases hk), h.orphans⟩
  · obtain ⟨i, w, u, rfl, hu, hw⟩ := h.owner_metrics (by simp [hpc]) hl
    have := (h.joined i u hu (hall i u hu)).2.2
    rw [hw] at this
    cases this
  · rcases hnew i u hu with hu | ⟨_, rfl⟩
    · exact h.joined i u hu hj
    · cases hj
  · rcases hnew i u hu with hu | ⟨rfl, _⟩
    · rw [hall i u hu] at hj; cases hj
    · exact .inr rfl
  · rintro i k (hk | hk) <;> cases hk
  · exact h.var (by simp [hpc])

/-- Nothing is spawned before the checks are through. -/
theorem Inv.unspawned (h : s.Inv) {op : StartOp} {ops : List StartOp} {spawned : List IoTask}
    (hpc : s.pc = .starting (op :: ops) spawned) (hop : op.isCheck = true) : spawned = [] := by
  rcases (h.checks _ _ hpc).2 with hsp | hsp
  · exact hsp
  · rw [hsp op List.mem_cons_self] at hop; cases hop

theorem Inv.startOp (h : s.Inv) {op : StartOp} {ops : List StartOp} {spawned more : List IoTask}
    (hpc : s.pc = .starting (op :: ops) spawned) (hmore : op.isCheck = true → more = []) :
    (s.goto (.starting ops (spawned ++ more))).Inv := by
  have hheld : s.pc.holds = none := by rw [hpc]; rfl
  refine h.move (h.no_reply (by simp [hpc])) (fun j hj => .inl (held_var hheld hj))
    (by rintro j k (hk | hk) <;> cases hk) (fun _ => h.var (by simp [hpc])) ?_
  rintro ops' spawned' hk
  cases hk
  have hfirst := (h.checks _ _ hpc).1
  rw [ChecksFirst] at hfirst
  cases hop : op.isCheck with
  | true =>
      rw [hop, if_pos rfl] at hfirst
      refine ⟨hfirst, .inl ?_⟩
      rw [hmore hop, List.append_nil]
      exact h.unspawned hpc hop
  | false =>
      rw [hop] at hfirst
      refine ⟨?_, .inr hfirst⟩
      cases ops with
      | nil => trivial
      | cons o ops =>
          rw [ChecksFirst, hfirst o List.mem_cons_self]
          exact fun o' ho' => hfirst o' (List.mem_cons_of_mem o ho')

theorem Inv.startFailed (h : s.Inv) {op : StartOp} {ops : List StartOp} {spawned : List IoTask}
    (hpc : s.pc = .starting (op :: ops) spawned) (hop : op.isCheck = true) (message : Str) :
    (s.startFailed spawned message).Inv := by
  have hheld : s.pc.holds = none := by rw [hpc]; rfl
  have hmove : Inv (s.goto (.replying (.failed message))) :=
    h.move (h.no_reply (by simp [hpc])) (fun j hj => .inl (held_var hheld hj))
      (by rintro j k (hk | hk) <;> cases hk) (fun _ => h.var (by simp [hpc])) (by simp)
  refine { hmove with orphans := ?_ }
  show s.orphans ++ spawned = []
  rw [h.orphans, h.unspawned hpc hop]; rfl

theorem Inv.stopped (h : s.Inv) {i : Nat} {k : After} (hpc : s.pc = .stopWait i k) :
    (s.goto (.stopJoin i k)).Inv := by
  refine h.move (h.no_reply (by simp [hpc])) (fun j hj => ?_) (fun j k' hk => ?_)
    (fun _ => h.var (by simp [hpc])) (by simp)
  · rcases hj with hj | hj
    · exact .inl hj
    · rw [hpc] at hj; exact .inr hj
  · rcases hk with hk | hk
    · cases hk
    · cases hk; exact h.cancelled i k (.inl hpc)

/-- The lock that is left belongs to another test. -/
theorem Inv.joined_owner (h : s.Inv) {i : Nat} {k : After} (hpc : s.pc = .stopJoin i k) {x : Sent} {n : Nat}
    (hl : (s.joined i k).lock = some (x, n)) :
    ∃ j w u, x = .metrics j w ∧ s.tests[j]? = some u ∧ u.metrics = .emitting w ∧ i ≠ j := by
  simp only [Session.joined] at hl
  split at hl
  · rename_i j w m hs
    split at hl
    · cases hl
    · rename_i hij
      cases hl
      obtain ⟨u, hu, hw⟩ := h.owner _ _ hs
      exact ⟨j, w, u, rfl, hu, hw, fun e => hij e.symm⟩
  · rename_i hno
    obtain ⟨j, w, u, rfl, _⟩ := h.owner_metrics (by simp [hpc]) hl
    exact absurd hl (hno j w n)

theorem Inv.joinedTest (h : s.Inv) {i : Nat} {k : After} (hpc : s.pc = .stopJoin i k) :
    (s.joined i k).Inv := by
  have hvar : s.test = none := h.var (by simp [hpc])
  refine ⟨fun x n hl => ?_, fun j u hu hj => ?_, fun j u hu hj => ?_, ?_, fun _ => hvar, k.checks,
    h.orphans⟩
  · obtain ⟨j, w, u, rfl, hu, hw, hij⟩ := h.joined_owner hpc hl
    refine ⟨u, ?_, hw⟩
    have := get_onTest (s := s) (i := i)
      (fun u => { u with io := [], metrics := .done, joined := true }) hu
    rwa [if_neg hij] at this
  · obtain ⟨v, hv, rfl⟩ := onTest_get hu
    split
    · rename_i hij
      exact ⟨h.cancelled i k (.inr hpc) v (hij ▸ hv), rfl, rfl⟩
    · rename_i hij
      rw [if_neg hij] at hj
      exact h.joined j v hv hj
  · obtain ⟨v, hv, rfl⟩ := onTest_get hu
    split at hj
    · cases hj
    · rename_i hij
      have ht := h.held j v hv hj
      rw [hvar, hpc] at ht
      rcases ht with ht | ht
      · cases ht
      · cases ht; exact absurd rfl hij
  · rintro j k' (hk | hk) <;> cases k <;> cases hk

theorem Inv.step {l : SessionLabel} (h : s.Inv) (hs : (session J).step s l = some t) : t.Inv := by
  cases steps hs with
  | recv m hpc =>
      have h' : Inv { s with requests := s.requests ++ [m] } := { h with }
      cases m with
      | start _ _ => exact h'.stopThen hpc _
      | stop => exact h'.stopThen hpc _
      | ack _ => exact h'
      | metrics _ => exact h'
      | error _ => exact h'
  | recvErr hpc => exact h.stopThen hpc _
  | started spawned hpc => exact h.started hpc
  | startOp l op ops spawned more hpc hmore => exact h.startOp hpc hmore
  | startErr message op ops spawned hpc hop => exact h.startFailed hpc hop message
  | lock l x hl hr hm =>
      refine h.locked hl ?_
      cases x with
      | reply r => exact (hr r rfl).1
      | metrics i w => exact (hm i w rfl).2
  | write x n k hl _ _ =>
      refine { h with owner := fun y m hy => ?_ }
      cases hy
      exact h.owner x n hl
  | last x n k hl _ _ => exact h.unlock.wrote rfl (h.owner x n hl) true
  | writeErr x n hl => exact h.unlock.wrote rfl (h.owner x n hl) false
  | metrics l i u pc hu hw =>
      refine h.onTest (fun _ => rfl) (fun v hv hj => ?_) (fun _ hc => hc) fun w n hl _ => ?_
      · cases hu.symm.trans hv
        rw [(h.joined i u hu hj).2.2] at hw
        cases hw
      · obtain ⟨v, hv, hv'⟩ := h.owner _ n hl
        cases hu.symm.trans hv
        rw [hw] at hv'
        cases hv'
  | ioDone i j =>
      refine h.onTest (fun _ => rfl) (fun u hu hj => ?_) (fun _ hc => hc) fun _ _ _ _ => rfl
      have := (h.joined i u hu hj).2.1
      cases u
      simp_all
  | stopped l i k hpc => exact h.stopped hpc
  | joined i k hpc => exact h.joinedTest hpc

end Session

end Tperf.Server

import Tperf.Server.Lemmas.LastStop

/-!
# The test of the last start
-/

namespace Tperf.Server
open Lib Proto

/-- When all starts count, all have made a test. -/
theorem all_ok {n : Nat} {os : List (Except Str Nat)} (h : (okStarts n os).length = os.length) :
    os = (os.filterMap Except.toOption).map .ok := by
  have hle : ∀ n os, (okStarts n os).length ≤ os.length := by
    intro n os
    induction os generalizing n with
    | nil => exact Nat.le_refl 0
    | cons o os ih =>
        cases o with
        | ok _ => exact Nat.succ_le_succ (ih _)
        | error _ => exact Nat.le_succ_of_le (ih _)
  induction os generalizing n with
  | nil => rfl
  | cons o os ih =>
      cases o with
      | ok k =>
          have htail := ih (Nat.succ.inj h)
          simp only [List.filterMap_cons, Except.toOption, List.map_cons]
          exact congrArg _ htail
      | error e =>
          have h : (okStarts (n + 1) os).length = os.length + 1 := h
          have := hle (n + 1) os
          omega

namespace Session

variable {J : SerdeJson} {s t : Session}

/-- Before a stop is read, `handle_conn` reads on only with the test of the last start in its variable. -/
def Holds (s : Session) : Prop :=
  s.pc = .reading → AllStarts s.requests → ∀ k, s.outcomes.getLast? = some (.ok k) → s.test = some k

theorem init_holds : init.Holds := by simp [Holds, init]

theorem Holds.busy (h : t.pc ≠ .reading) : t.Holds := fun hpc => absurd hpc h

theorem stopThen_pc (s : Session) (k : After) : (s.stopThen k).pc ≠ .reading := by
  rcases (stopThen_fields s k).2.2.2 with h | ⟨i, h⟩
  · rw [h]; cases k <;> simp [After.pc]
  · rw [h]; simp

theorem Holds.recv (m : Msg) : (s.recv m).Holds := by
  have hno : (∀ config assignment, m ≠ .start config assignment) → ¬ AllStarts (s.requests ++ [m]) := by
    intro hm hall
    obtain ⟨config, assignment, h⟩ := hall m (by simp)
    exact hm config assignment h
  cases m with
  | start config assignment => exact .busy (stopThen_pc _ _)
  | stop => exact .busy (stopThen_pc _ _)
  | ack _ | metrics _ | error _ => exact fun _ hall => absurd hall (hno (by simp))

theorem Served.not_allStarts (h : s.Served) (hpc : s.pc = .replying .stopped) : ¬ AllStarts s.requests := by
  intro hall
  have hr := (h.of_ready (by rw [hpc]; rfl)).2
  have hmem : .stopped ∈ replies s.requests s.outcomes := by rw [hr, hpc]; simp [MainPc.pending]
  exact stopped_not_mem hall _ hmem

/-- The reply has been written, or has not. -/
theorem Holds.wrote {x : Sent} (h : s.Holds) (hdue : s.Due)
    (hstop : s.pc = .replying .stopped → ¬ AllStarts s.requests) (hpc : ∀ r, x = .reply r → s.pc = .replying r)
    (ok : Bool) : (s.wrote ok x).Holds := by
  cases x with
  | metrics i w => exact h
  | reply r =>
      have hpc := hpc r rfl
      cases r with
      | started i =>
          cases ok with
          | false => exact .busy (by simp [Session.wrote, replied, stop, goto])
          | true =>
              intro _ _ k hk
              have hlast : s.outcomes.getLast? = some (.ok i) := hdue _ (by rw [hpc]; rfl)
              have hk : s.outcomes.getLast? = some (.ok k) := hk
              rw [hlast] at hk
              cases hk
              rfl
      | failed message =>
          intro _ _ k hk
          have hlast : s.outcomes.getLast? = some (.error message) := hdue _ (by rw [hpc]; rfl)
          have hk : s.outcomes.getLast? = some (.ok k) := hk
          rw [hlast] at hk
          cases hk
      | stopped => exact fun _ hall => absurd hall (hstop hpc)

theorem Holds.step {l : SessionLabel} (h : s.Holds) (hi : s.Inv) (hdue : s.Due) (hserved : s.Served)
    (hs : (session J).step s l = some t) : t.Holds := by
  have hreply : ∀ {x : Sent} {n}, s.lock = some (x, n) → ∀ r, x = .reply r → s.pc = .replying r := by
    intro x n hl r hx
    subst hx
    exact hi.owner _ _ hl
  cases steps hs with
  | recv m _ => exact .recv m
  | recvErr _ => exact .busy (stopThen_pc _ _)
  | started | startErr => exact .busy (by simp [Session.started, startFailed])
  | startOp | stopped => exact .busy (by simp [goto])
  | lock l x _ hx _ =>
      rw [locked]
      split
      · exact h
      · exact h.wrote hdue hserved.not_allStarts (fun r hr => (hx r hr).1) false
  | write | metrics | ioDone => exact h
  | last x n k hl =>
      exact Holds.wrote (s := { s with
        out := s.out ++ ((frame (J.toVec x.msg)).drop n).take k
        lock := none
        sent := s.sent ++ [x] }) h hdue hserved.not_allStarts (hreply hl) true
  | writeErr x n hl => exact Holds.wrote (s := { s with lock := none, sockErr := true }) h hdue hserved.not_allStarts (hreply hl) false
  | joined i k _ => exact .busy (by cases k <;> simp [Session.joined, After.pc])

/-! ## It goes on -/

/-- A test in the variable, or whose start is being answered, is neither cancelled nor joined. -/
def Going (s : Session) : Prop := ∀ i, s.test = some i ∨ s.pc = .replying (.started i) →
  ∃ u, s.tests[i]? = some u ∧ u.cancelled = false ∧ u.joined = false

theorem init_going : init.Going := by simp [Going, init]

theorem Going.idle (ht : t.test = none) (hpc : ∀ i, t.pc ≠ .replying (.started i)) : t.Going := by
  rintro i (h | h)
  · rw [ht] at h; cases h
  · exact absurd h (hpc i)

theorem Going.same (h : s.Going) (ht : t.test = s.test) (hpc : t.pc = s.pc) {i : Nat} {f : RunningTest → RunningTest}
    (htests : t.tests = s.tests.modify i f)
    (hf : ∀ u, (f u).cancelled = u.cancelled ∧ (f u).joined = u.joined) : t.Going := by
  intro j hj
  rw [ht, hpc] at hj
  obtain ⟨u, hu, hcancelled, hjoined⟩ := h j hj
  rw [htests, List.getElem?_modify, hu]
  refine ⟨_, rfl, ?_, ?_⟩ <;> split <;> simp_all

theorem stopThen_started (s : Session) (k : After) (i : Nat) : (s.stopThen k).pc ≠ .replying (.started i) := by
  rcases (stopThen_fields s k).2.2.2 with h | ⟨j, h⟩
  · rw [h]; cases k <;> simp [After.pc]
  · rw [h]; simp

theorem stopThen_test (s : Session) (k : After) : (s.stopThen k).test = none := by
  rw [stopThen]
  split
  · assumption
  · rfl

theorem Going.recv (h : s.Going) (m : Msg) : (s.recv m).Going := by
  cases m with
  | start config assignment => exact .idle (stopThen_test _ _) (stopThen_started _ _)
  | stop => exact .idle (stopThen_test _ _) (stopThen_started _ _)
  | ack _ | metrics _ | error _ => exact h

theorem Going.wrote {x : Sent} (h : s.Going) (htest : s.pc ≠ .reading → s.test = none)
    (hpc : ∀ r, x = .reply r → s.pc = .replying r) (ok : Bool) : (s.wrote ok x).Going := by
  cases x with
  | metrics i w => exact h.same rfl rfl rfl fun u => ⟨rfl, rfl⟩
  | reply r =>
      have hpc := hpc r rfl
      have htest := htest (by simp [hpc])
      cases r with
      | started i =>
          cases ok with
          | false => exact .idle htest (by simp [Session.wrote, replied, stop, goto])
          | true =>
              rintro j (hj | hj)
              · obtain rfl : i = j := Option.some.inj hj
                exact h i (.inr hpc)
              · cases hj
      | failed message => exact .idle htest (by simp [Session.wrote, replied, goto])
      | stopped => exact .idle htest (by cases ok <;> simp [Session.wrote, replied, goto])

theorem Going.step {l : SessionLabel} (h : s.Going) (hi : s.Inv) (hs : (session J).step s l = some t) : t.Going := by
  have hreply : ∀ {x : Sent} {n}, s.lock = some (x, n) → ∀ r, x = .reply r → s.pc = .replying r := by
    intro x n hl r hx
    subst hx
    exact hi.owner _ _ hl
  cases steps hs with
  | recv m _ => exact h.recv m
  | recvErr _ => exact .idle (stopThen_test _ _) (stopThen_started _ _)
  | started spawned hpc =>
      rintro i (hj | hj)
      · rw [show (s.started spawned).test = s.test from rfl, hi.var (by simp [hpc])] at hj
        cases hj
      · obtain rfl : s.tests.length = i := by simpa [Session.started] using hj
        exact ⟨⟨false, spawned, .waiting, false⟩, by simp [Session.started], rfl, rfl⟩
  | startOp _ _ _ _ _ hpc | startErr _ _ _ _ hpc =>
      exact .idle (hi.var (by simp [hpc])) (by simp [goto, startFailed])
  | stopped _ _ _ hpc => exact .idle (hi.var (by simp [hpc])) (by simp [goto])
  | lock l x _ hx _ =>
      rw [locked]
      split
      · exact h
      · exact h.wrote hi.var (fun r hr => (hx r hr).1) false
  | write => exact h
  | metrics _ i u pc => exact h.same rfl rfl rfl fun u => ⟨rfl, rfl⟩
  | ioDone i j => exact h.same rfl rfl rfl fun u => ⟨rfl, rfl⟩
  | last x n k hl =>
      exact Going.wrote (s := { s with
        out := s.out ++ ((frame (J.toVec x.msg)).drop n).take k
        lock := none
        sent := s.sent ++ [x] }) h hi.var (hreply hl) true
  | writeErr x n hl => exact Going.wrote (s := { s with lock := none, sockErr := true }) h hi.var (hreply hl) false
  | joined i k hpc => exact .idle (hi.var (by simp [hpc])) (by cases k <;> simp [Session.joined, After.pc])

/-! ## Together -/

/-- What a session keeps as long as none of its replies is lost. -/
structure Kept (s : Session) : Prop where
  inv : s.Inv
  served : s.Served
  ordered : s.Ordered
  due : s.Due
  holds : s.Holds
  going : s.Going

theorem init_kept : init.Kept := ⟨init_inv, init_served, init_ordered, init_due, init_holds, init_going⟩

theorem Kept.step {l : SessionLabel} (h : s.Kept) (hw : s.writes J l = true) (hs : (session J).step s l = some t) :
    t.Kept where
  inv := h.inv.step hs
  served := h.served.step h.inv hw hs
  ordered := h.ordered.step h.inv hs
  due := h.due.step hs
  holds := h.holds.step h.inv h.due h.served hs
  going := h.going.step h.inv hs

/-- Every start so far has made a test. -/
theorem Kept.outcomes (h : s.Kept) (hbusy : s.busy = none) (hacked : s.ackedStarts.length = Server.starts s.requests) :
    s.outcomes = (List.range (Server.starts s.requests)).map .ok ∧ s.tests.length = Server.starts s.requests := by
  have howes : s.pc.owes = false := by
    cases ho : s.pc.owes with
    | false => rfl
    | true => rw [Session.busy, ho] at hbusy; cases hbusy
  obtain ⟨hawaits, hout⟩ := Bool.or_eq_false_iff.mp howes
  have hlen := (h.served.of_ready hawaits).1
  rw [ackedStarts, hout, hlen] at hacked
  have hall := all_ok hacked
  have hrange : s.outcomes = (List.range s.tests.length).map .ok := by
    rw [← h.ordered.returned]
    exact hall
  have hcount : s.tests.length = Server.starts s.requests := by
    rw [hlen, hrange, List.length_map, List.length_range]
  exact ⟨hcount ▸ hrange, hcount⟩

end Session

end Tperf.Server

import Tperf.Server.Lemmas.Session
import Tperf.Server.Serve

/-!
# What becomes of the tests, and of the receive tasks that outlive them
-/

namespace Tperf.Server
open Lib Proto

/-- Nothing is left of a test in its `JoinSet`, and its token is cancelled. -/
def RunningTest.Over (u : RunningTest) : Prop :=
  u.joined = true ∧ u.cancelled = true ∧ u.io = [] ∧ u.metrics = .done

namespace Session

variable {J : SerdeJson} {s t : Session}

/-! ## One session -/

theorem Inv.over (h : s.Inv) {i : Nat} {u : RunningTest} (hu : s.tests[i]? = some u) (hj : u.joined = true) :
    u.Over := ⟨hj, h.joined i u hu hj⟩

theorem Inv.returned (h : s.Inv) (hpc : s.pc = .returned) : ∀ u ∈ s.tests, u.Over := by
  intro u hu
  obtain ⟨i, hi⟩ := List.mem_iff_getElem?.mp hu
  exact h.over hi (h.all_joined (by rw [hpc]; simp) (by rw [hpc]; rfl) hi)

/-- No test is lost, and none that is joined comes back. -/
def Retains (s t : Session) : Prop :=
  ∀ (i : Nat) (u : RunningTest), s.tests[i]? = some u →
    ∃ v, t.tests[i]? = some v ∧ (u.joined = true → v.joined = true)

theorem Retains.of_eq (h : t.tests = s.tests) : s.Retains t := fun i u hu => ⟨u, by rw [h, hu], id⟩

theorem Retains.trans {x : Session} (h : s.Retains t) (h' : t.Retains x) : s.Retains x := by
  intro i u hu
  obtain ⟨v, hv, huv⟩ := h i u hu
  obtain ⟨w, hw, hvw⟩ := h' i v hv
  exact ⟨w, hw, fun hj => hvw (huv hj)⟩

theorem retains_onTest (i : Nat) {f : RunningTest → RunningTest}
    (hf : ∀ u, u.joined = true → (f u).joined = true) : s.Retains (s.onTest i f) := by
  intro j u hu
  refine ⟨_, get_onTest f hu, fun hj => ?_⟩
  split
  · exact hf u hj
  · exact hj

theorem retains_stop (s : Session) (i : Nat) (k : After) : s.Retains (s.stop i k) := retains_onTest i fun _ hj => hj

theorem retains_stopThen (s : Session) (k : After) : s.Retains (s.stopThen k) := by
  rw [stopThen]
  split
  · exact .of_eq rfl
  · exact retains_stop _ _ k

theorem retains_recv (s : Session) (m : Msg) : s.Retains (s.recv m) := by
  cases m with
  | start | stop =>
      refine Retains.trans ?_ (retains_stopThen _ _)
      exact .of_eq rfl
  | ack | metrics | error => exact .of_eq rfl

theorem retains_wrote (s : Session) (ok : Bool) (x : Sent) : s.Retains (s.wrote ok x) := by
  cases x with
  | metrics i w => exact retains_onTest i fun _ hj => hj
  | reply r =>
      cases r with
      | started i =>
          cases ok with
          | true => exact .of_eq rfl
          | false => exact retains_stop s i _
      | failed | stopped => exact .of_eq rfl

theorem retains_locked (s : Session) (x : Sent) : s.Retains (s.locked J x) := by
  rw [Session.locked]
  split
  · exact .of_eq rfl
  · exact retains_wrote s false x

theorem retains_step {l : SessionLabel} (hs : (session J).step s l = some t) : s.Retains t := by
  cases steps hs with
  | recv m => exact retains_recv s m
  | recvErr => exact retains_stopThen s _
  | started spawned =>
      intro i u hu
      refine ⟨u, ?_, id⟩
      rw [Session.started, List.getElem?_append_left (List.getElem?_eq_some_iff.mp hu).1, hu]
  | startOp | startErr | write | stopped => exact .of_eq rfl
  | lock l x => exact retains_locked s x
  | last x | writeErr x =>
      refine Retains.trans ?_ (retains_wrote _ _ x)
      exact .of_eq rfl
  | metrics l i | ioDone i => exact retains_onTest i fun _ hj => hj
  | joined i => exact retains_onTest i fun _ _ => rfl

/-- `start_test` has returned the test `i`, or is about to: its accept task runs. -/
def Launched (s : Session) (i : Nat) : Prop :=
  i < s.tests.length ∨
    i = s.tests.length ∧ ∃ ops spawned, s.pc = .starting ops spawned ∧ .accept ∈ spawned

theorem launched_of_ioOf {i : Nat} (h : .accept ∈ s.ioOf i) : s.Launched i := by
  rw [ioOf] at h
  split at h
  · rename_i hu
    exact .inl (List.getElem?_eq_some_iff.mp hu).1
  · rename_i hpc
    by_cases hi : i = s.tests.length
    · rw [if_pos hi] at h
      exact .inr ⟨hi, _, _, hpc, h⟩
    · rw [if_neg hi] at h
      cases h
  · cases h

theorem Launched.same {i : Nat} (h : s.Launched i) (hpc : t.pc = s.pc)
    (hlen : t.tests.length = s.tests.length) : t.Launched i := by
  rw [Launched, hpc, hlen]
  exact h

theorem launched_onTest {i j : Nat} {f : RunningTest → RunningTest} (h : s.Launched i) :
    (s.onTest j f).Launched i := h.same rfl (by simp [onTest])

/-- A start whose accept task runs does not fail. -/
theorem Launched.step {i : Nat} {l : SessionLabel} (h : s.Launched i) (hi : s.Inv)
    (hs : (session J).step s l = some t) : t.Launched i := by
  rcases h with h | h
  · obtain ⟨v, hv, -⟩ := retains_step hs i _ (List.getElem?_eq_getElem h)
    exact .inl (List.getElem?_eq_some_iff.mp hv).1
  · have hl : s.Launched i := .inr h
    obtain ⟨rfl, ops, spawned, hpc, haccept⟩ := h
    have hmetrics : ∀ {x n}, s.lock = some (x, n) → ∃ j w, x = .metrics j w := by
      intro x n hx
      obtain ⟨j, w, -, hw, -⟩ := hi.owner_metrics (by simp [hpc]) hx
      exact ⟨j, w, hw⟩
    cases steps hs with
    | recv m hpc' | recvErr hpc' | stopped l j k hpc' | joined j k hpc' =>
        rw [hpc] at hpc'
        cases hpc'
    | started spawned' =>
        left
        simp [Session.started]
    | startOp l op ops' spawned' more hpc' =>
        obtain ⟨-, rfl⟩ := MainPc.starting.inj (hpc.symm.trans hpc')
        exact .inr ⟨rfl, ops', spawned ++ more, rfl, List.mem_append_left more haccept⟩
    | startErr message op ops' spawned' hpc' hop =>
        obtain ⟨-, rfl⟩ := MainPc.starting.inj (hpc.symm.trans hpc')
        rw [hi.unspawned hpc' hop] at haccept
        cases haccept
    | lock l x hlock hreply =>
        cases x with
        | reply r =>
            rw [hpc] at hreply
            cases (hreply r rfl).1
        | metrics j w =>
            rw [Session.locked]
            split
            · exact hl.same rfl rfl
            · exact launched_onTest hl
    | write => exact hl.same rfl rfl
    | last x n k hlock =>
        obtain ⟨j, w, rfl⟩ := hmetrics hlock
        exact launched_onTest (hl.same rfl rfl)
    | writeErr x n hlock =>
        obtain ⟨j, w, rfl⟩ := hmetrics hlock
        exact launched_onTest (hl.same rfl rfl)
    | metrics | ioDone => exact launched_onTest hl

end Session

/-! ## All sessions -/

namespace Serving

variable {J : SerdeJson} {s s' : Serving}

theorem sessions_of_current {t : Session} (h : s.current = some t) : s.sessions = s.past ++ [t] := by
  rw [sessions, h, Option.toList_some]

theorem goOn_sessions (s : Serving) (t : Session) : (s.goOn t).sessions = s.past ++ [t] := by
  rw [goOn]
  split
  · exact List.append_nil _
  · rfl

theorem goOn_receivers (s : Serving) (t : Session) : (s.goOn t).receivers = s.receivers := by
  rw [goOn]
  split <;> rfl

/-- A session stays as it is, or takes a step. -/
theorem session_step {l : ServingLabel} (hs : (serving J).step s l = some s') {k : Nat} {t : Session}
    (ht : s.sessions[k]? = some t) :
    ∃ t', s'.sessions[k]? = some t' ∧
      (t' = t ∨ s.current = some t ∧ ∃ l, (session J).step t l = some t') := by
  cases l with
  | accept =>
      simp only [serving, Option.ite_none_right_eq_some, Option.some.injEq] at hs
      obtain ⟨⟨-, hnone⟩, rfl⟩ := hs
      refine ⟨t, ?_, .inl rfl⟩
      rw [sessions, Option.isNone_iff_eq_none.mp hnone, Option.toList_none, List.append_nil] at ht
      rw [sessions, List.getElem?_append_left (List.getElem?_eq_some_iff.mp ht).1, ht]
  | acceptErr =>
      simp only [serving, Option.ite_none_right_eq_some, Option.some.injEq] at hs
      obtain ⟨-, rfl⟩ := hs
      exact ⟨t, ht, .inl rfl⟩
  | session l =>
      simp only [serving, Option.bind_eq_bind, Option.bind_eq_some_iff, Option.some.injEq] at hs
      obtain ⟨x, hx, x', hstep, rfl⟩ := hs
      rw [sessions_of_current hx] at ht
      rw [goOn_sessions]
      rcases Nat.lt_or_ge k s.past.length with hk | hk
      · rw [List.getElem?_append_left hk] at ht ⊢
        exact ⟨t, ht, .inl rfl⟩
      · rw [List.getElem?_append_right hk] at ht ⊢
        obtain ⟨hzero, rfl⟩ : k - s.past.length = 0 ∧ x = t := by
          simpa [List.getElem?_singleton] using ht
        refine ⟨x', ?_, .inr ⟨hx, l, hstep⟩⟩
        rw [hzero]
        rfl
  | connect i =>
      simp only [serving, Option.bind_eq_bind, Option.bind_eq_some_iff, Option.ite_none_right_eq_some,
        Option.some.injEq] at hs
      obtain ⟨x, -, -, rfl⟩ := hs
      exact ⟨t, ht, .inl rfl⟩
  | received k =>
      simp only [serving, Option.ite_none_right_eq_some, Option.some.injEq] at hs
      obtain ⟨-, rfl⟩ := hs
      exact ⟨t, ht, .inl rfl⟩

/-- The receive tasks after a step: some that were there, and the one of a new connection. -/
theorem receivers_step {l : ServingLabel} (hs : (serving J).step s l = some s') :
    s'.receivers.Sublist s.receivers ∨
      ∃ t i, s.current = some t ∧ .accept ∈ t.ioOf i ∧ s'.receivers = s.receivers ++ [(s.past.length, i)] := by
  cases l with
  | accept | acceptErr =>
      simp only [serving, Option.ite_none_right_eq_some, Option.some.injEq] at hs
      obtain ⟨-, rfl⟩ := hs
      exact .inl (List.Sublist.refl _)
  | session l =>
      simp only [serving, Option.bind_eq_bind, Option.bind_eq_some_iff, Option.some.injEq] at hs
      obtain ⟨x, -, x', -, rfl⟩ := hs
      rw [goOn_receivers]
      exact .inl (List.Sublist.refl _)
  | connect i =>
      simp only [serving, Option.bind_eq_bind, Option.bind_eq_some_iff, Option.ite_none_right_eq_some,
        Option.some.injEq] at hs
      obtain ⟨t, ht, haccept, rfl⟩ := hs
      exact .inr ⟨t, i, ht, haccept, rfl⟩
  | received k =>
      simp only [serving, Option.ite_none_right_eq_some, Option.some.injEq] at hs
      obtain ⟨-, rfl⟩ := hs
      exact .inl (List.eraseIdx_sublist _ k)

structure Ok (s : Serving) : Prop where
  past : ∀ t ∈ s.past, t.orphans = [] ∧ ∀ u ∈ t.tests, u.Over
  returned : ∀ t ∈ s.past, t.pc = .returned
  current : ∀ t, s.current = some t → t.Inv
  receivers : ∀ r ∈ s.receivers, ∃ t, s.sessions[r.1]? = some t ∧ t.Launched r.2

theorem init_ok : init.Ok where
  past := by simp [init]
  returned := by simp [init]
  current _ h := by cases h
  receivers := by simp [init]

theorem Ok.receivers_step {l : ServingLabel} (h : s.Ok) (hs : (serving J).step s l = some s') :
    ∀ r ∈ s'.receivers, ∃ t, s'.sessions[r.1]? = some t ∧ t.Launched r.2 := by
  have hold : ∀ r ∈ s.receivers, ∃ t, s'.sessions[r.1]? = some t ∧ t.Launched r.2 := by
    intro r hr
    obtain ⟨t, ht, hlaunched⟩ := h.receivers r hr
    obtain ⟨t', ht', rfl | ⟨hcur, l, hstep⟩⟩ := session_step hs ht
    · exact ⟨t', ht', hlaunched⟩
    · exact ⟨t', ht', hlaunched.step (h.current t hcur) hstep⟩
  intro r hr
  rcases Serving.receivers_step hs with hsub | ⟨t, i, ht, haccept, hnew⟩
  · exact hold r (hsub.subset hr)
  · rw [hnew] at hr
    rcases List.mem_append.mp hr with hr | hr
    · exact hold r hr
    · obtain rfl := List.mem_singleton.mp hr
      have hget : s.sessions[s.past.length]? = some t := by simp [sessions_of_current ht]
      obtain ⟨t', ht', rfl | ⟨-, l, hstep⟩⟩ := session_step hs hget
      · exact ⟨t', ht', Session.launched_of_ioOf haccept⟩
      · exact ⟨t', ht', (Session.launched_of_ioOf haccept).step (h.current t ht) hstep⟩

theorem Ok.step {l : ServingLabel} (h : s.Ok) (hs : (serving J).step s l = some s') : s'.Ok := by
  have hreceivers := h.receivers_step hs
  cases l with
  | accept =>
      simp only [serving, Option.ite_none_right_eq_some, Option.some.injEq] at hs
      obtain ⟨-, rfl⟩ := hs
      refine ⟨h.past, h.returned, ?_, hreceivers⟩
      rintro t ht
      obtain rfl := Option.some.inj ht
      exact Session.init_inv
  | acceptErr | received =>
      simp only [serving, Option.ite_none_right_eq_some, Option.some.injEq] at hs
      obtain ⟨-, rfl⟩ := hs
      exact ⟨h.past, h.returned, h.current, hreceivers⟩
  | connect =>
      simp only [serving, Option.bind_eq_bind, Option.bind_eq_some_iff, Option.ite_none_right_eq_some,
        Option.some.injEq] at hs
      obtain ⟨-, -, -, rfl⟩ := hs
      exact ⟨h.past, h.returned, h.current, hreceivers⟩
  | session l =>
      simp only [serving, Option.bind_eq_bind, Option.bind_eq_some_iff, Option.some.injEq] at hs
      obtain ⟨t, ht, t', hstep, rfl⟩ := hs
      have hinv := (h.current t ht).step hstep
      by_cases hpc : t'.pc = .returned
      · rw [goOn, if_pos hpc] at hreceivers ⊢
        refine ⟨?_, ?_, (fun _ he => by cases he), hreceivers⟩
        · intro x hx
          rcases List.mem_append.mp hx with hx | hx
          · exact h.past x hx
          · obtain rfl := List.mem_singleton.mp hx
            exact ⟨hinv.orphans, hinv.returned hpc⟩
        · intro x hx
          rcases List.mem_append.mp hx with hx | hx
          · exact h.returned x hx
          · obtain rfl := List.mem_singleton.mp hx
            exact hpc
      · rw [goOn, if_neg hpc] at hreceivers ⊢
        refine ⟨h.past, h.returned, ?_, hreceivers⟩
        intro x hx
        obtain rfl := Option.some.inj hx
        exact hinv

theorem Ok.orphans (h : s.Ok) : ∀ t ∈ s.sessions, t.orphans = [] := by
  intro t ht
  rcases List.mem_append.mp ht with ht | ht
  · exact (h.past t ht).1
  · exact (h.current t (Option.mem_toList.mp ht)).orphans

theorem Ok.past_over (h : s.Ok) : ∀ u ∈ s.past.flatMap Session.tests, u.Over := by
  intro u hu
  obtain ⟨t, ht, hu⟩ := List.mem_flatMap.mp hu
  exact (h.past t ht).2 u hu

theorem Ok.mem_tests (h : s.Ok) {u : RunningTest} (hu : u ∈ s.tests) :
    u.Over ∨ ∃ t, s.current = some t ∧ u ∈ t.tests := by
  obtain ⟨t, ht, hu⟩ := List.mem_flatMap.mp hu
  rcases List.mem_append.mp ht with ht | ht
  · exact .inl ((h.past t ht).2 u hu)
  · exact .inr ⟨t, Option.mem_toList.mp ht, hu⟩

/-- A test that is not over is one of the current session, and not joined. -/
theorem Ok.late (h : s.Ok) {i : Nat} {u : RunningTest} (hu : s.tests[i]? = some u) (hover : ¬ u.Over) :
    ∃ t, s.current = some t ∧ u.joined = false ∧ (s.past.flatMap Session.tests).length ≤ i ∧
      t.tests[i - (s.past.flatMap Session.tests).length]? = some u := by
  have hsplit : s.tests = s.past.flatMap Session.tests ++ s.current.toList.flatMap Session.tests :=
    List.flatMap_append
  rw [hsplit] at hu
  rcases Nat.lt_or_ge i (s.past.flatMap Session.tests).length with hi | hi
  · rw [List.getElem?_append_left hi] at hu
    exact absurd (h.past_over u (List.mem_of_getElem? hu)) hover
  · rw [List.getElem?_append_right hi] at hu
    cases hcur : s.current with
    | none =>
        rw [hcur] at hu
        simp at hu
    | some t =>
        rw [hcur] at hu
        have hget : t.tests[i - (s.past.flatMap Session.tests).length]? = some u := by simpa using hu
        have hjoined : u.joined = false :=
          Bool.eq_false_iff.mpr fun hj => hover ((h.current t hcur).over hget hj)
        exact ⟨t, rfl, hjoined, hi, hget⟩

/-- The receive tasks that an ended session has left are those of tests that are over. -/
theorem Ok.left_over {r : Nat × Nat} (h : s.Ok) (hr : r ∈ s.receivers) (hpast : r.1 < s.past.length) :
    ∃ u, s.testOf r = some u ∧ u.Over := by
  obtain ⟨t, ht, hlaunched⟩ := h.receivers r hr
  have hmem : t ∈ s.past := by
    rw [sessions, List.getElem?_append_left hpast] at ht
    exact List.mem_of_getElem? ht
  rcases hlaunched with hlt | ⟨-, ops, spawned, hpc, -⟩
  · have hu := List.getElem?_eq_getElem hlt
    exact ⟨_, Option.bind_eq_some_iff.mpr ⟨t, ht, hu⟩, (h.past t hmem).2 _ (List.mem_of_getElem? hu)⟩
  · rw [h.returned t hmem] at hpc
    cases hpc

/-! ## The receive tasks of a joined test -/

/-- The test of `r` is joined. -/
def Joined (s : Serving) (r : Nat × Nat) : Prop := ∃ u, s.testOf r = some u ∧ u.joined = true

theorem Joined.step {r : Nat × Nat} {l : ServingLabel} (h : s.Joined r) (hs : (serving J).step s l = some s') :
    s'.Joined r := by
  obtain ⟨u, hu, hj⟩ := h
  obtain ⟨t, ht, hu⟩ := Option.bind_eq_some_iff.mp hu
  obtain ⟨t', ht', rfl | ⟨-, l, hstep⟩⟩ := session_step hs ht
  · exact ⟨u, Option.bind_eq_some_iff.mpr ⟨t', ht', hu⟩, hj⟩
  · obtain ⟨v, hv, hjoined⟩ := Session.retains_step hstep r.2 u hu
    exact ⟨v, Option.bind_eq_some_iff.mpr ⟨t', ht', hv⟩, hjoined hj⟩

/-- The accept task of a joined test is gone, and gets no more connections. -/
theorem Ok.count_step {r : Nat × Nat} {l : ServingLabel} (h : s.Ok) (hr : s.Joined r)
    (hs : (serving J).step s l = some s') : s'.receivers.count r ≤ s.receivers.count r := by
  rcases Serving.receivers_step hs with hsub | ⟨t, i, ht, haccept, hnew⟩
  · exact hsub.count_le r
  · have hother : (s.past.length, i) ≠ r := by
      rintro rfl
      obtain ⟨u, hu, hj⟩ := hr
      obtain ⟨t', ht', hu⟩ := Option.bind_eq_some_iff.mp hu
      obtain rfl : t = t' := by simpa [sessions_of_current ht] using ht'
      have hio : t.ioOf i = u.io := by rw [Session.ioOf, hu]
      rw [hio, ((h.current t ht).over hu hj).2.2.1] at haccept
      cases haccept
    rw [hnew, List.count_append, List.count_singleton]
    simp [hother]

theorem Ok.count_run {r : Nat × Nat} {ls : List ServingLabel} (h : s.Ok) (hr : s.Joined r)
    (hs : (serving J).run s ls = some s') : s'.receivers.count r ≤ s.receivers.count r := by
  have hrun : s'.Ok ∧ s'.Joined r ∧ s'.receivers.count r ≤ s.receivers.count r := by
    apply Machine.run_invariant
      (I := fun x : Serving => x.Ok ∧ x.Joined r ∧ x.receivers.count r ≤ s.receivers.count r) ?_ hs
      ⟨h, hr, Nat.le_refl _⟩
    rintro x l x' ⟨hok, hjoined, hle⟩ hstep
    exact ⟨hok.step hstep, hjoined.step hstep, Nat.le_trans (hok.count_step hjoined hstep) hle⟩
  exact hrun.2.2

end Serving

end Tperf.Server

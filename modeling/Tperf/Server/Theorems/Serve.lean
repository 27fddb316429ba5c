import Tperf.Server.Lemmas.Serve

/-!
# The tests of all sessions
-/

namespace Tperf.Server
open Lib Proto

variable {J : SerdeJson}

/-- However many connections the server has served, at most one of all their tests is not over: it is one of
the current session. What may outlive a test are receive tasks of its connections: each belongs to a test that
was started, and once the test is joined there come no more. -/
theorem one_test_at_a_time {s : Serving} {ls : List ServingLabel} (h : (serving J).run .init ls = some s) :
    (∀ t ∈ s.sessions, t.orphans = []) ∧
      (∀ t ∈ s.past, ∀ u ∈ t.tests, u.Over) ∧
      (∀ u ∈ s.tests, ¬ u.Over → ∃ t, s.current = some t ∧ u ∈ t.tests) ∧
      (∀ (i j : Nat) (u v : RunningTest), s.tests[i]? = some u → s.tests[j]? = some v →
        ¬ u.Over → ¬ v.Over → i = j) ∧
      (∀ r ∈ s.receivers, ∃ t, s.sessions[r.1]? = some t ∧ t.Launched r.2) ∧
      (∀ r ∈ s.receivers, r.1 < s.past.length → ∃ u, s.testOf r = some u ∧ u.Over) ∧
      ∀ (ls' : List ServingLabel) (s' : Serving), (serving J).run s ls' = some s' →
        ∀ r u, s.testOf r = some u → u.joined = true → s'.receivers.count r ≤ s.receivers.count r := by
  have hok : s.Ok := Machine.run_invariant (fun hok hs => Serving.Ok.step hok hs) h Serving.init_ok
  refine ⟨hok.orphans, fun t ht => (hok.past t ht).2, ?_, ?_, hok.receivers, ?_, ?_⟩
  · intro u hu hover
    exact (hok.mem_tests hu).resolve_left hover
  · intro i j u v hu hv huo hvo
    obtain ⟨t, ht, huj, hi, hu⟩ := hok.late hu huo
    obtain ⟨t', ht', hvj, hj, hv⟩ := hok.late hv hvo
    obtain rfl := Option.some.inj (ht.symm.trans ht')
    have heq := (hok.current t ht).at_most_one hu hv huj hvj
    omega
  · intro r hr hpast
    exact hok.left_over hr hpast
  · intro ls' s' hrun r u hu hj
    exact hok.count_run ⟨u, hu, hj⟩ hrun

/-- A connection whose test has received a stream when the start is answered, which fails, and one whose test
runs. -/
def twoConnections : List ServingLabel :=
  .accept :: start.map .session ++ [.connect 0] ++ failed.map .session ++ .accept :: start.map .session
where
  start : List SessionLabel :=
    .recv (.start sampleConfig ⟨"a".toList, 0, [], []⟩) :: List.replicate 8 .startStep
  failed : List SessionLabel := [.lockMain, .writeErr, .stopTimeout, .joined]

theorem one_test_at_a_time_second :
    ∃ s, (serving sampleJson).run .init twoConnections = some s ∧ s.past.length = 1 ∧ s.tests.length = 2 ∧
      s.receivers = [(0, 0)] ∧
      (∀ t ∈ s.past, ∀ u ∈ t.tests, u.Over) ∧
      (∀ (i j : Nat) (u v : RunningTest), s.tests[i]? = some u → s.tests[j]? = some v →
        ¬ u.Over → ¬ v.Over → i = j) ∧
      ∃ u, s.testOf (0, 0) = some u ∧ u.Over := by
  have h : ((serving sampleJson).run .init twoConnections).map
      (fun s => (s.past.length, s.tests.length, s.receivers)) = some (1, 2, [(0, 0)]) := by decide +kernel
  obtain ⟨s, hs, h⟩ := Option.map_eq_some_iff.mp h
  obtain ⟨hpast, h⟩ := Prod.mk.inj h
  obtain ⟨htests, hreceivers⟩ := Prod.mk.inj h
  obtain ⟨-, hover, -, hone, -, hleft, -⟩ := one_test_at_a_time hs
  have hmem : (0, 0) ∈ s.receivers := by
    rw [hreceivers]
    exact List.mem_cons_self
  exact ⟨s, hs, hpast, htests, hreceivers, hover, hone, hleft (0, 0) hmem (hpast ▸ Nat.one_pos)⟩

end Tperf.Server

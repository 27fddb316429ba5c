import Tperf.Server.Lemmas.Session

/-!
# The tests of a session
-/

namespace Tperf.Server
open Lib Proto

variable {J : SerdeJson}

/-- At most one test runs, none while a test is being started, and none when `handle_conn` has
returned; a start that fails leaves no task. A test that was stopped is cancelled and has no task. -/
theorem tests_stopped {s : Session} {ls : List SessionLabel}
    (h : (session J).run .init ls = some s) :
    (∀ (i j : Nat) (u v : RunningTest), s.tests[i]? = some u → s.tests[j]? = some v →
      u.joined = false → v.joined = false → i = j) ∧
    (∀ ops spawned, s.pc = .starting ops spawned → ∀ u ∈ s.tests, u.joined = true) ∧
    (∀ message, s.pc = .replying (.failed message) → ∀ u ∈ s.tests, u.joined = true) ∧
    s.orphans = [] ∧
    (s.pc = .returned → ∀ u ∈ s.tests, u.joined = true) ∧
    (∀ u ∈ s.tests, u.joined = true → u.cancelled = true ∧ u.io = [] ∧ u.metrics = .done) := by
  have hi : s.Inv := Machine.run_invariant (fun hi hs => hi.step hs) h Session.init_inv
  have hall : s.pc ≠ .reading → s.pc.holds = none → ∀ u ∈ s.tests, u.joined = true := by
    intro hpc hh u hu
    obtain ⟨i, hget⟩ := List.mem_iff_getElem?.mp hu
    exact hi.all_joined hpc hh hget
  refine ⟨?_, ?_, ?_, hi.orphans, ?_, ?_⟩
  · intro i j u v hu hv huj hvj
    exact hi.at_most_one hu hv huj hvj
  · intro ops spawned hpc
    exact hall (by rw [hpc]; exact nofun) (by rw [hpc]; rfl)
  · intro message hpc
    exact hall (by rw [hpc]; exact nofun) (by rw [hpc]; rfl)
  · intro hpc
    exact hall (by rw [hpc]; exact nofun) (by rw [hpc]; rfl)
  · intro u hu hj
    obtain ⟨i, hget⟩ := List.mem_iff_getElem?.mp hu
    exact hi.joined i u hget hj

/-- The reply to a start fails, so `handle_conn` stops the test it has just started and returns. -/
theorem tests_stopped_failed_reply :
    ∃ s, (session sampleJson).run .init (.recv (.start sampleConfig ⟨"a".toList, 0, [], []⟩) ::
        List.replicate 8 .startStep ++ [.lockMain, .writeErr, .stopTimeout, .joined]) = some s ∧
      s.tests.length = 1 ∧ ∀ u ∈ s.tests, u.joined = true := by
  have h : ((session sampleJson).run .init (.recv (.start sampleConfig ⟨"a".toList, 0, [], []⟩) ::
      List.replicate 8 .startStep ++ [.lockMain, .writeErr, .stopTimeout, .joined])).map
      (fun s => (s.tests.length, s.pc)) = some (1, .returned) := by decide +kernel
  obtain ⟨s, hs, h⟩ := Option.map_eq_some_iff.mp h
  simp only [Prod.mk.injEq] at h
  exact ⟨s, hs, h.1, (tests_stopped hs).2.2.2.2.1 h.2⟩

end Tperf.Server

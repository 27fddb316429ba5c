import Tperf.Client.Lemmas.Still
import Tperf.Client.Theorems.Barrier

/-!
# What is in the table when the process exits
-/

namespace Tperf.Client
open Lib Proto Db

variable {cfg : Config} {J : PeersJson}

/-- The table holds each window passed before `run` returned once and in order, and perhaps some passed
after. -/
def Run.Persisted (cfg : Config) (J : PeersJson) (s : Run) : Prop :=
  ∃ later, later <+: s.late ∧ s.db.table = stored cfg J (s.passed ++ later)

/-- The windows passed before `run` returned are in the table when the process exits if no host, no connection
and no start has failed, whenever the thread moves. If one has, the same run without the thread loses them. -/
theorem windows_persisted {s : Run} {ls : List RunLabel} {r : Except Str Unit}
    (h : ((run cfg J).guard fun _ l => Run.inserts l = true).run .init ls = some s)
    (hpc : s.pc = .exited r) :
    ((∀ l ∈ ls, Run.fails l = false) → s.Persisted cfg J) ∧
    ((∃ l ∈ ls, Run.fails l = true) → s.passed ≠ [] →
      ∃ t, ((run cfg J).guard fun _ l => Run.inserts l = true).run .init (ls.filter Run.others) = some t ∧
        t.pc = .exited r ∧ t.passed = s.passed ∧ ¬ t.Persisted cfg J) := by
  have hstored : s.Stored cfg J := Machine.guard_invariant (I := Run.Stored cfg J)
    (fun hi hg hs => hi.step hg hs) h Run.init_stored
  have hfailed := Run.failed_iff h
  rw [hpc] at hfailed
  constructor
  · intro hok
    have hnone : ls.any Run.fails = false := by simpa [List.any_eq_false] using hok
    rw [hnone] at hfailed
    cases hstored.held with
    | ended _ _ htable _ => exact ⟨[], List.nil_prefix, by rw [List.append_nil]; exact htable⟩
    | thread ws _ _ _ hshut =>
        -- `run` has returned `Ok`, so it has joined the thread
        cases r with
        | error e => cases hfailed
        | ok u =>
            have htail := hshut (by rw [hpc]; rfl)
            rw [hpc] at htail
            cases htail
  · rintro hex hpassed
    have hsome : ls.any Run.fails = true := List.any_eq_true.mpr hex
    rw [hsome] at hfailed
    have hshut : s.pc.shut = false := by
      rw [hpc]
      cases r with
      | ok u => cases hfailed
      | error e => rfl
    obtain ⟨db, hdb, ht⟩ := run_still h Run.init_stored hshut Still.create
    refine ⟨_, ht, hpc, rfl, ?_⟩
    rintro ⟨later, -, htable⟩
    have hnil : stored cfg J (s.passed ++ later) = [] := htable.symm.trans hdb.table
    rw [stored, List.map_eq_nil_iff, List.append_eq_nil_iff] at hnil
    exact hpassed hnil.1

/-! ## Runs -/

/-- A window of the first server in the first round, still in the channel. -/
def windowQueued : List RunLabel :=
  connected ++ starts ++ answered 0 ++ answered 1 ++ [.send 0 (.metrics sampleWindow), .read 0]

/-- The client is stopped by a signal. -/
def stopRun : List RunLabel :=
  windowQueued ++ [.cancel, .poll false, .slept, .main, .sendStop, .sendStop, .main, .send 0 stopAck,
    .send 1 stopAck, .read 0, .read 1, .main, .main, .db (.ok ()), .db (.ok ()), .db (.ok ()), .main, .main]

theorem windows_persisted_stop :
    ∃ s, ((run pairsConfig emptyPeers).guard fun _ l => Run.inserts l = true).run .init stopRun = some s ∧
      s.passed = [sampleWindow] ∧ s.Persisted pairsConfig emptyPeers := by
  have h : (((run pairsConfig emptyPeers).guard fun _ l => Run.inserts l = true).run .init stopRun).map
      (fun s => (s.pc, s.passed)) = some (.exited (.ok ()), [sampleWindow]) := by decide +kernel
  obtain ⟨s, hs, h⟩ := Option.map_eq_some_iff.mp h
  simp only [Prod.mk.injEq] at h
  exact ⟨s, hs, h.2, (windows_persisted hs h.1).1 (by decide)⟩

/-- The thread has received the window, the second round cannot be started on the second server, and the process
exits before the insert. -/
def lossRun : List RunLabel :=
  windowQueued ++ [.db (.ok ()), .poll false, .slept, .main, .sendStart, .sendStartErr "Broken pipe".toList, .main]

theorem window_lost :
    ∃ s e, ((run pairsConfig emptyPeers).guard fun _ l => Run.inserts l = true).run .init lossRun = some s ∧
      s.pc = .exited (.error e) ∧ s.passed = [sampleWindow] ∧ s.db.queue = [] ∧ s.db.table = [] ∧
      ¬ s.Persisted pairsConfig emptyPeers := by
  have h : (((run pairsConfig emptyPeers).guard fun _ l => Run.inserts l = true).run .init lossRun).map
      (fun s => (s.pc, s.passed, s.db.queue, s.db.table)) =
      some (.exited (.error "send start to b: Broken pipe".toList), [sampleWindow], [], []) := by
    decide +kernel
  obtain ⟨s, hs, h⟩ := Option.map_eq_some_iff.mp h
  simp only [Prod.mk.injEq] at h
  refine ⟨s, _, hs, h.1, h.2.1, h.2.2.1, h.2.2.2, ?_⟩
  rintro ⟨later, -, htable⟩
  rw [h.2.1, h.2.2.2] at htable
  cases htable

end Tperf.Client

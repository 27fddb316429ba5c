import Tperf.Db.Lemmas.Thread
import Tperf.Proto.Frame

/-!
# What `shutdown` reports
-/

namespace Tperf.Db
open Lib Proto

variable {Q : Sqlite} {J : PeersJson} {tag : Str}

/-- When `shutdown` has returned, the table holds the windows sent before its event, up to the first one
whose insert failed; it returns `Ok` exactly when none is missing. -/
theorem shutdown_reports {ls : List ThreadLabel} {s : Thread} {r : Except Str Unit}
    (h : (Thread.machine Q J tag).run .init ls = some s) (hr : s.returned = some r) :
    s.db.table = (Q.stored (sentBefore ls)).map (insertMetric J tag) ∧
      (r = .ok () ↔ Q.setup = .ok () ∧ Q.stored (sentBefore ls) = sentBefore ls) := by
  have hinv := Thread.run_inv h
  obtain ⟨hended, hclosing⟩ := hinv.returned r hr
  cases hinv.serves with
  | live _ hnone => rw [hended] at hnone; cases hnone
  | closed done rest hok hevs htable hgood hsetup =>
      obtain rfl : r = .ok () := by rw [hended] at hok; exact Option.some.inj hok
      have hbefore : sentBefore ls = done := by
        rw [sentBefore, hevs, beforeShutdown_append]
        exact List.append_nil done
      have hstored : Q.stored (sentBefore ls) = done := by
        rw [Sqlite.stored, if_pos (isOk_iff.mpr hsetup), hbefore, Sqlite.good_of_allGood hgood]
      rw [hstored, hbefore]
      exact ⟨htable, by simp [hsetup]⟩
  | unset e herr htable hsetup =>
      obtain rfl : r = .error e := by rw [hended] at herr; exact Option.some.inj herr
      have hstored : Q.stored (sentBefore ls) = [] := by
        rw [Sqlite.stored, hsetup]
        rfl
      rw [hstored]
      exact ⟨htable, by simp [hsetup]⟩
  | failed e done w rest herr hevs htable hgood hbad hsetup =>
      obtain rfl : r = .error e := by rw [hended] at herr; exact Option.some.inj herr
      have hbefore : sentBefore ls = done ++ w :: beforeShutdown rest := by
        rw [sentBefore, hevs, beforeShutdown_append]
        rfl
      have hstored : Q.stored (sentBefore ls) = done := by
        rw [Sqlite.stored, if_pos (isOk_iff.mpr hsetup), hbefore, Sqlite.good_of_failed hgood hbad]
      rw [hstored, hbefore]
      exact ⟨htable, by simp⟩

/-! ## A run -/

/-- The second insert fails. -/
def fullDisk : Sqlite where
  opened := .ok ()
  schema := .ok ()
  config := .ok ()
  insert n _ := if n = 1 then .error "disk full".toList else .ok ()

def noPeers : PeersJson := ⟨fun _ => "[]".toList, fun _ => some []⟩

/-- Two handles send before, between and after the events that the thread takes. -/
def fullDiskRun : List ThreadLabel :=
  [.handle, .thread, .clone 0, .insert 1 sampleWindow, .thread, .insert 0 sampleWindow, .thread, .thread,
    .thread, .insert 1 sampleWindow, .shutdown, .insert 0 sampleWindow, .thread, .thread,
    .insert 1 sampleWindow, .join]

theorem shutdown_reports_full_disk :
    ∃ s, (Thread.machine fullDisk noPeers "t".toList).run .init fullDiskRun = some s ∧
      s.returned = some (.error "disk full".toList) ∧
      sentBefore fullDiskRun = [sampleWindow, sampleWindow, sampleWindow] ∧
      s.db.table = [insertMetric noPeers "t".toList sampleWindow] := by
  have h : ((Thread.machine fullDisk noPeers "t".toList).run .init fullDiskRun).map (fun s => s.returned) =
      some (some (.error "disk full".toList)) := by decide +kernel
  obtain ⟨s, hs, hr⟩ := Option.map_eq_some_iff.mp h
  refine ⟨s, hs, hr, rfl, ?_⟩
  exact (shutdown_reports hs hr).1

end Tperf.Db

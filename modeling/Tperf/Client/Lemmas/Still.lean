import Tperf.Client.Lemmas.Merged
import Tperf.Client.Lemmas.Rounds

/-!
# Runs that fail, and what they do without the thread of the database
-/

namespace Tperf.Client
open Lib Proto Db

variable {cfg : Config} {J : PeersJson}

/-- A host is not resolved or not reached, or a start is not written. -/
def Run.fails : RunLabel → Bool
  | .connectErr _ | .sendStartErr _ => true
  | _ => false

/-- Anything but the thread of the database moves. -/
def Run.others : RunLabel → Bool
  | .db _ => false
  | _ => true

variable {s t : Run} {l : RunLabel} {ls : List RunLabel}

/-! ## Runs that fail -/

theorem Run.Stored.main_failed (h : s.Stored cfg J) (hs : s.main cfg = some t) : t.pc.failed = s.pc.failed := by
  cases hpc : s.pc with
  | joining =>
      simp only [main, hpc, Option.map_eq_some_iff] at hs
      obtain ⟨r, hr, rfl⟩ := hs
      cases h.held with
      | thread ws hended => rw [hended] at hr; cases hr
      | ended hended => rw [hended] at hr; cases hr; rfl
  | returned r =>
      simp only [main, hpc] at hs
      cases hs
      cases r <;> rfl
  | connecting | sending k =>
      simp only [main, hpc] at hs
      split at hs
      · cases hs
      · split at hs <;> cases hs <;> rfl
  | nextRound =>
      simp only [main, hpc] at hs
      split at hs
      · cases hs; rfl
      · split at hs <;> cases hs
        · rw [hpc]
        · rfl
  | mesh | stopping k | draining =>
      simp only [main, hpc] at hs
      split at hs <;> cases hs
      rfl
  | aborting | closing =>
      simp only [main, hpc] at hs
      cases hs
      rfl
  | waiting | traffic | exited r =>
      simp only [main, hpc] at hs
      cases hs

theorem Run.poll_failed (hpc : s.pc = .waiting) (expired : Bool) : (s.poll expired).pc.failed = false := by
  unfold poll
  split
  · split
    · rfl
    · split
      · rfl
      · rw [hpc]; rfl
  · rfl

/-- `run` returns an error in a step that fails, and in no other. -/
theorem Run.Stored.step_failed (h : s.Stored cfg J) (hs : (run cfg J).step s l = some t) :
    t.pc.failed = (s.pc.failed || Run.fails l) := by
  cases l with
  | main => exact (h.main_failed hs).trans (Bool.or_false _).symm
  | connect | connectErr | sendStart | slept | sendStop | drainTimeout =>
      simp only [run] at hs
      split at hs
      · rename_i hpc
        first
          | (cases hs; simp [hpc, goto, Pc.failed, fails])
          | (split at hs <;> cases hs; simp [hpc, goto, Pc.failed, fails])
      · cases hs
  | sendStartErr e =>
      simp only [run] at hs
      split at hs
      · obtain ⟨c, -, rfl⟩ := Option.map_eq_some_iff.mp hs
        simp [goto, Pc.failed, fails]
      · cases hs
  | poll expired =>
      simp only [run] at hs
      split at hs <;> cases hs
      rename_i hpc
      rw [poll_failed hpc, hpc]
      rfl
  | cancel | readErr =>
      simp only [run] at hs
      split at hs <;> cases hs
      exact (Bool.or_false _).symm
  | serve | reply =>
      simp only [run] at hs
      split at hs <;> cases hs
      exact (Bool.or_false _).symm
  | send =>
      cases hs
      exact (Bool.or_false _).symm
  | read =>
      simp only [run] at hs
      split at hs
      · cases hs
      · split at hs <;> cases hs
        rw [effect_pc]
        exact (Bool.or_false _).symm
      · cases hs
  | db =>
      simp only [run] at hs
      split at hs
      · cases hs
      · obtain ⟨db, -, rfl⟩ := Option.map_eq_some_iff.mp hs
        exact (Bool.or_false _).symm

/-- `run` has returned an error exactly when a step has failed. -/
theorem Run.failed_iff (h : ((run cfg J).guard fun _ l => Run.inserts l = true).run .init ls = some s) :
    s.pc.failed = ls.any Run.fails := by
  have hinv : s.Stored cfg J ∧ s.pc.failed = ([] ++ ls).any Run.fails := by
    refine Machine.run_history (I := fun ks s => Run.Stored cfg J s ∧ s.pc.failed = ks.any Run.fails) ?_ h
      ⟨Run.init_stored, rfl⟩
    intro ks s l t hi hs
    obtain ⟨hg, hs⟩ := Machine.guard_step.mp hs
    refine ⟨hi.1.step hg hs, ?_⟩
    rw [hi.1.step_failed hs, hi.2]
    simp
  exact hinv.2

/-- `db.shutdown()` is called once, and `run` does not fail behind it. -/
theorem Run.Stored.shut_step (h : s.Stored cfg J) (hshut : s.pc.shut = true)
    (hs : (run cfg J).step s l = some t) : t.pc.shut = true := by
  cases steps hs with
  | idle | cancel | serve | reply | send | readErr | db => exact hshut
  | read => rw [effect_pc]; exact hshut
  | connect hpc | start hpc _ | abort hpc | shutdown hpc => rw [hpc] at hshut; cases hshut
  | begin hpc => rcases hpc with hpc | hpc <;> rw [hpc] at hshut <;> cases hshut
  | move hm =>
      cases hm with
      | joined hpc hr =>
          cases h.held with
          | thread ws hended => rw [hended] at hr; cases hr
          | ended hended => rw [hended] at hr; cases hr; rfl
      | exit hpc =>
          rename_i r
          rw [hpc] at hshut
          cases r with
          | ok _ => rfl
          | error _ => cases hshut
      | failed _ hpc => rcases hpc with hpc | ⟨k, hpc⟩ <;> rw [hpc] at hshut <;> cases hshut
      | stop hpc | next hpc => rcases hpc with hpc | hpc <;> rw [hpc] at hshut <;> cases hshut
      | connected hpc | mesh hpc | traffic hpc | stopping hpc | drain hpc | drained hpc _ | timeout hpc
      | wait hpc _ => rw [hpc] at hshut; cases hshut

/-! ## Without the thread -/

/-- The thread has not moved. -/
structure Still (db : Db) : Prop where
  ended : db.ended = none
  taken : db.taken = none
  table : db.table = []

theorem Still.create : Still .create := ⟨rfl, rfl, rfl⟩

theorem Still.send {db : Db} (h : Still db) (ev : Event) : Still (db.send ev) := by
  rw [send_open h.ended]
  exact ⟨h.ended, h.taken, h.table⟩

/-- The channel after a message has been read. -/
def receives (db : Db) : Msg → Db
  | .metrics w => db.insert w
  | _ => db

/-- The channel after a step of the others. -/
def sends (s : Run) (l : RunLabel) (db : Db) : Db :=
  match l with
  | .main => if s.pc = .closing then db.send .shutdown else db
  | .read i => match s.conns[i]?.bind (·.outbox.head?) with
      | some m => receives db m
      | none => db
  | _ => db

theorem Still.receives {db : Db} (h : Still db) (m : Msg) : Still (receives db m) := by
  cases m with
  | metrics w => exact h.send _
  | start | stop | ack | error => exact h

theorem Still.sends {db : Db} (h : Still db) (s : Run) (l : RunLabel) : Still (sends s l db) := by
  unfold Client.sends
  split
  · split
    · exact h.send _
    · exact h
  · split
    · exact h.receives _
    · exact h
  · exact h

theorem effect_db (s : Run) (db : Db) (m : Msg) :
    ({ s with db := db } : Run).effect m = { s.effect m with db := receives db m } := by
  cases m with
  | metrics w => rfl
  | start | stop | ack | error =>
      simp only [Run.effect]
      split <;> rfl

/-- Until `shutdown` waits for the thread, a step of the others does not depend on what the thread has done. -/
theorem others_step (hl : Run.others l = true) (hpc : s.pc ≠ .joining) (db : Db) :
    (run cfg J).step { s with db := db } l =
      ((run cfg J).step s l).map fun t => { t with db := sends s l db } := by
  obtain ⟨pc, conns, round, startAcks, cancelled, db₀, passed, late⟩ := s
  cases l with
  | db => cases hl
  | connectErr | slept | drainTimeout | cancel | readErr | send => cases pc <;> rfl
  | connect =>
      cases pc with
      | connecting => simp only [run]; cases cfg.hostlist[conns.length]? <;> rfl
      | _ => rfl
  | sendStart =>
      cases pc with
      | sending k => simp only [run]; split <;> rfl
      | _ => rfl
  | sendStop =>
      cases pc with
      | stopping k => simp only [run]; split <;> rfl
      | _ => rfl
  | sendStartErr e =>
      cases pc with
      | sending k => simp only [run, Option.map_map]; rfl
      | _ => rfl
  | poll expired =>
      cases pc with
      | waiting => simp only [run, Run.poll]; split <;> (try split) <;> (try split) <;> rfl
      | _ => rfl
  | serve i =>
      simp only [run]
      cases conns[i]?.bind Conn.serve <;> rfl
  | reply i r =>
      simp only [run]
      cases conns[i]?.bind (Conn.reply · r) <;> rfl
  | read i =>
      simp only [run]
      cases hc : conns[i]? with
      | none => cases pc <;> rfl
      | some c =>
          cases hlive : c.live with
          | false => cases pc <;> simp [hlive]
          | true =>
              cases hm : c.outbox with
              | nil => cases pc <;> simp [hlive, hm]
              | cons m ms =>
                  have hsends : sends ⟨pc, conns, round, startAcks, cancelled, db₀, passed, late⟩ (.read i) db =
                      receives db m := by
                    simp only [sends, hc, Option.bind_some, hm, List.head?_cons]
                  have heffect := fun pc =>
                    effect_db (Run.onConn ⟨pc, conns, round, startAcks, cancelled, db₀, passed, late⟩ i (.read m)) db m
                  rw [hsends]
                  cases pc with
                  | exited r => rfl
                  | _ =>
                      simp only [hlive, hm, Option.map_some]
                      exact congrArg some (heffect _)
  | main =>
      cases pc with
      | connecting | sending =>
          simp only [run, Run.main]
          split
          · rfl
          · cases cfg.testType <;> rfl
      | nextRound =>
          simp only [run, Run.main]
          split
          · rfl
          · split <;> rfl
      | mesh | stopping | draining =>
          simp only [run, Run.main]
          split <;> rfl
      | joining => exact absurd rfl hpc
      | closing | waiting | traffic | aborting | returned | exited => rfl

/-- A run that has not called `shutdown` could have been the same with a thread that never moved. -/
theorem run_still {s t : Run} {ls : List RunLabel}
    (h : ((run cfg J).guard fun _ l => Run.inserts l = true).run s ls = some t) (hs : s.Stored cfg J)
    (hshut : t.pc.shut = false) {db : Db} (hdb : Still db) :
    ∃ db', Still db' ∧ ((run cfg J).guard fun _ l => Run.inserts l = true).run { s with db := db }
      (ls.filter Run.others) = some { t with db := db' } := by
  induction ls generalizing s db with
  | nil =>
      cases h
      exact ⟨db, hdb, rfl⟩
  | cons l ls ih =>
      obtain ⟨s', hstep, hrest⟩ := Machine.run_cons_inv _ h
      obtain ⟨hg, hstep⟩ := Machine.guard_step.mp hstep
      have hs' := hs.step hg hstep
      cases hl : Run.others l with
      | false =>
          rw [List.filter_cons_of_neg (by simp [hl])]
          cases l with
          | db r =>
              have hdb' : ∃ d, s' = { s with db := d } := by
                simp only [run] at hstep
                split at hstep
                · cases hstep
                · obtain ⟨d, -, rfl⟩ := Option.map_eq_some_iff.mp hstep
                  exact ⟨d, rfl⟩
              obtain ⟨d, rfl⟩ := hdb'
              exact ih hrest hs' hdb
          | _ => cases hl
      | true =>
          rw [List.filter_cons_of_pos hl]
          have hpc : s.pc ≠ .joining := by
            intro hpc
            have hend : t.pc.shut = true := by
              refine (Machine.guard_invariant (I := fun s : Run => s.Stored cfg J ∧ s.pc.shut = true)
                (fun hi hg hs => ⟨hi.1.step hg hs, hi.1.shut_step hi.2 hs⟩) h ⟨hs, ?_⟩).2
              rw [hpc]
              rfl
            rw [hshut] at hend
            cases hend
          obtain ⟨db', hdb', hrun⟩ := ih hrest hs' (hdb.sends s l)
          refine ⟨db', hdb', ?_⟩
          have hnext : ((run cfg J).guard fun _ l => Run.inserts l = true).step { s with db := db } l =
              some { s' with db := sends s l db } :=
            Machine.guard_step.mpr ⟨hg, (others_step hl hpc db).trans (by rw [hstep]; rfl)⟩
          rw [Machine.run_cons, hnext]
          exact hrun

end Tperf.Client

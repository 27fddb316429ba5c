import Mathlib.Data.List.TakeWhile
import Tperf.Db.Thread

/-!
# What the thread has done with the events so far
-/

namespace Tperf.Db
open Lib Proto

variable {Q : Sqlite} {J : PeersJson} {tag : Str}

/-! ## Good windows -/

theorem beforeShutdown_append (ws : List MetricWindow) (evs : List Event) :
    beforeShutdown (ws.map .metric ++ evs) = ws ++ beforeShutdown evs := by
  induction ws with
  | nil => rfl
  | cons w ws ih => simp [beforeShutdown, ih]

theorem Sqlite.AllGood.nil : Q.AllGood [] := by
  intro p hp
  simp at hp

theorem Sqlite.AllGood.concat {ws : List MetricWindow} {w : MetricWindow} (h : Q.AllGood ws)
    (hw : Q.insert ws.length w = .ok ()) : Q.AllGood (ws ++ [w]) := by
  intro p hp
  rw [List.zipIdx_append, List.mem_append] at hp
  rcases hp with hp | hp
  · exact h p hp
  · simp only [Nat.zero_add, List.zipIdx_cons, List.zipIdx_nil, List.mem_singleton] at hp
    subst hp
    exact hw

theorem isOk_iff {r : Except Str Unit} : r.isOk = true ↔ r = .ok () := by
  cases r <;> simp [Except.isOk, Except.toBool]

theorem Sqlite.good_of_allGood {ws : List MetricWindow} (h : Q.AllGood ws) : Q.good ws = ws := by
  rw [good, List.takeWhile_eq_self_iff.mpr, List.zipIdx_map_fst]
  intro p hp
  simp [h p hp, Except.isOk, Except.toBool]

/-- The windows after a failed insert do not matter. -/
theorem Sqlite.good_of_failed {ws vs : List MetricWindow} {w : MetricWindow} {e : Str}
    (h : Q.AllGood ws) (hw : Q.insert ws.length w = .error e) : Q.good (ws ++ w :: vs) = ws := by
  have hws : ∀ p ∈ ws.zipIdx, (Q.insert p.2 p.1).isOk = true := by
    intro p hp
    simp [h p hp, Except.isOk, Except.toBool]
  rw [good, List.zipIdx_append, List.zipIdx_cons, List.takeWhile_append_of_pos hws,
    List.takeWhile_cons_of_neg, List.append_nil, List.zipIdx_map_fst]
  simp [hw, Except.isOk, Except.toBool]

/-! ## The invariant -/

/-- What is left of the set-up. -/
def Stage.rest (Q : Sqlite) : Stage → Except Str Unit
  | .opening => Q.setup
  | .schema => Q.schema >>= fun _ => Q.config
  | .config => Q.config
  | .receiving => .ok ()

/-- Where the thread stands when the events `evs` have been sent. -/
inductive Serves (Q : Sqlite) (J : PeersJson) (tag : Str) (stage : Stage) (db : Db) (evs : List Event) :
    Prop
  | live (done : List MetricWindow) (hended : db.ended = none)
      (hevs : evs = done.map .metric ++ db.pending) (htable : db.table = done.map (insertMetric J tag))
      (hgood : Q.AllGood done) (hsetup : Q.setup = stage.rest Q)
      (hstage : stage ≠ .receiving → done = [])
  | closed (done : List MetricWindow) (rest : List Event) (hended : db.ended = some (.ok ()))
      (hevs : evs = done.map .metric ++ .shutdown :: rest)
      (htable : db.table = done.map (insertMetric J tag)) (hgood : Q.AllGood done)
      (hsetup : Q.setup = .ok ())
  | unset (e : Str) (hended : db.ended = some (.error e)) (htable : db.table = [])
      (hsetup : Q.setup = .error e)
  | failed (e : Str) (done : List MetricWindow) (w : MetricWindow) (rest : List Event)
      (hended : db.ended = some (.error e)) (hevs : evs = done.map .metric ++ .metric w :: rest)
      (htable : db.table = done.map (insertMetric J tag)) (hgood : Q.AllGood done)
      (hbad : Q.insert done.length w = .error e) (hsetup : Q.setup = .ok ())

variable {stage : Stage} {db db' : Db} {evs : List Event}

theorem Serves.send (h : Serves Q J tag stage db evs) (ev : Event) :
    Serves Q J tag stage (db.send ev) (evs ++ [ev]) := by
  cases h with
  | live done hended hevs htable hgood hsetup hstage =>
      refine .live done ?_ ?_ ?_ hgood hsetup hstage
      · rw [send_open hended]; exact hended
      · rw [send_pending hended, hevs, List.append_assoc]
      · rw [send_open hended]; exact htable
  | closed done rest hended hevs htable hgood hsetup =>
      rw [send_ended hended]
      exact .closed done (rest ++ [ev]) hended (by simp [hevs]) htable hgood hsetup
  | unset e hended htable hsetup =>
      rw [send_ended hended]
      exact .unset e hended htable hsetup
  | failed e done w rest hended hevs htable hgood hbad hsetup =>
      rw [send_ended hended]
      exact .failed e done w (rest ++ [ev]) hended (by simp [hevs]) htable hgood hbad hsetup

/-- A call of the set-up, with `r` left to do after it. -/
theorem Serves.call {s : Thread} {r : Except Str Unit} {next : Stage}
    (h : Serves Q J tag s.stage s.db evs) (hended : s.db.ended = none) (hstage : s.stage ≠ .receiving)
    (hrest : s.stage.rest Q = r >>= fun _ => next.rest Q) :
    Serves Q J tag (s.call r next).stage (s.call r next).db evs := by
  cases h with
  | closed _ _ h | unset _ h | failed _ _ _ _ h => rw [hended] at h; cases h
  | live done hended hevs htable hgood hsetup hnone =>
      obtain rfl := hnone hstage
      rw [hrest] at hsetup
      cases r with
      | ok u => exact .live [] hended hevs htable hgood hsetup fun _ => rfl
      | error e => exact .unset e rfl htable hsetup

theorem Serves.next (h : Serves Q J tag .receiving db evs) {inserted : Except Str Unit}
    (hins : ∀ w, db.taken = some w → inserted = Q.insert db.table.length w)
    (hdb : db.next J tag inserted = some db') : Serves Q J tag .receiving db' evs := by
  obtain ⟨hnone, hnext⟩ := next_cases hdb
  cases h with
  | closed _ _ h | unset _ h | failed _ _ _ _ h => rw [hnone] at h; cases h
  | live done hended hevs htable hgood hsetup _ =>
      have hlen : db.table.length = done.length := by rw [htable, List.length_map]
      rw [pending] at hevs
      cases hnext with
      | inserted w htaken =>
          have hins := hins w htaken
          rw [hlen] at hins
          rw [htaken] at hevs
          refine .live (done ++ [w]) hended ?_ ?_ (hgood.concat hins.symm) hsetup fun h => absurd rfl h
          · simp [pending, hevs]
          · simp [htable]
      | failed w e htaken =>
          have hins := hins w htaken
          rw [hlen] at hins
          rw [htaken] at hevs
          exact .failed e done w db.queue rfl (by simp [hevs]) htable hgood hins.symm hsetup
      | received _ w queue htaken hqueue =>
          refine .live done hended ?_ htable hgood hsetup fun h => absurd rfl h
          rw [hevs, htaken, hqueue]
          rfl
      | shut _ queue htaken hqueue =>
          refine .closed done queue rfl ?_ htable hgood hsetup
          rw [hevs, htaken, hqueue]
          rfl

/-! ## Steps of the machine -/

theorem sent_concat (ls : List ThreadLabel) (l : ThreadLabel) :
    sent (ls ++ [l]) = sent ls ++ l.event.toList := by
  rw [sent, List.filterMap_append]
  cases h : l.event <;> simp [sent, h]

structure Thread.Inv (Q : Sqlite) (J : PeersJson) (tag : Str) (ls : List ThreadLabel) (s : Thread) :
    Prop where
  serves : Serves Q J tag s.stage s.db (sent ls)
  closing : s.closing = true → .shutdown ∈ sent ls
  returned : ∀ r, s.returned = some r → s.db.ended = some r ∧ s.closing = true

namespace Thread

variable {ls : List ThreadLabel} {l : ThreadLabel} {s t : Thread}

theorem init_inv : init.Inv Q J tag [] where
  serves := .live [] rfl rfl rfl .nil rfl fun _ => rfl
  closing := nofun
  returned := nofun

/-- A label that sends nothing. -/
theorem Inv.quiet (h : s.Inv Q J tag ls) (hl : l.event = none)
    (hserves : Serves Q J tag t.stage t.db (sent ls)) (hclosing : t.closing = s.closing)
    (hreturned : ∀ r, t.returned = some r → t.db.ended = some r ∧ t.closing = true) :
    t.Inv Q J tag (ls ++ [l]) := by
  have hsent : sent (ls ++ [l]) = sent ls := by rw [sent_concat, hl]; simp
  refine ⟨?_, ?_, hreturned⟩
  · rw [hsent]; exact hserves
  · rw [hsent, hclosing]; exact h.closing

/-- The thread moves only before it has ended, and then `shutdown` has not returned. -/
theorem Inv.not_returned (h : s.Inv Q J tag ls) (hended : s.db.ended = none) : s.returned = none := by
  cases hr : s.returned with
  | none => rfl
  | some r => rw [(h.returned r hr).1] at hended; cases hended

theorem Inv.advance (h : s.Inv Q J tag ls) (hended : s.db.ended = none)
    (ht : advance Q J tag s = some t) :
    Serves Q J tag t.stage t.db (sent ls) ∧ t.closing = s.closing ∧ t.returned = s.returned := by
  have hcall : ∀ {r : Except Str Unit} {next : Stage}, s.stage ≠ .receiving →
      s.stage.rest Q = (r >>= fun _ => next.rest Q) → some (s.call r next) = some t →
      Serves Q J tag t.stage t.db (sent ls) ∧ t.closing = s.closing ∧ t.returned = s.returned := by
    intro r next hstage hrest heq
    obtain rfl := Option.some.inj heq
    exact ⟨h.serves.call hended hstage hrest, by cases r <;> rfl, by cases r <;> rfl⟩
  rw [Thread.advance] at ht
  cases hstage : s.stage with
  | opening | schema =>
      simp only [hstage] at ht
      exact hcall (by simp [hstage]) (by rw [hstage]; rfl) ht
  | config =>
      simp only [hstage] at ht
      refine hcall (by simp [hstage]) ?_ ht
      rw [hstage]
      exact (bind_pure Q.config).symm
  | receiving =>
      have hserves := h.serves
      rw [hstage] at hserves
      simp only [hstage] at ht
      split at ht
      · rename_i w htaken
        obtain ⟨db, hdb, rfl⟩ := Option.map_eq_some_iff.mp ht
        refine ⟨hserves.next ?_ hdb, rfl, rfl⟩
        intro w' hw
        cases htaken.symm.trans hw
        rfl
      · rename_i htaken
        obtain ⟨db, hdb, rfl⟩ := Option.map_eq_some_iff.mp ht
        refine ⟨hserves.next ?_ hdb, rfl, rfl⟩
        intro w hw
        cases htaken.symm.trans hw

theorem Inv.step (h : s.Inv Q J tag ls) (ht : step Q J tag s l = some t) : t.Inv Q J tag (ls ++ [l]) := by
  cases l with
  | handle | clone k =>
      simp only [Thread.step] at ht
      split at ht <;> cases ht
      exact h.quiet rfl h.serves rfl h.returned
  | insert k w =>
      simp only [Thread.step] at ht
      split at ht <;> cases ht
      refine ⟨?_, fun hc => ?_, fun r hr => ⟨?_, (h.returned r hr).2⟩⟩
      · rw [sent_concat]
        exact h.serves.send _
      · rw [sent_concat]
        exact List.mem_append_left _ (h.closing hc)
      · have hended := (h.returned r hr).1
        change (s.db.send _).ended = _
        rw [send_ended hended, hended]
  | shutdown =>
      simp only [Thread.step] at ht
      split at ht
      · cases ht
      · rename_i hc
        cases ht
        refine ⟨?_, fun _ => ?_, fun r hr => absurd (h.returned r hr).2 hc⟩
        · rw [sent_concat]
          exact h.serves.send _
        · rw [sent_concat]
          simp [ThreadLabel.event]
  | thread =>
      simp only [Thread.step] at ht
      split at ht
      · cases ht
      · rename_i hnone
        have hended : s.db.ended = none := by simpa using hnone
        obtain ⟨hserves, hclosing, hret⟩ := h.advance hended ht
        refine h.quiet rfl hserves hclosing fun r hr => ?_
        rw [hret, h.not_returned hended] at hr
        cases hr
  | join =>
      simp only [Thread.step] at ht
      split at ht
      · rename_i hc
        obtain ⟨r, hended, rfl⟩ := Option.map_eq_some_iff.mp ht
        refine h.quiet rfl h.serves rfl fun r' hr' => ?_
        cases hr'
        exact ⟨hended, hc.1⟩
      · cases ht

theorem run_inv (h : (machine Q J tag).run init ls = some s) : s.Inv Q J tag ls := by
  have := Machine.run_history (I := Inv Q J tag) (fun hi hs => hi.step hs) h init_inv
  simpa using this

end Thread

end Tperf.Db

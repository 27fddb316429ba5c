import Tperf.Client.Lemmas.Run
import Tperf.Lib.Modify

/-!
# The windows on their way to the table
-/

namespace Tperf.Client
open Lib Proto Db

variable {cfg : Config} {J : PeersJson}

/-- The rows of some windows. -/
def stored (cfg : Config) (J : PeersJson) (ws : List MetricWindow) : List Row :=
  ws.map (insertMetric J cfg.tag)

theorem stored_append (ws vs : List MetricWindow) :
    stored cfg J (ws ++ vs) = stored cfg J ws ++ stored cfg J vs := List.map_append

/-- `db.shutdown()` has been called, and `run` does not return an error. -/
def Pc.shut : Pc → Bool
  | .joining | .returned (.ok ()) | .exited (.ok ()) => true
  | _ => false

/-- No reader is left. -/
def Pc.quiet (pc : Pc) : Bool := pc = .closing || pc.shut

/-- The shutdown event is in the channel. -/
def Pc.tail : Pc → List Event
  | .joining => [.shutdown]
  | _ => []

theorem Pc.tail_nil {pc : Pc} (h : pc.shut = false) : pc.tail = [] := by
  cases pc <;> first | rfl | cases h

theorem Pc.not_shut {pc : Pc} (h : pc.quiet = false) : pc.shut = false := (Bool.or_eq_false_iff.mp h).2

/-- Where the windows are: in the table or, before the thread has ended, on their way to it. -/
inductive Run.Held (cfg : Config) (J : PeersJson) (s : Run) : Prop
  | thread (ws : List MetricWindow) (hended : s.db.ended = none)
      (hpending : s.db.pending = ws.map .metric ++ s.pc.tail)
      (htable : s.db.table ++ stored cfg J ws = stored cfg J (s.passed ++ s.late))
      (hpc : s.pc.shut = true → s.pc.tail = [.shutdown])
  | ended (hended : s.db.ended = some (.ok ())) (hpending : s.db.pending = [])
      (htable : s.db.table = stored cfg J s.passed) (hpc : s.pc.shut = true)

structure Run.Stored (cfg : Config) (J : PeersJson) (s : Run) : Prop where
  held : s.Held cfg J
  quiet : s.pc.quiet = true → ∀ c ∈ s.conns, c.live = false
  late : s.returned = false → s.late = []

theorem Run.init_stored : Run.init.Stored cfg J where
  held := .thread [] rfl rfl rfl nofun
  quiet := nofun
  late _ := rfl

/-! ## Steps -/

variable {s t : Run}

/-- A step that writes nothing on the way of the windows. -/
theorem Run.Held.same (h : s.Held cfg J) (hdb : t.db = s.db) (hpassed : t.passed = s.passed)
    (hlate : t.late = s.late) (htail : t.pc.tail = s.pc.tail) (hshut : t.pc.shut = s.pc.shut) :
    t.Held cfg J := by
  cases h with
  | thread ws hended hpending htable hpc =>
      refine .thread ws ?_ ?_ ?_ ?_
      · rw [hdb]; exact hended
      · rw [hdb, htail]; exact hpending
      · rw [hdb, hpassed, hlate]; exact htable
      · rw [hshut, htail]; exact hpc
  | ended hended hpending htable hpc =>
      refine .ended ?_ ?_ ?_ ?_
      · rw [hdb]; exact hended
      · rw [hdb]; exact hpending
      · rw [hdb, hpassed]; exact htable
      · rw [hshut]; exact hpc

theorem Run.Stored.same (h : s.Stored cfg J) (hdb : t.db = s.db) (hpassed : t.passed = s.passed)
    (hlate : t.late = s.late) (hpc : t.pc = s.pc)
    (hlive : (∀ c ∈ s.conns, c.live = false) → ∀ c ∈ t.conns, c.live = false) : t.Stored cfg J where
  held := h.held.same hdb hpassed hlate (by rw [hpc]) (by rw [hpc])
  quiet := by
    rw [hpc]
    exact fun hq => hlive (h.quiet hq)
  late := by
    simp only [Run.returned, hpc, hlate]
    exact h.late

theorem Run.Stored.onConn (h : s.Stored cfg J) {i : Nat} {f : Conn → Conn}
    (hf : ∀ c, s.conns[i]? = some c → c.live = false → (f c).live = false) : (s.onConn i f).Stored cfg J :=
  h.same rfl rfl rfl rfl fun hlive => forall_modify hlive fun c hc =>
    hf c hc (hlive c (List.mem_of_getElem? hc))

/-- The main task goes to a place where neither the channel nor the readers matter. -/
theorem Run.Stored.goes (h : s.Stored cfg J) (hdb : t.db = s.db) (hpassed : t.passed = s.passed)
    (hlate : t.late = s.late) (hs : s.pc.shut = false ∧ s.returned = false)
    (ht : t.pc.shut = false) (hquiet : t.pc.quiet = true → ∀ c ∈ t.conns, c.live = false) :
    t.Stored cfg J where
  held := h.held.same hdb hpassed hlate (by rw [Pc.tail_nil ht, Pc.tail_nil hs.1]) (by rw [ht, hs.1])
  quiet := hquiet
  late _ := by rw [hlate]; exact h.late hs.2

theorem Run.Stored.move (h : s.Stored cfg J) {pc : Pc} (hm : Moves s pc) : (s.goto pc).Stored cfg J := by
  cases hm with
  | joined hpc hr =>
      cases h.held with
      | thread ws hended => rw [hended] at hr; cases hr
      | ended hended hpending htable _ =>
          rw [hended] at hr
          cases hr
          exact ⟨.ended hended hpending htable rfl, fun _ => h.quiet (by rw [hpc]; rfl), nofun⟩
  | exit hpc =>
      rename_i r
      refine ⟨h.held.same rfl rfl rfl ?_ ?_, fun hq => h.quiet ?_, nofun⟩
      · rw [hpc]; rfl
      · rw [hpc]; cases r <;> rfl
      · rw [hpc]
        cases r with
        | ok _ => rfl
        | error _ => cases hq
  | drained hpc hno =>
      refine h.goes rfl rfl rfl ?_ rfl fun _ c hc => ?_
      · rw [Run.returned, hpc]; exact ⟨rfl, rfl⟩
      · rw [List.any_eq_false] at hno
        exact Bool.eq_false_iff.mpr (hno c hc)
  | failed e hpc =>
      refine h.goes rfl rfl rfl ?_ rfl nofun
      rcases hpc with hpc | ⟨k, hpc⟩ <;> rw [Run.returned, hpc] <;> exact ⟨rfl, rfl⟩
  | stop hpc | next hpc =>
      refine h.goes rfl rfl rfl ?_ rfl nofun
      rcases hpc with hpc | hpc <;> rw [Run.returned, hpc] <;> exact ⟨rfl, rfl⟩
  | connected hpc | mesh hpc | traffic hpc | stopping hpc | drain hpc | timeout hpc =>
      refine h.goes rfl rfl rfl ?_ rfl nofun
      rw [Run.returned, hpc]
      exact ⟨rfl, rfl⟩
  | wait hpc _ =>
      refine h.goes rfl rfl rfl ?_ rfl nofun
      rw [Run.returned, hpc]
      exact ⟨rfl, rfl⟩

theorem Run.Held.notEnded (h : s.Held cfg J) (hpc : s.pc.shut = false) :
    s.db.ended = none ∧ ∃ ws : List MetricWindow, s.db.pending = ws.map .metric ∧
      s.db.table ++ stored cfg J ws = stored cfg J (s.passed ++ s.late) := by
  cases h with
  | thread ws hended hpending htable _ =>
      rw [Pc.tail_nil hpc, List.append_nil] at hpending
      exact ⟨hended, ws, hpending, htable⟩
  | ended _ _ _ hshut => rw [hpc] at hshut; cases hshut

/-- A reader passes a window. -/
theorem Run.Stored.pass (h : s.Stored cfg J) (hquiet : s.pc.quiet = false) (w : MetricWindow) :
    (s.pass w).Stored cfg J := by
  have hshut := Pc.not_shut hquiet
  obtain ⟨hended, ws, hpending, htable⟩ := h.held.notEnded hshut
  have hsend : s.db.insert w = { s.db with queue := s.db.queue ++ [.metric w] } := Db.send_open hended _
  have hall : (s.pass w).passed ++ (s.pass w).late = s.passed ++ s.late ++ [w] := by
    rw [Run.pass]
    cases hr : s.returned with
    | false => simp [h.late hr]
    | true => simp
  refine ⟨.thread (ws ++ [w]) ?_ ?_ ?_ ?_, ?_, ?_⟩
  · rw [Run.pass, hsend]; exact hended
  · have htail : (s.pass w).pc.tail = [] := Pc.tail_nil hshut
    rw [htail, List.append_nil, List.map_append, ← hpending]
    exact Db.send_pending hended _
  · rw [hall, stored_append, ← List.append_assoc]
    rw [stored_append (s.passed ++ s.late), ← htable]
    rw [Run.pass, hsend]
  · intro hs
    have hs : s.pc.shut = true := hs
    rw [hshut] at hs
    cases hs
  · intro hq
    have hq : s.pc.quiet = true := hq
    rw [hquiet] at hq
    cases hq
  · intro hr
    have hr : s.returned = false := hr
    rw [Run.pass, hr]
    exact h.late hr

/-- `db.shutdown()` is called. -/
theorem Run.Stored.shutdown (h : s.Stored cfg J) (hpc : s.pc = .closing) :
    ({ s with db := s.db.send .shutdown }.goto .joining).Stored cfg J := by
  obtain ⟨hended, ws, hpending, htable⟩ := h.held.notEnded (by rw [hpc]; rfl)
  have hsend := Db.send_open hended .shutdown
  refine ⟨.thread ws ?_ ?_ ?_ fun _ => rfl, fun _ => h.quiet (by rw [hpc]; rfl), fun _ => ?_⟩
  · rw [hsend]; exact hended
  · rw [← hpending]; exact Db.send_pending hended _
  · rw [hsend]; exact htable
  · exact h.late (by rw [Run.returned, hpc])

theorem Pc.tail_cases (pc : Pc) : pc.tail = [] ∨ pc = .joining := by
  cases pc <;> simp [tail]

/-- The thread receives an event, or an insert succeeds. -/
theorem Run.Stored.next (h : s.Stored cfg J) {db : Db} (hdb : s.db.next J cfg.tag (.ok ()) = some db) :
    { s with db := db }.Stored cfg J := by
  refine ⟨?_, h.quiet, h.late⟩
  obtain ⟨hnone, hnext⟩ := Db.next_cases hdb
  cases h.held with
  | ended hended => rw [hnone] at hended; cases hended
  | thread ws hended hpending htable hpc =>
      rw [Db.pending] at hpending
      cases hnext with
      | inserted w htaken =>
          rw [htaken] at hpending
          cases ws with
          | nil => rcases s.pc.tail_cases with htail | htail <;> rw [htail] at hpending <;> cases hpending
          | cons v ws =>
              obtain ⟨rfl, hqueue⟩ : w = v ∧ s.db.queue = ws.map .metric ++ s.pc.tail := by
                simpa using hpending
              refine .thread ws hended hqueue ?_ hpc
              rw [← htable]
              exact (List.append_cons _ _ _).symm
      | received _ w queue htaken hqueue =>
          refine .thread ws hended ?_ htable hpc
          rw [← hpending, htaken, hqueue]
          rfl
      | shut _ queue htaken hqueue =>
          rw [htaken, hqueue] at hpending
          cases ws with
          | cons v ws => cases hpending
          | nil =>
              rcases s.pc.tail_cases with htail | hjoining
              · rw [htail] at hpending
                cases hpending
              · rw [hjoining] at hpending
                cases hpending
                have hlate : s.late = [] := h.late (by rw [Run.returned, hjoining])
                refine .ended rfl ?_ ?_ (by rw [hjoining]; rfl)
                · rw [Db.pending, htaken]
                  rfl
                · rw [hlate, List.append_nil] at htable
                  rw [← htable]
                  exact (List.append_nil _).symm

/-- Every insert succeeds. -/
def Run.inserts : RunLabel → Bool
  | .db (.error _) => false
  | _ => true

theorem Conn.serve_live {c c' : Conn} (h : c.serve = some c') : c'.live = c.live := by
  unfold Conn.serve at h
  split at h <;> cases h
  rfl

theorem Conn.reply_live {c c' : Conn} {r : Except Str Unit} (h : c.reply r = some c') :
    c'.live = c.live := by
  unfold Conn.reply at h
  split at h
  · cases h
  · split at h <;> cases h <;> rfl

theorem Run.Stored.step {l : RunLabel} (h : s.Stored cfg J) (hg : Run.inserts l = true)
    (hs : (run cfg J).step s l = some t) : t.Stored cfg J := by
  cases steps hs with
  | idle => exact h
  | move hm => exact h.move hm
  | connect hpc =>
      refine h.goes rfl rfl rfl ?_ (by show s.pc.shut = false; rw [hpc]; rfl) ?_
      · rw [Run.returned, hpc]; exact ⟨rfl, rfl⟩
      · intro hq
        have hq : s.pc.quiet = true := hq
        rw [hpc] at hq
        cases hq
  | begin hpc =>
      refine h.goes rfl rfl rfl ?_ rfl nofun
      rcases hpc with hpc | hpc <;> rw [Run.returned, hpc] <;> exact ⟨rfl, rfl⟩
  | start hpc _ =>
      refine h.goes rfl rfl rfl ?_ rfl nofun
      rw [Run.returned, hpc]
      exact ⟨rfl, rfl⟩
  | abort hpc =>
      refine h.goes rfl rfl rfl ?_ rfl ?_
      · rw [Run.returned, hpc]; exact ⟨rfl, rfl⟩
      · intro _ c hc
        obtain ⟨a, -, rfl⟩ := List.mem_map.mp hc
        exact Bool.and_false _
  | shutdown hpc => exact h.shutdown hpc
  | cancel => exact h.same rfl rfl rfl rfl fun hlive => hlive
  | serve hc hserve =>
      refine h.onConn fun a ha hlive => ?_
      obtain rfl := Option.some.inj (hc.symm.trans ha)
      exact (Conn.serve_live hserve).trans hlive
  | reply hc hreply =>
      refine h.onConn fun a ha hlive => ?_
      obtain rfl := Option.some.inj (hc.symm.trans ha)
      exact (Conn.reply_live hreply).trans hlive
  | send => exact h.onConn fun a _ hlive => hlive
  | read hpc hc hlive hm =>
      rename_i i c m ms
      -- a reader is live, so the client is not shutting down
      have hquiet : s.pc.quiet = false := by
        cases hq : s.pc.quiet with
        | false => rfl
        | true => rw [h.quiet hq c (List.mem_of_getElem? hc)] at hlive; cases hlive
      have hread : (s.onConn i (.read m)).Stored cfg J := by
        refine h.onConn fun a ha hdead => ?_
        obtain rfl := Option.some.inj (hc.symm.trans ha)
        rw [hlive] at hdead
        cases hdead
      unfold Run.effect
      split
      · exact hread.pass hquiet _
      · split
        · exact hread.same rfl rfl rfl rfl fun hlive => hlive
        · exact hread
  | readErr =>
      refine h.onConn fun a _ hlive => ?_
      rw [hlive]
      exact hlive
  | db hpc hdb =>
      rename_i inserted db
      cases inserted with
      | ok u => exact h.next hdb
      | error e => cases hg

end Tperf.Client

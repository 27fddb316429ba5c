import Tperf.Control.Lemmas.Delivered
import Tperf.Control.Theorems.Refinement
import Tperf.Lib.Rotation
import Tperf.Testplan.Theorems

/-!
# The pairs take turns
-/

namespace Tperf.Control
open Lib Lib.Circle Proto Client Server Testplan Net Dataplane

variable {D : Setup} {f : MetricWindow → MetricWindow} {W : World}

/-- A start that makes a server send to `name`. -/
def sendsTo (name : Str) : Msg → Bool
  | .start _ a => a.targets.any fun t => t.name = name
  | _ => false

/-- The messages that a session has read, but for a stop, are the starts of the first rounds. -/
theorem World.Ok.asked (h : W.Ok D f) {i : Nat} {L : Link} (hL : W.links[i]? = some L) :
    ∃ ms, (L.session.requests = ms ∨ L.session.requests = ms ++ [.stop]) ∧ AllStarts ms ∧
      ∀ (r : Nat) (m : Msg), ms[r]? = some m → D.start (r + 1) i = some m := by
  obtain ⟨ms, stops, hplan⟩ := h.plan i L hL
  have hpre := (h.links' hL).requests.first
  rw [List.map_id, hplan.written] at hpre
  have hfirst : ∀ l, l <+: ms → AllStarts l ∧ ∀ (r : Nat) (m : Msg), l[r]? = some m → D.start (r + 1) i = some m := by
    intro l hl
    refine ⟨fun m hm => hplan.allStarts m (hl.subset hm), fun r m hm => ?_⟩
    have hlt := (List.getElem?_eq_some_iff.mp hm).1
    rw [← hplan.starts r (Nat.lt_of_lt_of_le hlt hl.length_le)]
    obtain ⟨more, rfl⟩ := hl
    rw [List.getElem?_append_left hlt, hm]
  rcases hplan.last with rfl | rfl
  · rw [List.append_nil] at hpre
    exact ⟨_, .inl rfl, hfirst _ hpre⟩
  · rcases List.prefix_concat_iff.mp hpre with hall | hpre
    · exact ⟨ms, .inr hall, hfirst ms List.prefix_rfl⟩
    · exact ⟨_, .inl rfl, hfirst _ hpre⟩

section Pairs

variable {items : List Str} (hx : Config.expandHostlist items = .ok D.cfg.hostlist)
  (hn : 2 ≤ D.cfg.hostlist.length) (h32 : D.cfg.hostlist.length < 2 ^ 32)
  (hr : D.resolved.length = D.cfg.hostlist.length) (hpairs : D.cfg.testType = .pairs)

include hx hn h32 hr hpairs

/-- In round `r + 1` host `h` gets the partner that it has in the tournament round `r % n`. -/
theorem start_sendsTo {i r : Nat} {h name : Str} {m : Msg} {ps : List (Str × Str)} (hi : D.cfg.hostlist[i]? = some h)
    (hps : (roundRobinRounds D.cfg.hostlist)[r % (roundRobinRounds D.cfg.hostlist).length]? = some ps)
    (hm : D.start (r + 1) i = some m) : sendsTo name m = true ↔ 0 < meetings h name ps := by
  obtain ⟨-, hsub, -⟩ := round_disjoint hn (Config.expandHostlist_nodup hx) (List.mem_of_getElem? hps)
  have hindex : Outcome.index (ε := Empty) (roundRobinRounds D.cfg.hostlist)
      (r % (roundRobinRounds D.cfg.hostlist).length) = .ok ps := by
    obtain ⟨hlt, rfl⟩ := List.getElem?_eq_some_iff.mp hps
    exact Outcome.index_of_lt hlt
  have hasg : D.assignments (r + 1) = .ok (D.cfg.hostlist.mapIdx (planOf showSocketAddr D.resolved D.cfg.hostlist ps)) := by
    simp only [Setup.assignments, hpairs, Nat.add_sub_cancel, hindex, Outcome.ok_bind]
    exact roundAssignments_eq (Config.expandHostlist_nodup hx) h32 hr hsub
  rw [Setup.start, hasg] at hm
  simp only [List.getElem?_mapIdx, hi, Option.map_some, Option.some.injEq] at hm
  subst hm
  rw [← mem_partners]
  simp only [sendsTo, planOf, List.any_map, List.any_eq_true, Function.comp_apply]
  constructor
  · rintro ⟨b, hb, he⟩
    exact of_decide_eq_true he ▸ hb
  · exact fun hmem => ⟨name, hmem, decide_eq_true rfl⟩

/-- In pairs mode, among the starts that a server has read the other hosts are targets equally often, up to
once: each of them once in every full turn of the tournament. -/
theorem partners_take_turns {ls : List WorldLabel} (hne : ∀ m, D.serde.toVec m ≠ [])
    (h : ((world D).guard fun W l => W.tears l = false).run .init ls = some W) (hback : W.ReadsBack D.serde f)
    {i : Nat} {L : Link} {self name : Str} (hL : W.links[i]? = some L) (hi : D.cfg.hostlist[i]? = some self)
    (hname : name ∈ D.cfg.hostlist) (hother : self ≠ name) :
    Server.starts L.session.requests / (roundRobinRounds D.cfg.hostlist).length ≤
      L.session.requests.countP (sendsTo name) ∧
    L.session.requests.countP (sendsTo name) ≤
      Server.starts L.session.requests / (roundRobinRounds D.cfg.hostlist).length +
        if Server.starts L.session.requests % (roundRobinRounds D.cfg.hostlist).length = 0 then 0 else 1 := by
  obtain ⟨hok, -⟩ := simulates True (G := fun _ => true) (fun W l hl => ⟨hl, .inl trivial, fun _ _ => rfl⟩)
    (fun _ _ => rfl) hne h hback
  obtain ⟨ms, hreq, hall, hms⟩ := hok.asked hL
  have hnd := Config.expandHostlist_nodup hx
  obtain ⟨k, ps, hk, hmeet, honly⟩ := exists_only_meeting hn hnd (List.mem_of_getElem? hi) hname hother
  have hlt := (List.getElem?_eq_some_iff.mp hk).1
  have hpos : 0 < (roundRobinRounds D.cfg.hostlist).length := Nat.zero_lt_of_lt hlt
  have hturn : ∀ (r : Nat) (m : Msg), ms[r]? = some m →
      (sendsTo name m = true ↔ r % (roundRobinRounds D.cfg.hostlist).length = k) := by
    intro r m hm
    have hmod := List.getElem?_eq_getElem (Nat.mod_lt r hpos)
    rw [start_sendsTo hx hn h32 hr hpairs hi hmod (hms r m hm)]
    refine ⟨fun hm => honly _ _ hmod hm, fun heq => ?_⟩
    rw [show (roundRobinRounds D.cfg.hostlist)[r % (roundRobinRounds D.cfg.hostlist).length] = ps from
      Option.some.inj (hmod.symm.trans (by rw [heq, hk])), hmeet]
    exact Nat.one_pos
  have hbounds := countP_rotation hlt hturn
  have hcount : L.session.requests.countP (sendsTo name) = ms.countP (sendsTo name) := by
    rcases hreq with hreq | hreq
    · rw [hreq]
    · rw [hreq, List.countP_append]
      rfl
  have hlen : Server.starts L.session.requests = ms.length := by
    rcases hreq with hreq | hreq <;> rw [hreq]
    · exact hall.starts_eq
    · rw [starts_append, hall.starts_eq]
      rfl
  rw [hcount, hlen]
  exact hbounds

end Pairs

theorem expandHostlist_ab : Config.expandHostlist [['a'], ['b']] = .ok [['a'], ['b']] := by
  have ha := @Config.expandPattern_plain ['a'] (by decide)
  have hb := @Config.expandPattern_plain ['b'] (by decide)
  simp [Config.expandHostlist, ha, hb, Config.pushHost]

/-- The sample run in the first round. -/
theorem partners_take_turns_first :
    ∃ W L, (world pairSetup).run .init roundRun = some W ∧ W.links[0]? = some L ∧
      L.session.requests.countP (sendsTo ['b']) = 1 := by
  have h : (((world pairSetup).guard fun W l => W.tears l = false).run .init roundRun).map
      (fun W => (messages W, W.links.map fun L => Server.starts L.session.requests)) =
      some ([([startAck], (pairSetup.start 1 0).toList), ([startAck], (pairSetup.start 1 1).toList)], [1, 1]) := by
    decide +kernel
  obtain ⟨W, hW, h⟩ := Option.map_eq_some_iff.mp h
  simp only [Prod.mk.injEq] at h
  have hlinks := congrArg (fun l => l[0]?) h.2
  rw [List.getElem?_map] at hlinks
  obtain ⟨L, hL, hone⟩ := Option.map_eq_some_iff.mp hlinks
  have hround : (roundRobinRounds pairSetup.cfg.hostlist).length = 1 := by decide
  have hname : ['b'] ∈ pairSetup.cfg.hostlist := by decide
  have hother : ['a'] ≠ ['b'] := by decide
  have hturns := partners_take_turns expandHostlist_ab (by decide) (by decide) (by decide) rfl pairJson_ne_nil hW
    (readsBack_sample h.1 (by decide +kernel)) hL rfl hname hother
  rw [hone, hround] at hturns
  exact ⟨W, L, Machine.run_of_guard hW, hL, Nat.le_antisymm hturns.2 hturns.1⟩

end Tperf.Control

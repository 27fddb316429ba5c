import Tperf.Client.Lemmas.Lockstep
import Tperf.Control.Theorems.Refinement

/-!
# The servers and the rounds
-/

namespace Tperf.Control
open Lib Proto Client Server

variable {D : Setup} {f : MetricWindow → MetricWindow} {W : World}

/-- The deadline of `wait_round` has not passed. -/
def prompt : WorldLabel → Bool
  | .client k => Run.prompt k
  | _ => true

/-- As long as no deadline has passed: while the traffic of a round is measured, every server has read the
starts of the rounds so far and nothing else, and has made a test for each. A server that reads on has the
test of this round in its variable, going on, and no other. -/
theorem rounds_in_step {ls : List WorldLabel} (hne : ∀ m, D.serde.toVec m ≠ [])
    (h : ((world D).guard fun W l => W.tears l = false ∧ W.writes D l = true ∧ prompt l = true).run .init ls =
      some W)
    (hback : W.ReadsBack D.serde f) (hpc : W.client.pc = .traffic) {i : Nat} {L : Link} (hL : W.links[i]? = some L) :
    L.session.requests.length = W.client.round ∧
    (∀ r, r < W.client.round → L.session.requests[r]? = D.start (r + 1) i) ∧
    L.session.outcomes = (List.range W.client.round).map .ok ∧
    (L.session.pc = .reading → L.session.test = some (W.client.round - 1) ∧
      (∃ u, L.session.tests[W.client.round - 1]? = some u ∧ u.cancelled = false ∧ u.joined = false) ∧
      ∀ (j : Nat) (v : RunningTest), L.session.tests[j]? = some v → v.joined = false →
        j = W.client.round - 1) := by
  obtain ⟨hok, ks, r, hks, hm⟩ := simulates False (G := Run.prompt)
    (fun W l hl => ⟨hl.1, .inr hl.2.1, fun k hk => by rw [hk] at hl; exact hl.2.2⟩)
    (fun k hk => by
      cases k with
      | poll => cases hk
      | send i m => simpa [Run.prompt] using hk.resolve_left id
      | _ => rfl) hne h hback
  have hlock : r.Lockstep := Machine.guard_invariant (fun hi hg hs => hi.step hg hs) hks Run.init_lockstep
  have hkept : L.session.Kept :=
    Machine.guard_invariant (I := World.Kept) (fun hi hg hs => hi.step hg.2.1 hs) h World.init_kept L
      (List.mem_of_getElem? hL)
  have hround : r.round = W.client.round := by rw [hm.main]
  have hpc' : r.pc = .traffic := by rw [hm.main]; exact hpc
  have hpos : 0 < W.client.round := hround ▸ hlock.begun.started (by rw [hpc']; rfl)
  obtain ⟨c, a, hc, ha⟩ := hm.conn (hok.length ▸ (List.getElem?_eq_some_iff.mp hL).1)
  have hidle := hlock.idle (by rw [Run.between, hpc']) a (List.mem_of_getElem? ha)
  obtain ⟨ms, stops, hplan⟩ := hok.plan i L hL
  obtain ⟨rfl, hlen⟩ := hplan.due (by rw [hpc]; rfl)
  rw [Run.begun, hpc] at hlen
  have hlen : ms.length = W.client.round := hlen
  have hwritten : L.written = ms := hplan.written.trans (List.append_nil ms)
  cases (hm.twins i L c a hL hc ha).far with
  | lost h => exact h.elim
  | served _ _ hinbox hbusy hacked _ =>
      -- the far end has read every start, so the session has
      have hpre : L.session.requests <+: ms := by
        have := (hok.links' hL).requests.first
        rwa [List.map_id, hwritten] at this
      have hall : AllStarts L.session.requests := fun m hm => hplan.allStarts m (hpre.subset hm)
      have hread : L.session.requests = ms := by
        refine hpre.eq_of_length_le ?_
        have hzero := congrArg List.length (hinbox.symm.trans hidle.inbox)
        rw [List.length_range', hwritten, hplan.allStarts.starts_eq, hall.starts_eq, List.length_nil] at hzero
        omega
      have hstarts : Server.starts L.session.requests = W.client.round := by
        rw [hread, hplan.allStarts.starts_eq, hlen]
      obtain ⟨houtcomes, htests⟩ := hkept.outcomes (hbusy.symm.trans hidle.busy) (by
        rw [← hacked, hidle.acked, hround, hstarts])
      rw [hstarts] at houtcomes htests
      refine ⟨by rw [hread, hlen], fun n hn => by rw [hread]; exact hplan.starts n (by omega), houtcomes,
        fun hreading => ?_⟩
      have htest : L.session.test = some (W.client.round - 1) :=
        hkept.holds hreading hall _ (by
          rw [houtcomes, List.getLast?_map, List.getLast?_range, if_neg (Nat.ne_of_gt hpos)]
          rfl)
      refine ⟨htest, hkept.going _ (.inl htest), fun j v hv hjoined => ?_⟩
      rcases hkept.inv.held j v hv hjoined with hj | hj
      · exact Option.some.inj (hj.symm.trans htest)
      · rw [hreading] at hj
        cases hj

/-- The sample run in the first round, with both servers ready. -/
theorem rounds_in_step_first :
    ∃ W L, (world pairSetup).run .init roundRun = some W ∧ W.links[1]? = some L ∧
      L.session.requests.length = 1 ∧ L.session.test = some 0 := by
  have h : (((world pairSetup).guard fun W l =>
      W.tears l = false ∧ W.writes pairSetup l = true ∧ prompt l = true).run .init roundRun).map
      (fun W => (messages W, W.client.pc, W.client.round, W.links.map fun L => L.session.pc)) =
      some ([([startAck], (pairSetup.start 1 0).toList), ([startAck], (pairSetup.start 1 1).toList)],
        .traffic, 1, [.reading, .reading]) := by decide +kernel
  obtain ⟨W, hW, h⟩ := Option.map_eq_some_iff.mp h
  simp only [Prod.mk.injEq] at h
  obtain ⟨hmsg, hpc, hround, hreading⟩ := h
  have hlinks := congrArg (fun l => l[1]?) hreading
  rw [List.getElem?_map] at hlinks
  obtain ⟨L, hL, hread⟩ := Option.map_eq_some_iff.mp hlinks
  obtain ⟨hlen, -, -, htest⟩ := rounds_in_step pairJson_ne_nil hW (readsBack_sample hmsg (by decide +kernel)) hpc hL
  rw [hround] at hlen htest
  exact ⟨W, L, Machine.run_of_guard hW, hL, hlen, (htest hread).1⟩

end Tperf.Control

import Tperf.Control.Lemmas.Delivered
import Tperf.Control.Theorems.Refinement

/-!
# From the servers to the table
-/

namespace Tperf.Control
open Lib Proto Client Server

variable {D : Setup} {f : MetricWindow → MetricWindow} {W W' : World}

/-- Every insert succeeds. -/
def inserts : WorldLabel → Bool
  | .client k => Run.inserts k
  | _ => true

/-- Every read and every insert succeeds, and the readers end in time. -/
def calm : WorldLabel → Bool
  | .client (.readErr _) | .client .drainTimeout => false
  | l => inserts l

theorem calm_client {k : RunLabel} (h : calm (.client k) = true) : Run.inserts k = true ∧ k ≠ .drainTimeout := by
  cases k with
  | readErr | drainTimeout => cases h
  | _ => exact ⟨h, by simp⟩

theorem calm_cuts {l : WorldLabel} (h : calm l = true) : cuts l = false := by
  cases l with
  | client k =>
      cases k with
      | readErr => cases h
      | _ => rfl
  | _ => rfl

theorem calm_inserts {l : WorldLabel} (h : calm l = true) : inserts l = true := by
  cases l with
  | client k => exact (calm_client h).1
  | _ => rfl

/-! ## The windows read and the windows stored -/

/-- The readers have inserted the windows they have read. -/
structure World.Counted (cut : Prop) (W : World) : Prop where
  length : W.links.length = W.client.conns.length
  heard : W.AllHeard cut

theorem World.init_counted {cut : Prop} : World.init.Counted cut := ⟨rfl, by simp [World.AllHeard, World.init]⟩

theorem World.Counted.step {cut : Prop} (h : W.Counted cut) {l : WorldLabel} (hs : (world D).step W l = some W')
    (hcut : cut ∨ cuts l = false) : W'.Counted cut :=
  ⟨world_length h.length hs, h.heard.step h.length hs hcut⟩

theorem Matches.inserted {lost cut : Prop} {r : Run} (h : Matches f lost W r) (hc : W.Counted cut) :
    (r.conns.map fun c => c.reader.inserted) = W.links.map fun L => windows L.got := by
  apply List.ext_getElem
  · simp [h.length, hc.length]
  · intro i hi hi'
    rw [List.length_map] at hi hi'
    have hW := List.getElem?_eq_getElem (hc.length ▸ hi')
    have htwin := h.twins i _ _ _ (List.getElem?_eq_getElem hi') hW (List.getElem?_eq_getElem hi)
    rw [List.getElem_map, List.getElem_map, htwin.reader]
    exact (hc.heard i _ _ (List.getElem?_eq_getElem hi') hW).inserted

/-- When `run` has returned `Ok`, the rows are those of the windows that the readers have inserted. -/
theorem stored_merged {r : Run} (hs : r.Stored D.cfg D.peers) (hm : r.Merged) (hpc : r.pc = .exited (.ok ())) :
    r.db.table = stored D.cfg D.peers r.passed ∧ Merge (r.conns.map fun c => c.reader.inserted) r.passed := by
  have hlate : r.late = [] := hm.late (by rw [hpc]; rfl)
  have hmerge := hm.merge
  rw [hlate, List.append_nil] at hmerge
  refine ⟨?_, hmerge⟩
  cases hs.held with
  | ended _ _ htable _ => exact htable
  | thread ws _ _ _ hshut =>
      have := hshut (by rw [hpc]; rfl)
      rw [hpc] at this
      cases this

/-- Whatever else fails, when `run` has returned `Ok` the table holds windows that the servers have sent and
nothing else: of each server the first ones, each of them once, in the order they were sent. -/
theorem table_merges {ls : List WorldLabel} (hne : ∀ m, D.serde.toVec m ≠ [])
    (h : ((world D).guard fun W l => W.tears l = false ∧ inserts l = true).run .init ls = some W)
    (hback : W.ReadsBack D.serde f) (hpc : W.client.pc = .exited (.ok ())) :
    ∃ ws, W.client.db.table = stored D.cfg D.peers ws ∧ Merge (W.links.map fun L => windows L.got) ws ∧
      ∀ L ∈ W.links, windows L.got <+: windows (L.session.sent.map fun x => x.msg.back f) := by
  obtain ⟨hok, ks, r, hks, hm⟩ := simulates True (G := Run.inserts)
    (fun W l hl => ⟨hl.1, .inl trivial, fun k hk => by rw [hk] at hl; exact hl.2⟩)
    (fun k hk => by
      cases k with
      | db => cases hk
      | _ => rfl) hne h hback
  have hcounted : W.Counted True :=
    Machine.run_invariant (fun hi hs => hi.step hs (.inl trivial)) (Machine.run_of_guard h) World.init_counted
  obtain ⟨hstored, hmerged⟩ := Machine.guard_invariant
    (I := fun s : Run => s.Stored D.cfg D.peers ∧ s.Merged)
    (fun hi hg hs => ⟨hi.1.step hg hs, hi.2.step hi.1 hs⟩) hks ⟨Run.init_stored, Run.init_merged⟩
  obtain ⟨htable, hmerge⟩ := stored_merged hstored hmerged (by rw [hm.main]; exact hpc)
  have hdb : r.db = W.client.db := by rw [hm.main]
  refine ⟨r.passed, by rw [← hdb]; exact htable, by rw [← hm.inserted hcounted]; exact hmerge, fun L hL => ?_⟩
  exact (hok.links L hL).got.first.filterMap _

/-! ### A run -/

/-- The sample run ends, with one window sent. -/
theorem wholeRun_ends :
    ∃ W, ((world pairSetup).guard fun W l => W.tears l = false ∧ W.writes pairSetup l = true ∧ calm l = true).run
        .init wholeRun = some W ∧ W.ReadsBack pairJson id ∧ W.client.pc = .exited (.ok ()) ∧
      W.links.map (fun L => L.got) = [[startAck, .metrics sampleWindow, stopAck], [startAck, stopAck]] := by
  have h : (((world pairSetup).guard fun W l =>
      W.tears l = false ∧ W.writes pairSetup l = true ∧ calm l = true).run .init wholeRun).map
      (fun W => (messages W, W.client.pc, W.links.map fun L => L.got)) =
      some ([([startAck, .metrics sampleWindow, stopAck], (pairSetup.start 1 0).toList ++ [.stop]),
          ([startAck, stopAck], (pairSetup.start 1 1).toList ++ [.stop])], .exited (.ok ()),
        [[startAck, .metrics sampleWindow, stopAck], [startAck, stopAck]]) := by decide +kernel
  obtain ⟨W, hW, h⟩ := Option.map_eq_some_iff.mp h
  simp only [Prod.mk.injEq] at h
  exact ⟨W, hW, readsBack_sample h.1 (by decide +kernel), h.2⟩

theorem table_merges_whole :
    ∃ W ws, (world pairSetup).run .init wholeRun = some W ∧
      W.client.db.table = stored pairsConfig emptyPeers ws ∧ Merge [[sampleWindow], []] ws := by
  obtain ⟨W, hW, hback, hpc, hgot⟩ := wholeRun_ends
  obtain ⟨ws, htable, hmerge, -⟩ := table_merges pairJson_ne_nil (Machine.run_of_guard_mono
    (fun W l hl => ⟨hl.1, calm_inserts hl.2.2⟩) hW) hback hpc
  refine ⟨W, ws, Machine.run_of_guard hW, htable, ?_⟩
  have hwindows : (W.links.map fun L => windows L.got) = [[sampleWindow], []] :=
    List.map_map.symm.trans (congrArg (List.map windows) hgot)
  rwa [hwindows] at hmerge

/-! ## Nothing is left out -/

/-- When nothing has failed and `run` has returned `Ok`, the table holds every window of every server whose
start ack its reader has read: the readers that have ended have read the answer to the stop, and no window
comes behind that. -/
theorem table_complete {ls : List WorldLabel} (hne : ∀ m, D.serde.toVec m ≠ [])
    (h : ((world D).guard fun W l => W.tears l = false ∧ W.writes D l = true ∧ calm l = true).run .init ls =
      some W)
    (hback : W.ReadsBack D.serde f) (hpc : W.client.pc = .exited (.ok ())) :
    ∃ ws, W.client.db.table = stored D.cfg D.peers ws ∧ Merge (W.links.map fun L => windows L.got) ws ∧
      ∀ L ∈ W.links, startAck ∈ L.got →
        windows L.got = windows (L.session.sent.map fun x => x.msg.back f) := by
  obtain ⟨hok, ks, r, hks, hm⟩ := simulates False (G := fun k => calm (.client k))
    (fun W l hl => ⟨hl.1, .inr hl.2.1, fun k hk => by rw [hk] at hl; exact hl.2.2⟩)
    (fun k hk => by
      cases k with
      | db | readErr | drainTimeout => cases hk
      | _ => rfl) hne h hback
  have hcounted : W.Counted False :=
    Machine.guard_invariant (fun hi hg hs => hi.step hs (.inr (calm_cuts hg.2.2))) h World.init_counted
  have hsessions : W.Kept :=
    Machine.guard_invariant (fun hi hg hs => hi.step hg.2.1 hs) h World.init_kept
  obtain ⟨hstored, hmerged, hpatient⟩ := Machine.guard_invariant
    (I := fun s : Run => s.Stored D.cfg D.peers ∧ s.Merged ∧ s.Patient)
    (fun hi hg hs => ⟨hi.1.step (calm_client hg).1 hs, hi.2.1.step hi.1 hs, hi.2.2.step (calm_client hg).2 hs⟩) hks
    ⟨Run.init_stored, Run.init_merged, Run.init_patient⟩
  have hpc' : r.pc = .exited (.ok ()) := by rw [hm.main]; exact hpc
  obtain ⟨htable, hmerge⟩ := stored_merged hstored hmerged hpc'
  have hdb : r.db = W.client.db := by rw [hm.main]
  refine ⟨r.passed, by rw [← hdb]; exact htable, by rw [← hm.inserted hcounted]; exact hmerge, fun L hL hack => ?_⟩
  obtain ⟨i, hi⟩ := List.mem_iff_getElem?.mp hL
  have hlt : i < W.client.conns.length := hcounted.length ▸ (List.getElem?_eq_some_iff.mp hi).1
  obtain ⟨c, a, hc, ha⟩ := hm.conn hlt
  -- no reader is left and none is aborted, so this one has ended
  have hdead := hstored.quiet (by rw [hpc']; rfl) a (List.mem_of_getElem? ha)
  have hended : c.reader.ended.isSome = true := by
    rw [← (hm.twins i L c a hi hc ha).reader]
    simpa [Conn.live, hpatient.conns a (List.mem_of_getElem? ha), Option.isNone_iff_eq_none,
      Option.isSome_iff_ne_none] using hdead
  have hkept := hsessions L hL
  refine Link.heard (hok.links L hL) hkept.served hkept.ordered (hok.asks hL) ?_
  rcases (hcounted.heard i L c hi hc).ended hended with hstop | ⟨pre, message, hgot, hno⟩ | hcut
  · exact hstop
  · rw [hgot] at hack
    simp [startAck] at hack
    exact absurd hack hno
  · exact hcut.elim

theorem table_complete_whole :
    ∃ W ws, (world pairSetup).run .init wholeRun = some W ∧ W.client.db.table = stored pairsConfig emptyPeers ws ∧
      ∀ L ∈ W.links, windows L.got = windows (L.session.sent.map fun x => x.msg.back id) := by
  obtain ⟨W, hW, hback, hpc, hgot⟩ := wholeRun_ends
  obtain ⟨ws, htable, -, hall⟩ := table_complete pairJson_ne_nil hW hback hpc
  refine ⟨W, ws, Machine.run_of_guard hW, htable, fun L hL => hall L hL ?_⟩
  have hmem : L.got ∈ [[startAck, .metrics sampleWindow, stopAck], [startAck, stopAck]] :=
    hgot ▸ List.mem_map_of_mem hL
  simp only [List.mem_cons, List.not_mem_nil, or_false] at hmem
  rcases hmem with hmem | hmem <;> rw [hmem] <;> exact List.mem_cons_self

end Tperf.Control

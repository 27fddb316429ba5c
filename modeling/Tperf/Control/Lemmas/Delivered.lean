import Tperf.Control.Lemmas.Heard
import Tperf.Server.Lemmas.LastStop

/-!
# The windows of a server that has been heard to the end
-/

namespace Tperf.Client
open Lib Proto

variable {cfg : Config} {J : Db.PeersJson} {s t : Run} {l : RunLabel}

/-- The readers are aborted only when they have not ended in time. -/
theorem aborting_pc (hs : (run cfg J).step s l = some t) (ht : t.pc = .aborting) :
    l = .drainTimeout ∨ s.pc = .aborting := by
  cases l with
  | drainTimeout => exact .inl rfl
  | cancel | serve _ | reply _ _ | send _ _ | read _ | readErr _ | db _ =>
      exact .inr ((elsewhere_pc rfl hs).symm.trans ht)
  | poll expired =>
      simp only [run] at hs
      split at hs <;> cases hs
      rename_i hpc
      unfold Run.poll at ht
      split at ht
      · split at ht
        · cases ht
        · split at ht
          · cases ht
          · rw [hpc] at ht; cases ht
      · cases ht
  | main =>
      simp only [run, Run.main] at hs
      split at hs
      · split at hs
        · cases hs
        · split at hs <;> cases hs <;> cases ht
      · split at hs
        · cases hs; cases ht
        · split at hs <;> cases hs
          · exact .inr ht
          · cases ht
      · split at hs
        · cases hs
        · split at hs <;> cases hs <;> cases ht
      · split at hs <;> cases hs; cases ht
      · split at hs <;> cases hs; cases ht
      · split at hs <;> cases hs; cases ht
      · cases hs; cases ht
      · cases hs; cases ht
      · obtain ⟨r, -, rfl⟩ := Option.map_eq_some_iff.mp hs; cases ht
      · cases hs; cases ht
      all_goals cases hs
  | sendStartErr e =>
      simp only [run] at hs
      split at hs
      · obtain ⟨c, -, rfl⟩ := Option.map_eq_some_iff.mp hs; cases ht
      · cases hs
  | sendStart | sendStop =>
      simp only [run] at hs
      split at hs
      · split at hs <;> cases hs; cases ht
      · cases hs
  | connect =>
      simp only [run] at hs
      split at hs <;> cases hs
      rename_i hpc _
      rw [show s.pc = .aborting from ht] at hpc
      cases hpc
  | connectErr _ | slept =>
      simp only [run] at hs
      split at hs <;> cases hs
      cases ht

/-- No reader is aborted. -/
structure Run.Patient (s : Run) : Prop where
  pc : s.pc ≠ .aborting
  conns : ∀ c ∈ s.conns, c.aborted = false

theorem Run.init_patient : Run.init.Patient := ⟨by simp [Run.init], by simp [Run.init]⟩

theorem Run.Patient.step (h : s.Patient) (hl : l ≠ .drainTimeout) (hs : (run cfg J).step s l = some t) :
    t.Patient where
  pc ht := (aborting_pc hs ht).elim hl h.pc
  conns := by
    cases steps hs with
    | abort hpc => exact absurd hpc h.pc
    | connect =>
        intro c hc
        rcases List.mem_append.mp hc with hc | hc
        · exact h.conns c hc
        · rw [List.mem_singleton.mp hc]
          rfl
    | start => exact forall_modify h.conns fun c hc => h.conns c (List.mem_of_getElem? hc)
    | @serve i c c' hc hserve =>
        refine forall_modify h.conns fun _ _ => ?_
        have hold := h.conns c (List.mem_of_getElem? hc)
        unfold Conn.serve at hserve
        split at hserve <;> cases hserve
        exact hold
    | @reply i r c c' hc hreply =>
        refine forall_modify h.conns fun _ _ => ?_
        have hold := h.conns c (List.mem_of_getElem? hc)
        unfold Conn.reply at hreply
        split at hreply
        · cases hreply
        · split at hreply <;> cases hreply <;> exact hold
    | send => exact forall_modify h.conns fun c hc => h.conns c (List.mem_of_getElem? hc)
    | readErr =>
        refine forall_modify h.conns fun c hc => ?_
        split
        · exact h.conns c (List.mem_of_getElem? hc)
        · exact h.conns c (List.mem_of_getElem? hc)
    | read =>
        rw [Run.effect_conns]
        exact forall_modify h.conns fun c hc => h.conns c (List.mem_of_getElem? hc)
    | _ => exact h.conns

end Tperf.Client

namespace Tperf.Control
open Lib Proto Client Server

variable {D : Setup} {f : MetricWindow → MetricWindow} {W W' : World} {L : Link}

theorem Plan.asks {s : Run} {i : Nat} {ms stops : List Msg} (h : Plan D s i L ms stops) : Asks L.written := by
  refine ⟨ms, h.allStarts, ?_⟩
  rw [h.written]
  rcases h.last with rfl | rfl
  · exact .inl (List.append_nil ms)
  · exact .inr rfl

theorem World.Ok.asks (h : W.Ok D f) (hL : L ∈ W.links) : Asks L.session.requests := by
  obtain ⟨i, hi⟩ := List.mem_iff_getElem?.mp hL
  obtain ⟨ms, stops, hplan⟩ := h.plan i L hi
  have hpre := (h.links L hL).requests.first
  rw [List.map_id] at hpre
  exact asks_prefix hplan.asks hpre

theorem windows_back {sent : List Sent} (h : ∀ k w, .metrics k w ∉ sent) :
    windows (sent.map fun x => x.msg.back f) = [] := by
  simp only [windows, List.filterMap_map, List.filterMap_eq_nil_iff, Function.comp_apply]
  intro x hx
  cases x with
  | metrics k w => exact absurd hx (h k w)
  | reply r => cases r <;> rfl

theorem back_stopAck {x : Sent} (h : x.msg.back f = stopAck) : x = .reply .stopped := by
  cases x with
  | metrics k w => simp [Sent.msg, Msg.back, stopAck] at h
  | reply r => cases r <;> simp_all [Sent.msg, Reply.msg, Msg.back, stopAck]

/-- When the answer to the stop has been read, so have all windows. -/
theorem Link.heard (h : L.Ok D.serde f) (hserved : L.session.Served) (hord : L.session.Ordered)
    (hasks : Asks L.session.requests) (hstop : stopAck ∈ L.got) :
    windows L.got = windows (L.session.sent.map fun x => x.msg.back f) := by
  obtain ⟨rest, hrest⟩ := h.got.first
  obtain ⟨pre, post, hgot⟩ := List.append_of_mem hstop
  have hsent : (L.session.sent.map fun x => x.msg.back f) = pre ++ stopAck :: (post ++ rest) := by
    rw [← hrest, hgot, List.append_assoc, List.cons_append]
  obtain ⟨pre', xs, hxs, -, hx⟩ := List.map_eq_append_iff.mp hsent
  obtain ⟨x, post', rfl, hstopped, hpost⟩ := List.map_eq_cons_iff.mp hx
  rw [back_stopAck hstopped] at hxs
  have hnone := windows_back (f := f) (hord.after_stop hserved hasks hxs)
  rw [hpost, windows_append] at hnone
  rw [← hrest, windows_append, (List.append_eq_nil_iff.mp hnone).2, List.append_nil]

theorem world_length (h : W.links.length = W.client.conns.length) {l : WorldLabel}
    (hs : (world D).step W l = some W') : W'.links.length = W'.client.conns.length := by
  cases World.steps hs with
  | client hown hstep => rw [own_length hown hstep, List.length_append, h]
  | write hw _ hstep =>
      rw [World.onLink, List.length_modify]
      exact h.trans (hw.sent hstep).2.1.symm
  | tear hw hstep =>
      rw [World.onLink, List.length_modify, (hw.torn hstep).1]
      exact h
  | server => rw [World.onLink, List.length_modify]; exact h
  | read _ _ hrecv =>
      obtain ⟨c, -, -, -, rfl⟩ := receive_some hrecv
      rw [World.onLink, List.length_modify, Run.effect_conns, Run.onConn, List.length_modify]
      exact h

end Tperf.Control

import Tperf.Control.Lemmas.Refine
import Tperf.Server.Lemmas.Current

/-!
# Runs of the client and its servers
-/

namespace Tperf.Control
open Lib Proto Client Server

variable {D : Setup} {f : MetricWindow → MetricWindow} {lost : Prop} {W W' : World} {L L' : Link}

/-! ## The history of a connection grows -/

structure Link.Grows (L L' : Link) : Prop where
  sent : L.session.sent <+: L'.session.sent
  written : L.written <+: L'.written

theorem Link.grows_refl (L : Link) : L.Grows L := ⟨List.prefix_rfl, List.prefix_rfl⟩

theorem Link.tear_grows (J : SerdeJson) (m : Msg) (n : Nat) (L : Link) : L.Grows (L.tear J m n) := by
  rw [Link.tear]
  split <;> exact ⟨List.prefix_rfl, List.prefix_rfl⟩

theorem Link.Serves.grows {J : SerdeJson} {l : SessionLabel} (h : Link.Serves J L l L') : L.Grows L' where
  sent := Session.sent_step h.step
  written := h.same.2.1 ▸ List.prefix_rfl

theorem World.grows {l : WorldLabel} (hs : (world D).step W l = some W') {i : Nat} (hL : W.links[i]? = some L) :
    ∃ L', W'.links[i]? = some L' ∧ L.Grows L' := by
  have hmodify : ∀ {k g}, (∀ L₁, W.links[k]? = some L₁ → L₁.Grows (g L₁)) →
      ∃ L', (W.links.modify k g)[i]? = some L' ∧ L.Grows L' := by
    intro k g hg
    rw [List.getElem?_modify, hL]
    refine ⟨_, rfl, ?_⟩
    split
    · rename_i hki; subst hki; exact hg L hL
    · exact L.grows_refl
  cases World.steps hs with
  | client =>
      refine ⟨L, ?_, L.grows_refl⟩
      rw [List.getElem?_append_left (List.getElem?_eq_some_iff.mp hL).1, hL]
  | write => exact hmodify fun L₁ _ => ⟨List.prefix_rfl, List.prefix_append _ _⟩
  | tear => exact hmodify fun L₁ _ => L₁.tear_grows _ _ _
  | server hL₁ hserve =>
      refine hmodify fun L₂ hL₂ => ?_
      obtain rfl := Option.some.inj (hL₁.symm.trans hL₂)
      exact hserve.grows
  | read => exact hmodify fun L₁ _ => ⟨List.prefix_rfl, List.prefix_rfl⟩

theorem World.ReadsBack.of_step {l : WorldLabel} (hs : (world D).step W l = some W')
    (h : W'.ReadsBack D.serde f) : W.ReadsBack D.serde f := by
  intro L hL
  obtain ⟨i, hi⟩ := List.mem_iff_getElem?.mp hL
  obtain ⟨L', hL', hgrows⟩ := World.grows hs hi
  have hback := h L' (List.mem_of_getElem? hL')
  exact ⟨fun x hx => hback.down x (hgrows.sent.subset hx), fun m hm => hback.up m (hgrows.written.subset hm)⟩

/-- What every session keeps. -/
theorem World.sessions_step {I : Session → Prop} (hinit : I .init) (h : ∀ L ∈ W.links, I L.session)
    {l : WorldLabel} (hs : (world D).step W l = some W')
    (hserve : ∀ i k L s, l = .server i k → W.links[i]? = some L → I L.session →
      (Server.session D.serde).step L.session k = some s → I s) : ∀ L ∈ W'.links, I L.session := by
  have hL : ∀ {k} {L : Link}, W.links[k]? = some L → I L.session := fun hL => h _ (List.mem_of_getElem? hL)
  cases World.steps hs with
  | @client l =>
      intro L hL
      rcases List.mem_append.mp hL with hL | hL
      · exact h L hL
      · cases l <;> simp only [newLinks, List.mem_singleton, List.not_mem_nil] at hL
        subst hL
        exact hinit
  | write | read => exact forall_modify h fun L hL' => @hL _ L hL'
  | tear =>
      refine forall_modify h fun L hL' => ?_
      rw [Link.tear]
      split <;> exact @hL _ L hL'
  | @server i k L L' hL₁ hstep => exact forall_modify h fun _ _ => hserve i k L _ rfl hL₁ (hL hL₁) hstep.step

def World.Kept (W : World) : Prop := ∀ L ∈ W.links, L.session.Kept

theorem World.init_kept : World.init.Kept := by simp [World.Kept, World.init]

theorem World.Kept.step (h : W.Kept) {l : WorldLabel} (hw : W.writes D l = true)
    (hs : (world D).step W l = some W') : W'.Kept := by
  refine World.sessions_step Session.init_kept h hs fun i k L s hl hL hkept hstep => hkept.step ?_ hstep
  rw [hl] at hw
  simpa [World.writes, hL] using hw

/-! ## The refinement -/

variable {C : World → WorldLabel → Prop} [∀ W l, Decidable (C W l)] {G : RunLabel → Bool}

variable (lost) in
/-- What a run does that tears no frame, a run of the client with servers of its own does too. -/
theorem simulates (hC : ∀ W l, C W l → W.tears l = false ∧ (lost ∨ W.writes D l = true) ∧
      ∀ k, l = .client k → G k = true) (hG : ∀ k, Fine lost k → G k = true) (hne : ∀ m, D.serde.toVec m ≠ [])
    {ls : List WorldLabel} (h : ((world D).guard C).run .init ls = some W) (hback : W.ReadsBack D.serde f) :
    W.Ok D f ∧ ∃ ks r, ((run D.cfg D.peers).guard fun _ k => G k = true).run .init ks = some r ∧
      Matches f lost W r := by
  obtain ⟨ks, r, hks, hr⟩ := Machine.run_simulates
    (N := (run D.cfg D.peers).guard fun _ k => G k = true)
    (R := fun W r => W.ReadsBack D.serde f → W.Ok D f ∧ Matches f lost W r) (fun {W l W' r} hr hstep => by
      obtain ⟨hc, hstep⟩ := Machine.guard_step.mp hstep
      obtain ⟨htears, hwrites, hclient⟩ := hC W l hc
      by_cases hback : W'.ReadsBack D.serde f
      · obtain ⟨hok, hm⟩ := hr (hback.of_step hstep)
        have hok' := hok.step hne hback hstep htears
        obtain ⟨ks, r', hks, hm', hfine⟩ := hm.step hok hok' hne (hback.of_step hstep) hstep hwrites
        refine ⟨ks, r', Machine.run_guard (fun k hk => ?_) hks, fun _ => ⟨hok', hm'⟩⟩
        exact (hfine k hk).elim (hclient k) (hG k)
      · exact ⟨[], r, rfl, fun h => absurd h hback⟩) h fun _ => ⟨World.init_ok, init_matches⟩
  exact ⟨(hr hback).1, ks, r, hks, (hr hback).2⟩

end Tperf.Control

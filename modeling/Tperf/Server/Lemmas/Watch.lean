import Tperf.Lib.Modify
import Tperf.Server.Measured
import Tperf.Server.Theorems.Windows

/-!
# One counter as the windows show it
-/

namespace Tperf.Server
open Lib Metrics Proto

/-! ## One window -/

theorem entries_cons (m : Str) (names : List Str) (d : Snap) (deltas : List Snap) :
    (entries (m :: names) (d :: deltas)).filterMap id =
      (if d.active then [d.entry m] else []) ++ (entries names deltas).filterMap id := by
  cases hactive : d.active <;> simp [entries, hactive]

/-- Among hosts with different names the entries with one of the names are those of its host. -/
theorem entries_named {names : List Str} {deltas : List Snap} {j : Nat} {n : Str} (f : Field)
    (hnodup : names.Nodup) (hn : names[j]? = some n) :
    ((((entries names deltas).filterMap id).filter fun e => e.peer = n).map fun e => (f.ofPeer e).toNat).sum =
      ofRow f j (entries names deltas) := by
  induction names generalizing deltas j with
  | nil => cases hn
  | cons m names ih =>
      obtain ⟨hm, hnodup⟩ := List.nodup_cons.mp hnodup
      have hothers : ∀ e ∈ (entries names deltas.tail).filterMap id, e.peer ≠ m := by
        rintro e he rfl
        obtain ⟨o, ho, rfl⟩ := List.mem_filterMap.mp he
        obtain ⟨i, hi⟩ := List.mem_iff_getElem?.mp ho
        exact hm (List.mem_of_getElem? (entries_name hi))
      cases deltas with
      | nil => simp [entries, ofRow, Field.ofEntry]
      | cons d deltas =>
          cases j with
          | zero =>
              obtain rfl : m = n := Option.some.inj hn
              have hnone : ((entries names deltas).filterMap id).filter (fun e => e.peer = m) = [] := by
                simpa [List.filter_eq_nil_iff] using hothers
              have hget : (entries (m :: names) (d :: deltas))[0]? =
                  some (if d.active then some (d.entry m) else none) := rfl
              rw [entries_cons, List.filter_append, hnone, List.append_nil, ofRow, hget]
              cases d.active with
              | true => simp [Field.ofEntry, Snap.entry]
              | false => rfl
          | succ j =>
              have hn : names[j]? = some n := hn
              have hne : m ≠ n := by
                rintro rfl
                exact hm (List.mem_of_getElem? hn)
              have hhead : (if d.active then [d.entry m] else []).filter (fun e => e.peer = n) = [] := by
                cases d.active with
                | true => simp [Snap.entry, hne]
                | false => rfl
              rw [entries_cons, List.filter_append, hhead, List.nil_append]
              exact ih hnodup hn

theorem shownOf_window {s : MetricsLoop} {a b : Carry} {f : Field} {j : Nat} {n : Str}
    (hnodup : s.names.Nodup) (hn : s.names[j]? = some n) (ha : a.peers.length = s.names.length)
    (hb : b.peers.length = s.names.length) (hle : f.ofHost j a.peers ≤ f.ofHost j b.peers) :
    shownOf f n (s.window a b) + f.ofHost j a.peers = f.ofHost j b.peers := by
  have hj := (List.getElem?_eq_some_iff.mp hn).1
  have hx := List.getElem?_eq_getElem (l := a.peers) (i := j) (by omega)
  have hy := List.getElem?_eq_getElem (l := b.peers) (i := j) (by omega)
  have hzip : (a.peers.zip b.peers)[j]? = some (a.peers[j], b.peers[j]) :=
    List.getElem?_zip_eq_some.mpr ⟨hx, hy⟩
  have hd : (peerDeltas a b)[j]? = some (a.peers[j].delta b.peers[j]) := by
    rw [peerDeltas, List.getElem?_map, hzip, Option.map_some]
  rw [shownOf, window_peers, entries_named f hnodup hn, ofRow, entries_getElem? hn hd, Option.join_some,
    f.ofEntry_entry, f.ofSnap_delta, satSub_toNat]
  simp only [Field.ofHost, hx, hy, Option.map_some, Option.getD_some] at hle ⊢
  omega

/-! ## All windows -/

/-- The readings of a counter never go down, and are not above `v`. -/
structure MetricsLoop.Watches (s : MetricsLoop) (f : Field) (j v : Nat) : Prop where
  linked : ∀ k a b, s.carries[k]? = some a → s.carries[k + 1]? = some b →
    f.ofHost j a.peers ≤ f.ofHost j b.peers
  below : ∀ c ∈ s.carries, f.ofHost j c.peers ≤ v
  carry : f.ofHost j s.carry.peers ≤ v
  closing : ∀ m w tot peers, s.pc = .closeProc m w tot peers →
    f.ofHost j s.carry.peers ≤ f.ofHost j peers ∧ f.ofHost j peers ≤ v

namespace MetricsLoop

variable {s s' : MetricsLoop} {f : Field} {j v v' : Nat} {l : LoopLabel}

theorem init_watches (server : Str) (names : List Str) (clkTck : UInt64) :
    (init server names clkTck).Watches f j v where
  linked _ _ _ h := by simp [init] at h
  below := by simp [init]
  carry := Nat.zero_le v
  closing _ _ _ _ h := by cases h

/-- The counter grows. -/
theorem Watches.mono (h : s.Watches f j v) (hv : v ≤ v') : s.Watches f j v' where
  linked := h.linked
  below c hc := (h.below c hc).trans hv
  carry := h.carry.trans hv
  closing m w tot peers hpc := ⟨(h.closing m w tot peers hpc).1, (h.closing m w tot peers hpc).2.trans hv⟩

/-- A step of the loop, which reads the counter as it is. -/
theorem Watches.step (h : s.Watches f j v) (hinv : s.Inv) (hs : s.Steps l s')
    (hread : ∀ c, l = .snap c → f.ofHost j c.snapshotAll.2 = v) : s'.Watches f j v := by
  cases hs with
  | first hn hpc => exact ⟨h.linked, h.below, (hread _ rfl).le, fun _ _ _ _ he => by cases he⟩
  | firstReal hpc =>
      refine ⟨by simp, ?_, h.carry, fun _ _ _ _ he => by cases he⟩
      intro c hc
      obtain rfl := List.mem_singleton.mp hc
      exact h.carry
  | @wait l pc hpc hpc' =>
      refine ⟨h.linked, h.below, h.carry, fun m w tot peers he => ?_⟩
      simp only [goto] at he
      rw [he] at hpc'
      cases hpc'
  | closeSnap hn hpc =>
      refine ⟨h.linked, h.below, h.carry, ?_⟩
      intro m w tot peers he
      cases he
      rw [hread _ rfl]
      exact ⟨h.carry, Nat.le_refl v⟩
  | @emit p m w tot peers hpc =>
      obtain ⟨hle, hbelow⟩ := h.closing m w tot peers hpc
      refine ⟨?_, ?_, h.carry, fun _ _ _ _ he => by cases he⟩
      · intro k a b ha hb
        rcases hinv.neighbours (by rw [hpc]; rfl) ha hb with ⟨ha, hb⟩ | ⟨_, rfl, rfl⟩
        · exact h.linked k a b ha hb
        · exact hle
      · intro c hc
        rcases List.mem_append.mp hc with hc | hc
        · exact h.below c hc
        · obtain rfl := List.mem_singleton.mp hc
          exact hbelow
  | @wrote next hpc =>
      have hlast := (hinv.stands_at hpc).1
      exact ⟨h.linked, h.below, h.below next (List.mem_of_getElem? hlast), fun _ _ _ _ he => by cases he⟩
  | firstProc | firstMono | due | early | spinDue | spinEarly | again | stop | closeMono | closeReal =>
      exact ⟨h.linked, h.below, h.carry, fun _ _ _ _ he => by cases he⟩

/-- All windows together show no more than the counter. -/
theorem Watches.shown_le (h : s.Watches f j v) (hinv : s.Inv) {n : Str} (hnodup : s.names.Nodup)
    (hn : s.names[j]? = some n) : (s.emitted.map (shownOf f n)).sum ≤ v := by
  by_cases hnil : s.emitted = []
  · simp [hnil]
  · have hpos := List.length_pos_of_ne_nil hnil
    have hlen := hinv.length
    have h₀ := List.getElem?_eq_getElem (l := s.carries) (i := 0) (by omega)
    have hm := List.getElem?_eq_getElem (l := s.carries) (i := s.emitted.length) (by omega)
    have hsum := sum_take_add (g := shownOf f n) (F := fun c => f.ofHost j c.peers)
      (fun k a b _ ha hb => ⟨_, hinv.linked k a b ha hb,
        shownOf_window hnodup hn (hinv.sized a (List.mem_of_getElem? ha))
          (hinv.sized b (List.mem_of_getElem? hb)) (h.linked k a b ha hb)⟩) h₀ hm
    rw [List.take_length] at hsum
    have hbelow := h.below _ (List.mem_of_getElem? hm)
    omega

end MetricsLoop

/-! ## All hosts -/

section

variable {σ ι : Type} {M : Machine σ ι} {counters : σ → Nat → Option Counters}
  {I : σ → Prop} {fits : σ → Nat → Prop} {f : Field} {j : Nat}

/-- Each loop reads a counter that grows while it fits. -/
structure Measured.Ok (I : σ → Prop) (counters : σ → Nat → Option Counters) (fits : σ → Nat → Prop)
    (names : List Str) (f : Field) (j : Nat) (s : Measured σ) : Prop where
  fleet : I s.fleet
  loops : ∀ m ∈ s.loops, m.Inv ∧ m.names = names
  watches : ∀ (a : Nat) (c : Counters) (m : MetricsLoop), counters s.fleet a = some c →
    s.loops[a]? = some m → fits s.fleet a → m.Watches f j (f.ofHost j c.snapshotAll.2)

theorem Measured.Ok.init {S : Dataplane.Site} {fleet : σ} (h : I fleet) (clkTck : Nat → UInt64) :
    Measured.Ok I counters fits S.cfg.hostlist f j ⟨fleet, startLoops S clkTck⟩ where
  fleet := h
  loops := by
    intro m hm
    obtain ⟨a, -, rfl⟩ := List.mem_map.mp hm
    exact ⟨MetricsLoop.init_inv _ _ _, rfl⟩
  watches := by
    intro a c m _ hm _
    obtain ⟨a, -, rfl⟩ := List.mem_map.mp (List.mem_of_getElem? hm)
    exact MetricsLoop.init_watches _ _ _

theorem Measured.Ok.step {names : List Str} {s s' : Measured σ} {l : MeasuredLabel ι}
    (hkeep : ∀ {s l s'}, I s → M.step s l = some s' → I s')
    (hgrows : ∀ {s l s' a c'}, I s → M.step s l = some s' → counters s' a = some c' → fits s' a →
      fits s a ∧ ∃ c, counters s a = some c ∧ f.ofHost j c.snapshotAll.2 ≤ f.ofHost j c'.snapshotAll.2)
    (h : s.Ok I counters fits names f j) (hs : (measured M counters).step s l = some s') :
    s'.Ok I counters fits names f j := by
  cases l with
  | fleet l =>
      simp only [measured, Option.map_eq_some_iff] at hs
      obtain ⟨fleet, hl, rfl⟩ := hs
      refine ⟨hkeep h.fleet hl, h.loops, ?_⟩
      intro a c' m hc' hm hfits
      obtain ⟨hfits, c, hc, hle⟩ := hgrows h.fleet hl hc' hfits
      exact (h.watches a c m hc hm hfits).mono hle
  | metrics a l =>
      simp only [measured, Option.bind_eq_bind, Option.bind_eq_some_iff, Option.ite_none_right_eq_some,
        Option.some.injEq] at hs
      obtain ⟨c, hc, m, hm, m', hm', hlooks, rfl⟩ := hs
      have hsteps := loop_steps hm'
      obtain ⟨hinv, hnames⟩ := h.loops m (List.mem_of_getElem? hm)
      refine ⟨h.fleet, ?_, ?_⟩
      · intro m₁ hm₁
        rcases List.mem_or_eq_of_mem_set hm₁ with hm₁ | rfl
        · exact h.loops m₁ hm₁
        · exact ⟨hinv.step hsteps, hsteps.names.trans hnames⟩
      · intro b c₁ m₁ hc₁ hm₁ hfits
        obtain ⟨m₀, hm₀, rfl⟩ := get_of_set hm hm₁
        by_cases hab : a = b
        · subst hab
          obtain rfl : c = c₁ := Option.some.inj (hc.symm.trans hc₁)
          rw [if_pos rfl]
          apply (h.watches a c m hc hm hfits).step hinv hsteps
          rintro c' rfl
          obtain rfl : c' = c := of_decide_eq_true hlooks
          rfl
        · rw [if_neg hab]
          exact h.watches b c₁ m₀ hc₁ hm₀ hfits

/-- The windows of a host show no more than its counter. -/
theorem measured_shown_le (I : σ → Prop) (fits : σ → Nat → Prop) {S : Dataplane.Site} {fleet : σ}
    {clkTck : Nat → UInt64} {s : Measured σ} {ls : List (MeasuredLabel ι)}
    (hkeep : ∀ {s l s'}, I s → M.step s l = some s' → I s')
    (hgrows : ∀ {s l s' a c'}, I s → M.step s l = some s' → counters s' a = some c' → fits s' a →
      fits s a ∧ ∃ c, counters s a = some c ∧ f.ofHost j c.snapshotAll.2 ≤ f.ofHost j c'.snapshotAll.2)
    (hinit : I fleet) (h : (measured M counters).run ⟨fleet, startLoops S clkTck⟩ ls = some s)
    (hnodup : S.cfg.hostlist.Nodup) {a : Nat} {c : Counters} {m : MetricsLoop} {n : Str}
    (hc : counters s.fleet a = some c) (hm : s.loops[a]? = some m) (hfits : fits s.fleet a)
    (hn : S.cfg.hostlist[j]? = some n) : (m.emitted.map (shownOf f n)).sum ≤ f.ofHost j c.snapshotAll.2 := by
  have hok : s.Ok I counters fits S.cfg.hostlist f j :=
    Machine.run_invariant (I := Measured.Ok I counters fits S.cfg.hostlist f j)
      (fun hok hs => hok.step hkeep hgrows hs) h (.init hinit clkTck)
  obtain ⟨hinv, hnames⟩ := hok.loops m (List.mem_of_getElem? hm)
  exact (hok.watches a c m hc hm hfits).shown_le hinv (hnames ▸ hnodup) (hnames ▸ hn)

/-- The fleet of a measured run. -/
theorem measured_fleet {s s' : Measured σ} {ls : List (MeasuredLabel ι)}
    (hkeep : ∀ {s l s'}, I s → M.step s l = some s' → I s') (h : (measured M counters).run s ls = some s')
    (hI : I s.fleet) : I s'.fleet := by
  apply Machine.run_invariant (I := fun s : Measured σ => I s.fleet) ?_ h hI
  intro s l s' hs hl
  cases l with
  | fleet l =>
      simp only [measured, Option.map_eq_some_iff] at hl
      obtain ⟨fleet, hl, rfl⟩ := hl
      exact hkeep hs hl
  | metrics a l =>
      simp only [measured, Option.bind_eq_bind, Option.bind_eq_some_iff, Option.ite_none_right_eq_some,
        Option.some.injEq] at hl
      obtain ⟨_, -, _, -, _, -, -, rfl⟩ := hl
      exact hs

end

end Tperf.Server

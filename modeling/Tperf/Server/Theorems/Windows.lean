import Tperf.Lib.Telescope
import Tperf.Metrics.Fields
import Tperf.Server.Lemmas.MetricsLoop

/-!
# What the windows of a test add up to
-/

namespace Tperf.Server
open Lib Metrics Proto

variable {s s' : MetricsLoop} {l : LoopLabel}

/-! ## Counters that never decrease -/

/-- The counters read at the end of a window are not below those the loop carries. -/
def growing (s : MetricsLoop) : LoopLabel → Bool
  | .snap c =>
      match s.pc with
      | .closeSnap _ _ =>
          s.carry.total.le c.snapshotAll.1 &&
            (s.carry.peers.zip c.snapshotAll.2).all fun p => p.1.le p.2
      | _ => true
  | _ => true

def growingLoop : Machine MetricsLoop LoopLabel := metricsLoop.guard fun s l => growing s l = true

structure Grows (total : Snap) (peers : List Snap) (total' : Snap) (peers' : List Snap) : Prop where
  total : total.le total' = true
  peers : ∀ p ∈ peers.zip peers', p.1.le p.2 = true

/-- Neighbours in `carries` grow, and what is read for the open window grows. -/
structure MetricsLoop.Growing (s : MetricsLoop) : Prop where
  inv : s.Inv
  linked : ∀ k a b, s.carries[k]? = some a → s.carries[k + 1]? = some b →
    Grows a.total a.peers b.total b.peers
  closing : ∀ m w tot peers, s.pc = .closeProc m w tot peers →
    Grows s.carry.total s.carry.peers tot peers

theorem MetricsLoop.init_growing (server : Str) (names : List Str) (clkTck : UInt64) :
    (init server names clkTck).Growing where
  inv := init_inv server names clkTck
  linked _ _ _ h := by simp [init] at h
  closing _ _ _ _ h := by cases h

theorem MetricsLoop.Growing.step (h : s.Growing) (hg : growing s l = true)
    (hs : metricsLoop.step s l = some s') : s'.Growing := by
  have hst := loop_steps hs
  have hinv := h.inv.step hst
  cases hst with
  | first => exact ⟨hinv, h.linked, fun _ _ _ _ he => by cases he⟩
  | firstProc => exact ⟨hinv, h.linked, fun _ _ _ _ he => by cases he⟩
  | firstMono => exact ⟨hinv, h.linked, fun _ _ _ _ he => by cases he⟩
  | firstReal => exact ⟨hinv, by simp, fun _ _ _ _ he => by cases he⟩
  | due => exact ⟨hinv, h.linked, fun _ _ _ _ he => by cases he⟩
  | early => exact ⟨hinv, h.linked, fun _ _ _ _ he => by cases he⟩
  | spinDue => exact ⟨hinv, h.linked, fun _ _ _ _ he => by cases he⟩
  | spinEarly => exact ⟨hinv, h.linked, fun _ _ _ _ he => by cases he⟩
  | @wait l pc hpc hpc' =>
      refine ⟨hinv, h.linked, fun _ _ _ _ he => ?_⟩
      simp only [goto] at he
      rw [he] at hpc'
      cases hpc'
  | again => exact ⟨hinv, h.linked, fun _ _ _ _ he => by cases he⟩
  | stop => exact ⟨hinv, h.linked, fun _ _ _ _ he => by cases he⟩
  | closeMono => exact ⟨hinv, h.linked, fun _ _ _ _ he => by cases he⟩
  | closeReal => exact ⟨hinv, h.linked, fun _ _ _ _ he => by cases he⟩
  | closeSnap hn hpc =>
      refine ⟨hinv, h.linked, fun m w tot peers he => ?_⟩
      cases he
      simp only [growing, hpc, Bool.and_eq_true, List.all_eq_true] at hg
      exact ⟨hg.1, hg.2⟩
  | @emit p m w tot peers hpc =>
      refine ⟨hinv, fun k a b ha hb => ?_, fun _ _ _ _ he => by cases he⟩
      rcases h.inv.neighbours (by rw [hpc]; rfl) ha hb with ⟨ha, hb⟩ | ⟨_, rfl, rfl⟩
      · exact h.linked k a b ha hb
      · exact h.closing m w tot peers hpc
  | wrote => exact ⟨hinv, h.linked, fun _ _ _ _ he => by cases he⟩

theorem growingLoop_inv {server : Str} {names : List Str} {clkTck : UInt64} {ls : List LoopLabel}
    (h : growingLoop.run (.init server names clkTck) ls = some s) : s.Growing ∧ s.names = names :=
  Machine.guard_invariant (I := fun s : MetricsLoop => s.Growing ∧ s.names = names)
    (fun hi hg hs => ⟨hi.1.step hg hs, (loop_steps hs).names.trans hi.2⟩) h
    ⟨MetricsLoop.init_growing server names clkTck, rfl⟩

/-! ## One window -/

/-- The deltas that the window between `a` and `b` shows for the hosts. -/
def peerDeltas (a b : Carry) : List Snap := (a.peers.zip b.peers).map fun p => p.1.delta p.2

theorem ofWindow_window (f : Field) (s : MetricsLoop) (a b : Carry) :
    f.ofWindow (s.window a b) = f.ofSnap (a.total.delta b.total) := by
  cases f <;> rfl

theorem window_peers (s : MetricsLoop) (a b : Carry) :
    (s.window a b).peers = (entries s.names (peerDeltas a b)).filterMap id :=
  buildWindow_peers _ _ _ _ _ _ _ _ _

theorem durationNs_toNat (a b : Carry) :
    (MetricsLoop.durationNs a b).toNat = max (b.mono.toNat - a.mono.toNat) 1 := by
  rw [MetricsLoop.durationNs, UInt64.toNat_max, satSub_toNat, UInt64.toNat_one]

theorem Grows.window (s : MetricsLoop) {a b : Carry} (h : Grows a.total a.peers b.total b.peers)
    (f : Field) :
    (f.ofWindow (s.window a b)).toNat + (f.ofSnap a.total).toNat = (f.ofSnap b.total).toNat := by
  rw [ofWindow_window, f.delta_add h.total]

/-- The value of a field for the host `j`. -/
def Carry.host (c : Carry) (f : Field) (j : Nat) : Nat :=
  (c.peers[j]?.map fun x => (f.ofSnap x).toNat).getD 0

/-- The field of the host `j` in a row of entries. -/
def ofRow (f : Field) (j : Nat) (row : List (Option PeerMetrics)) : Nat := f.ofEntry row[j]?.join

theorem Grows.row {a b : Carry} (h : Grows a.total a.peers b.total b.peers) {names : List Str}
    (ha : a.peers.length = names.length) (hb : b.peers.length = names.length) (f : Field) (j : Nat) :
    ofRow f j (entries names (peerDeltas a b)) + a.host f j = b.host f j := by
  rcases Nat.lt_or_ge j names.length with hj | hj
  · have hn := List.getElem?_eq_getElem hj
    have hx := List.getElem?_eq_getElem (l := a.peers) (i := j) (by omega)
    have hy := List.getElem?_eq_getElem (l := b.peers) (i := j) (by omega)
    have hzip : (a.peers.zip b.peers)[j]? = some (a.peers[j], b.peers[j]) :=
      List.getElem?_zip_eq_some.mpr ⟨hx, hy⟩
    have hd : (peerDeltas a b)[j]? = some (a.peers[j].delta b.peers[j]) := by
      rw [peerDeltas, List.getElem?_map, hzip, Option.map_some]
    rw [ofRow, entries_getElem? hn hd, Option.join_some, f.ofEntry_entry, Carry.host, Carry.host, hx, hy]
    exact f.delta_add (h.peers _ (List.mem_of_getElem? hzip))
  · have hrow : (entries names (peerDeltas a b))[j]? = none := by
      rw [List.getElem?_eq_none_iff, entries, List.length_zipWith]
      omega
    have hx : a.peers[j]? = none := List.getElem?_eq_none_iff.mpr (by omega)
    have hy : b.peers[j]? = none := List.getElem?_eq_none_iff.mpr (by omega)
    rw [ofRow, hrow, Carry.host, Carry.host, hx, hy]
    rfl

theorem peerDeltas_length {a b : Carry} {n : Nat} (ha : a.peers.length = n) (hb : b.peers.length = n) :
    (peerDeltas a b).length = n := by
  rw [peerDeltas, List.length_map, List.length_zip, ha, hb, Nat.min_self]

/-! ## What is read -/

/-- The counters that a call has read. -/
def LoopLabel.read : LoopLabel → List Counters
  | .snap c => [c]
  | _ => []

/-- The snapshot that the loop has taken and that closes no window yet. -/
def MetricsLoop.pending (s : MetricsLoop) : List (Snap × List Snap) :=
  match s.pc with
  | .startProc | .startMono | .startReal => [(s.carry.total, s.carry.peers)]
  | .closeProc _ _ tot peers => [(tot, peers)]
  | _ => []

/-- The snapshots that the loop has taken, in order. -/
def MetricsLoop.snapshots (s : MetricsLoop) : List (Snap × List Snap) :=
  (s.carries.map fun c => (c.total, c.peers)) ++ s.pending

theorem MetricsLoop.Inv.snapshots_step (h : s.Inv) (hs : metricsLoop.step s l = some s') :
    s'.snapshots = s.snapshots ++ l.read.map Counters.snapshotAll := by
  have hstarting : s.pc.phase = .starting → s.carries = [] := by
    intro hp
    have hst := h.stands
    rw [hp] at hst
    exact hst.1
  cases l with
  | snap c =>
      dsimp only [metricsLoop] at hs
      by_cases hn : c.names = s.names
      · simp only [hn, ne_eq, not_true_eq_false, if_false] at hs
        cases hpc : s.pc <;> simp only [hpc, reduceCtorEq, Option.some.injEq] at hs <;> subst hs <;>
          simp [snapshots, pending, goto, hpc, LoopLabel.read]
      · simp [hn] at hs
  | proc p =>
      dsimp only [metricsLoop] at hs
      cases hpc : s.pc <;> simp only [hpc, reduceCtorEq, Option.some.injEq] at hs <;> subst hs <;>
        simp [snapshots, pending, MetricsLoop.emit, hpc, LoopLabel.read]
  | mono t =>
      dsimp only [metricsLoop] at hs
      cases hpc : s.pc <;> simp only [hpc, reduceCtorEq, Option.some.injEq] at hs <;> subst hs
      · simp [snapshots, pending, hpc, LoopLabel.read]
      · by_cases ht : t ≥ s.deadline
        · rw [if_pos ht]
          simp [snapshots, pending, hpc, LoopLabel.read]
        · rw [if_neg ht]
          simp [snapshots, pending, hpc, LoopLabel.read]
      · by_cases ht : t < s.deadline
        · rw [if_pos ht]
          simp [snapshots, pending, hpc, LoopLabel.read]
        · rw [if_neg ht]
          simp [snapshots, pending, hpc, LoopLabel.read]
      · simp [snapshots, pending, hpc, LoopLabel.read]
  | real t =>
      dsimp only [metricsLoop] at hs
      cases hpc : s.pc <;> simp only [hpc, reduceCtorEq, Option.some.injEq] at hs <;> subst hs
      · simp [snapshots, pending, hpc, hstarting (by rw [hpc]; rfl), LoopLabel.read]
      · simp [snapshots, pending, goto, hpc, LoopLabel.read]
  | cancelled b =>
      dsimp only [metricsLoop] at hs
      cases b with
      | true =>
          cases hpc : s.pc <;> simp only [hpc, if_true, reduceCtorEq, Option.some.injEq] at hs <;> subst hs <;>
            simp [snapshots, pending, goto, hpc, LoopLabel.read]
      | false =>
          cases hpc : s.pc <;>
            simp only [hpc, Bool.false_eq_true, if_false, reduceCtorEq, Option.some.injEq] at hs <;> subst hs
          · rename_i now
            by_cases hr : s.deadline - now > windowSpinNs
            · rw [if_pos hr]
              simp [snapshots, pending, goto, hpc, LoopLabel.read]
            · rw [if_neg hr]
              simp [snapshots, pending, goto, hpc, LoopLabel.read]
          · simp [snapshots, pending, goto, hpc, LoopLabel.read]
          · simp [snapshots, pending, goto, hpc, LoopLabel.read]
  | wake b =>
      dsimp only [metricsLoop] at hs
      cases hpc : s.pc <;> simp only [hpc, reduceCtorEq, Option.some.injEq] at hs
      subst hs
      cases b <;> simp [snapshots, pending, goto, hpc, LoopLabel.read]
  | wrote =>
      dsimp only [metricsLoop] at hs
      cases hpc : s.pc <;> simp only [hpc, reduceCtorEq, Option.some.injEq] at hs
      subst hs
      simp [snapshots, pending, hpc, LoopLabel.read]
  | abort =>
      dsimp only [metricsLoop] at hs
      cases hpc : s.pc <;> simp only [hpc, reduceCtorEq, Option.some.injEq] at hs <;> subst hs <;>
        simp [snapshots, pending, goto, hpc, LoopLabel.read]

theorem MetricsLoop.snapshots_run {server : Str} {names : List Str} {clkTck : UInt64} {ls : List LoopLabel}
    (h : metricsLoop.run (.init server names clkTck) ls = some s) :
    s.snapshots = (ls.flatMap LoopLabel.read).map Counters.snapshotAll := by
  have hrun : s.Inv ∧ s.snapshots = (([] ++ ls).flatMap LoopLabel.read).map Counters.snapshotAll := by
    refine Machine.run_history (I := fun ks (s : MetricsLoop) => s.Inv ∧
      s.snapshots = (ks.flatMap LoopLabel.read).map Counters.snapshotAll) ?_ h ⟨init_inv server names clkTck, rfl⟩
    intro ks s l t hi hs
    refine ⟨hi.1.step (loop_steps hs), ?_⟩
    rw [hi.1.snapshots_step hs, hi.2, List.flatMap_append, List.flatMap_singleton, List.map_append]
  exact hrun.2

/-! ## All windows -/

/-- For each emitted window the entries of all hosts. -/
def MetricsLoop.rows (s : MetricsLoop) : List (List (Option PeerMetrics)) :=
  (s.carries.zip s.carries.tail).map fun p => entries s.names (peerDeltas p.1 p.2)

theorem MetricsLoop.rows_getElem? {k : Nat} {a b : Carry} (ha : s.carries[k]? = some a)
    (hb : s.carries[k + 1]? = some b) : s.rows[k]? = some (entries s.names (peerDeltas a b)) := by
  have hzip : (s.carries.zip s.carries.tail)[k]? = some (a, b) :=
    List.getElem?_zip_eq_some.mpr ⟨ha, by rw [List.getElem?_tail]; exact hb⟩
  rw [rows, List.getElem?_map, hzip, Option.map_some]

/-- What the windows of a test add up to, while no counter decreases. What the loop carries are the snapshots it
has taken, one after the other; the windows show, in total and for each host, what the counters have grown by
between the first and the last, and neither a gap nor an overlap lies between two of them. -/
theorem windows_account {server : Str} {names : List Str} {clkTck : UInt64} {ls : List LoopLabel}
    (h : growingLoop.run (.init server names clkTck) ls = some s) :
    (s.carries.map fun c => (c.total, c.peers)) <+: (ls.flatMap LoopLabel.read).map Counters.snapshotAll ∧
    (s.emitted ≠ [] → s.carries.length = s.emitted.length + 1) ∧
    (∀ (m : Nat) (c₀ c : Carry), s.carries[0]? = some c₀ → s.carries[m]? = some c → ∀ f : Field,
      ((s.emitted.take m).map fun w => (f.ofWindow w).toNat).sum + (f.ofSnap c₀.total).toNat =
        (f.ofSnap c.total).toNat) ∧
    (∃ rows : List (List (Option PeerMetrics)),
      (∀ (k : Nat) (w : MetricWindow), s.emitted[k]? = some w →
        ∃ row : List (Option PeerMetrics), rows[k]? = some row ∧ row.length = names.length ∧
          w.peers = row.filterMap id ∧
          ∀ (j : Nat) (e : PeerMetrics), row[j]? = some (some e) → names[j]? = some e.peer) ∧
      ∀ (m : Nat) (c₀ c : Carry), s.carries[0]? = some c₀ → s.carries[m]? = some c →
        ∀ (f : Field) (j : Nat), ((rows.take m).map (ofRow f j)).sum + c₀.host f j = c.host f j) ∧
    (∀ (k : Nat) (v w : MetricWindow), s.emitted[k]? = some v → s.emitted[k + 1]? = some w →
      w.wallStartNs = v.wallEndNs) ∧
    (∀ (m : Nat) (c : Carry), s.carries[m]? = some c →
      (∀ (k : Nat) (a b : Carry), k < m → s.carries[k]? = some a → s.carries[k + 1]? = some b → a.mono < b.mono) →
      ((s.emitted.take m).map fun w => w.durationNs.toNat).sum + s.origin.toNat = c.mono.toNat) := by
  obtain ⟨hg, hnames⟩ := growingLoop_inv h
  have hi := hg.inv
  refine ⟨?_, ?_, ?_, ⟨s.rows, ?_, ?_⟩, ?_, ?_⟩
  · rw [← MetricsLoop.snapshots_run (Machine.run_of_guard h)]
    exact List.prefix_append _ _
  · intro hne
    have := List.length_pos_of_ne_nil hne
    have := hi.length
    omega
  · intro m c₀ c h₀ hm f
    refine sum_take_add (F := fun c => (f.ofSnap c.total).toNat) (fun k a b _ ha hb => ?_) h₀ hm
    exact ⟨_, hi.linked k a b ha hb, (hg.linked k a b ha hb).window s f⟩
  · intro k w hw
    obtain ⟨a, b, ha, hb, rfl⟩ := hi.window_of hw
    have hsa := hi.sized a (List.mem_of_getElem? ha)
    have hsb := hi.sized b (List.mem_of_getElem? hb)
    refine ⟨_, MetricsLoop.rows_getElem? ha hb, ?_, window_peers s a b, fun j e he => ?_⟩
    · rw [entries_length (peerDeltas_length hsa hsb), hnames]
    · rw [← hnames]; exact entries_name he
  · intro m c₀ c h₀ hm f j
    refine sum_take_add (F := fun c => c.host f j) (fun k a b _ ha hb => ?_) h₀ hm
    exact ⟨_, MetricsLoop.rows_getElem? ha hb, (hg.linked k a b ha hb).row
      (hi.sized a (List.mem_of_getElem? ha)) (hi.sized b (List.mem_of_getElem? hb)) f j⟩
  · intro k v w hv hw
    obtain ⟨a, b, _, hb, rfl⟩ := hi.window_of hv
    obtain ⟨b', c, hb', _, rfl⟩ := hi.window_of hw
    obtain rfl : b = b' := Option.some.inj (hb.symm.trans hb')
    rfl
  · intro m c hm hlt
    have hpos : 0 < s.carries.length := by
      have := (List.getElem?_eq_some_iff.mp hm).1
      omega
    have h₀ := List.getElem?_eq_getElem hpos
    have hstep : ∀ k a b, k < m → s.carries[k]? = some a → s.carries[k + 1]? = some b →
        ∃ w, s.emitted[k]? = some w ∧ w.durationNs.toNat + a.mono.toNat = b.mono.toNat := by
      intro k a b hk ha hb
      have hdur : (s.window a b).durationNs.toNat = _ := durationNs_toNat a b
      have hab : a.mono.toNat < b.mono.toNat := hlt k a b hk ha hb
      exact ⟨_, hi.linked k a b ha hb, by omega⟩
    have hsum := sum_take_add (g := fun w : MetricWindow => w.durationNs.toNat)
      (F := fun c : Carry => c.mono.toNat) hstep h₀ hm
    rw [hi.origin _ h₀] at hsum
    exact hsum

/-! ### A short run -/

/-- The loop starts at `t`. -/
def opening (t : UInt64) (c : Counters) : List LoopLabel := [.snap c, .proc none, .mono t, .real t]

/-- A window that is due when its wait begins, at `t`. -/
def dueWindow (t : UInt64) (c : Counters) : List LoopLabel :=
  [.mono t, .mono t, .real t, .snap c, .proc none, .wrote, .cancelled false]

/-- A window whose wait begins at `b` and sleeps until `t`. -/
def sleptWindow (b t : UInt64) (c : Counters) : List LoopLabel :=
  [.mono b, .cancelled false, .wake false] ++ dueWindow t c

/-- The counters of host `a` when `n` bytes have been sent to it. -/
def countersA (n : UInt64) : Counters :=
  ((Counters.new ["a".toList]).onTotal (·.addSent n 1)).onPeer 0 (·.addSent n 1)

def twoWindows : List LoopLabel :=
  opening 5 (countersA 0) ++ sleptWindow 5 1000000005 (countersA 10) ++
    sleptWindow 1000000005 2000000005 (countersA 25)

theorem windows_account_two :
    ∃ s, growingLoop.run (.init [] ["a".toList] 100) twoWindows = some s ∧
      ∃ c₀ c₁ c₂, s.carries = [c₀, c₁, c₂] ∧ s.emitted.length = 2 ∧
        (c₂.total, c₂.peers) = (countersA 25).snapshotAll ∧
        ((s.emitted.take 2).map fun w => (Field.bytesSent.ofWindow w).toNat).sum +
          (Field.bytesSent.ofSnap c₀.total).toNat = (Field.bytesSent.ofSnap c₂.total).toNat ∧
        ((s.emitted.take 2).map fun w => w.durationNs.toNat).sum + s.origin.toNat = c₂.mono.toNat := by
  have h : ((growingLoop.run (.init [] ["a".toList] 100) twoWindows).map
      fun s => (s.carries.map (·.mono), s.emitted.length)) = some ([5, 1000000005, 2000000005], 2) := by
    decide +kernel
  obtain ⟨s, hs, hc⟩ := Option.map_eq_some_iff.mp h
  obtain ⟨hc, hemitted⟩ := Prod.mk.inj hc
  obtain ⟨c₀, rest, hcar, h₀, hrest⟩ := List.map_eq_cons_iff.mp hc
  obtain ⟨c₁, rest, rfl, h₁, hrest⟩ := List.map_eq_cons_iff.mp hrest
  obtain ⟨c₂, rest, rfl, h₂, hrest⟩ := List.map_eq_cons_iff.mp hrest
  obtain rfl := List.map_eq_nil_iff.mp hrest
  obtain ⟨hread, _, htotal, _, _, hdur⟩ := windows_account hs
  have hlast : (c₂.total, c₂.peers) = (countersA 25).snapshotAll := by
    have hall := hread.eq_of_length (by rw [hcar]; rfl)
    rw [hcar] at hall
    exact (List.cons.inj (List.cons.inj (List.cons.inj hall).2).2).1
  refine ⟨s, hs, c₀, c₁, c₂, hcar, hemitted, hlast,
    htotal 2 c₀ c₂ (by rw [hcar]; rfl) (by rw [hcar]; rfl) .bytesSent, hdur 2 c₂ (by rw [hcar]; rfl) fun k a b hk ha hb => ?_⟩
  rw [hcar] at ha hb
  obtain rfl | rfl : k = 0 ∨ k = 1 := by omega
  · obtain rfl := Option.some.inj ha
    obtain rfl := Option.some.inj hb
    rw [h₀, h₁]
    decide
  · obtain rfl := Option.some.inj ha
    obtain rfl := Option.some.inj hb
    rw [h₁, h₂]
    decide

end Tperf.Server

import Tperf.Server.Theorems.Windows

/-!
# Windows on the one-second grid
-/

namespace Tperf.Server
open Lib Metrics Proto

variable {s s' : MetricsLoop} {l : LoopLabel} {eps : Nat}

/-- The `k`-th grid mark, saturated as the code computes it. -/
def gridMark (origin : UInt64) (k : Nat) : Nat := min (origin.toNat + k * 1000000000) (2 ^ 64 - 1)

/-- A wait that began before its mark ends with a close at most `eps` after the mark. -/
def inTime (eps : Nat) (mark : UInt64) : Option UInt64 → UInt64 → Bool
  | some b, t => decide (mark ≤ b) || decide (t.toNat ≤ mark.toNat + eps)
  | none, _ => true

/-- The clock does not go back, and every window whose wait begins before its mark closes in time. -/
def punctual (eps : Nat) (s : MetricsLoop) : LoopLabel → Bool
  | .mono t =>
      decide (s.clock ≤ t) && (s.pc != .closeMono || inTime eps s.deadline s.began t)
  | _ => true

def punctualLoop (eps : Nat) : Machine MetricsLoop LoopLabel :=
  metricsLoop.guard fun s l => punctual eps s l = true

theorem inTime_some {mark b t : UInt64} :
    inTime eps mark (some b) t = true ↔ mark ≤ b ∨ t.toNat ≤ mark.toNat + eps := by
  simp only [inTime, Bool.or_eq_true, decide_eq_true_eq]

theorem punctual_clock {t : UInt64} (h : punctual eps s (.mono t) = true) : s.clock ≤ t :=
  decide_eq_true_iff.mp (Bool.and_eq_true_iff.mp h).1

theorem punctual_close {t : UInt64} (h : punctual eps s (.mono t) = true) (hpc : s.pc = .closeMono) :
    inTime eps s.deadline s.began t = true := by
  rcases Bool.or_eq_true_iff.mp (Bool.and_eq_true_iff.mp h).2 with h | h
  · rw [hpc] at h; cases h
  · exact h

theorem MetricsLoop.deadline_toNat (s : MetricsLoop) {n : Nat}
    (h : s.windowI.toNat = min n (2 ^ 64 - 1)) : s.deadline.toNat = gridMark s.origin n := by
  have hw : windowNs.toNat = 1000000000 := rfl
  rw [deadline, satAdd_toNat, satMul_toNat, h, hw, gridMark]
  omega

/-! ## The invariant -/

/-- The closing time of the window that is being closed. -/
def LoopPc.closing : LoopPc → Option UInt64
  | .closeReal m | .closeSnap m _ | .closeProc m _ _ _ => some m
  | _ => none

/-- The open window closes at `m`: not before its mark nor before its wait, and in time. -/
structure Closes (eps : Nat) (mark : Nat) (b m : UInt64) : Prop where
  due : mark ≤ m.toNat
  after : b ≤ m
  punctual : b.toNat < mark → m.toNat ≤ mark + eps

structure MetricsLoop.OnGrid (eps : Nat) (s : MetricsLoop) : Prop where
  inv : s.Inv
  closed : ∀ k c, s.carries[k + 1]? = some c →
    ∃ b, s.begins[k]? = some b ∧ Closes eps (gridMark s.origin (k + 1)) b c.mono
  begun : ∀ b, s.began = some b → b ≤ s.clock
  looked : s.pc.looked = true → s.began.isSome = true
  due : s.pc = .closeMono → s.began.isSome = true ∧ s.deadline ≤ s.clock
  closing : ∀ m, s.pc.closing = some m → ∃ b, s.began = some b ∧ Closes eps s.deadline.toNat b m

theorem MetricsLoop.init_onGrid (server : Str) (names : List Str) (clkTck : UInt64) :
    (init server names clkTck).OnGrid eps where
  inv := init_inv server names clkTck
  closed _ _ h := by simp [init] at h
  begun _ h := by cases h
  looked h := by cases h
  due h := by cases h
  closing _ h := by cases h

theorem LoopPc.waits_not_closing {pc : LoopPc} (h : pc.waits = true) :
    pc ≠ .closeMono ∧ pc.closing = none := by
  cases pc with
  | waitNow | waitCheck | sleep | spinNow | spinCheck => exact ⟨by simp, rfl⟩
  | start | startProc | startMono | startReal | loopCancel | closeMono | closeReal | closeSnap | closeProc
  | writing | done => cases h

/-- The first reading of a wait is kept. -/
theorem MetricsLoop.OnGrid.begun_or (h : s.OnGrid eps) {t : UInt64}
    (hg : punctual eps s (.mono t) = true) : ∀ b, s.began.or (some t) = some b → b ≤ t := by
  intro b hb
  cases hs : s.began with
  | none =>
      rw [hs] at hb
      cases hb
      exact UInt64.le_refl t
  | some b' =>
      rw [hs] at hb
      cases hb
      exact UInt64.le_trans (h.begun _ hs) (punctual_clock hg)

/-- The program points at which no window is being waited for or closed. -/
def LoopPc.calm : LoopPc → Bool
  | .waitCheck _ | .sleep | .spinNow | .spinCheck | .closeMono | .closeReal _ | .closeSnap _ _
  | .closeProc _ _ _ _ => false
  | _ => true

theorem LoopPc.calm_spec {pc : LoopPc} (h : pc.calm = true) :
    pc.looked = false ∧ pc ≠ .closeMono ∧ pc.closing = none := by
  cases pc with
  | start | startProc | startMono | startReal | waitNow | writing | loopCancel | done =>
      exact ⟨rfl, by simp, rfl⟩
  | waitCheck | sleep | spinNow | spinCheck | closeMono | closeReal | closeSnap | closeProc => cases h

theorem MetricsLoop.OnGrid.calm (hinv : s.Inv)
    (hclosed : ∀ k c, s.carries[k + 1]? = some c →
      ∃ b, s.begins[k]? = some b ∧ Closes eps (gridMark s.origin (k + 1)) b c.mono)
    (hbegun : ∀ b, s.began = some b → b ≤ s.clock) (hpc : s.pc.calm = true) : s.OnGrid eps := by
  obtain ⟨hlooked, hne, hclosing⟩ := LoopPc.calm_spec hpc
  refine ⟨hinv, hclosed, hbegun, fun hl => ?_, fun hp => absurd hp hne, fun m hm => ?_⟩
  · rw [hlooked] at hl
    cases hl
  · rw [hclosing] at hm
    cases hm

theorem MetricsLoop.OnGrid.step (h : s.OnGrid eps) (hg : punctual eps s l = true)
    (hs : metricsLoop.step s l = some s') : s'.OnGrid eps := by
  have hst := loop_steps hs
  have hinv := h.inv.step hst
  cases hst with
  | first hn hpc => exact .calm hinv h.closed h.begun rfl
  | firstProc hpc => exact .calm hinv h.closed h.begun rfl
  | firstMono hpc =>
      obtain ⟨hc, _, _, _⟩ := h.inv.stands_at hpc
      exact .calm hinv (by simp [hc]) (fun b hb => UInt64.le_trans (h.begun b hb) (punctual_clock hg)) rfl
  | firstReal hpc => exact .calm hinv (by simp) h.begun rfl
  | @due t hpc ht =>
      refine ⟨hinv, h.closed, h.begun_or hg, (fun hl => by cases hl), fun _ => ⟨?_, ht⟩,
        fun _ hm => by cases hm⟩
      simp
  | @early t hpc ht =>
      refine ⟨hinv, h.closed, h.begun_or hg, fun _ => ?_, (fun hp => by cases hp), fun _ hm => by cases hm⟩
      simp
  | @spinDue t hpc ht =>
      refine ⟨hinv, h.closed, fun b hb => UInt64.le_trans (h.begun b hb) (punctual_clock hg),
        (fun hl => by cases hl), fun _ => ⟨h.looked (by rw [hpc]; rfl), UInt64.not_lt.mp ht⟩,
        fun _ hm => by cases hm⟩
  | @spinEarly t hpc ht =>
      exact ⟨hinv, h.closed, fun b hb => UInt64.le_trans (h.begun b hb) (punctual_clock hg),
        fun _ => h.looked (by rw [hpc]; rfl), (fun hp => by cases hp), fun _ hm => by cases hm⟩
  | @wait l pc hpc hpc' =>
      obtain ⟨hne, hnone⟩ := LoopPc.waits_not_closing hpc'
      refine ⟨hinv, h.closed, h.begun, fun _ => h.looked hpc, fun he => absurd he hne, fun m hm => ?_⟩
      simp only [goto] at hm
      rw [hnone] at hm
      cases hm
  | again hpc => exact .calm hinv h.closed h.begun rfl
  | stop => exact .calm hinv h.closed h.begun rfl
  | @closeMono t hpc =>
      obtain ⟨hsome, hdue⟩ := h.due hpc
      obtain ⟨b, hb⟩ := Option.isSome_iff_exists.mp hsome
      have hclock := punctual_clock hg
      have hcl : Closes eps s.deadline.toNat b t := by
        refine ⟨UInt64.le_iff_toNat_le.mp (UInt64.le_trans hdue hclock),
          UInt64.le_trans (h.begun b hb) hclock, fun hlt => ?_⟩
        have hin := punctual_close hg hpc
        rw [hb] at hin
        exact (inTime_some.mp hin).resolve_left fun hle =>
          Nat.not_le_of_lt hlt (UInt64.le_iff_toNat_le.mp hle)
      refine ⟨hinv, h.closed, fun b hb => UInt64.le_trans (h.begun b hb) hclock, (fun hl => by cases hl),
        (fun hp => by cases hp), ?_⟩
      intro m hm
      cases hm
      exact ⟨b, hb, hcl⟩
  | closeReal hpc =>
      exact ⟨hinv, h.closed, h.begun, (fun hl => by cases hl), (fun hp => by cases hp),
        fun m hm => h.closing m (by rw [hpc]; exact hm)⟩
  | closeSnap hn hpc =>
      exact ⟨hinv, h.closed, h.begun, (fun hl => by cases hl), (fun hp => by cases hp),
        fun m hm => h.closing m (by rw [hpc]; exact hm)⟩
  | @emit p m w tot peers hpc =>
      obtain ⟨_, hidx⟩ := h.inv.stands_at hpc
      obtain ⟨b, hb, hcl⟩ := h.closing m (by rw [hpc]; rfl)
      refine .calm hinv (fun k c hc => ?_) h.begun rfl
      simp only [MetricsLoop.emit] at hc ⊢
      have hlt : k < (s.carries ++ [Carry.mk tot peers p m w]).length := by
        have := (List.getElem?_eq_some_iff.mp hc).1
        omega
      have ha := List.getElem?_eq_getElem hlt
      rcases h.inv.neighbours (by rw [hpc]; rfl) ha hc with ⟨_, hc⟩ | ⟨rfl, _, rfl⟩
      · obtain ⟨b', hb', hcl'⟩ := h.closed k c hc
        refine ⟨b', ?_, hcl'⟩
        rw [List.getElem?_append_left (List.getElem?_eq_some_iff.mp hb').1]
        exact hb'
      · refine ⟨b, ?_, s.deadline_toNat hidx ▸ hcl⟩
        rw [hb, Option.getD_some, ← h.inv.begins, List.getElem?_concat_length]
  | wrote hpc => exact .calm hinv h.closed (fun _ hb => by cases hb) rfl

theorem punctualLoop_onGrid {server : Str} {names : List Str} {clkTck : UInt64} {ls : List LoopLabel}
    (h : (punctualLoop eps).run (.init server names clkTck) ls = some s) : s.OnGrid eps :=
  Machine.guard_invariant (fun hi hg hs => hi.step hg hs) h
    (MetricsLoop.init_onGrid server names clkTck)

/-! ## Durations -/

/-- The window behind one that closed in time lasts a second, up to `eps`. -/
theorem MetricsLoop.OnGrid.full (h : s.OnGrid eps) {k : Nat} {w : MetricWindow}
    (hw : s.emitted[k]? = some w) (hfit : s.origin.toNat + (k + 1) * 1000000000 < 2 ^ 64)
    (hprev : ∀ i b, k = i + 1 → s.begins[i]? = some b → b.toNat < gridMark s.origin (i + 1)) :
    1000000000 ≤ w.durationNs.toNat + eps := by
  obtain ⟨a, c, ha, hc, rfl⟩ := h.inv.window_of hw
  obtain ⟨_, _, hclose⟩ := h.closed k c hc
  have hdue := hclose.due
  have hdur : (s.window a c).durationNs.toNat = _ := durationNs_toNat a c
  cases k with
  | zero =>
      have hmono := h.inv.origin a ha
      rw [hmono] at hdur
      simp only [gridMark] at hdue
      omega
  | succ i =>
      obtain ⟨b, hb, hopen⟩ := h.closed i a ha
      have hin := hopen.punctual (hprev i b rfl hb)
      simp only [gridMark] at hdue hin
      omega

/-- The window behind one whose wait began late is short, if its own wait begins in time. -/
theorem MetricsLoop.OnGrid.short (h : s.OnGrid eps) {k : Nat} {b b' : UInt64} {w : MetricWindow}
    (hw : s.emitted[k + 1]? = some w) (heps : 2 * eps < 1000000000)
    (hfit : s.origin.toNat + (k + 2) * 1000000000 < 2 ^ 64) (hb : s.begins[k]? = some b)
    (hlate : gridMark s.origin (k + 1) + 2 * eps < b.toNat) (hb' : s.begins[k + 1]? = some b')
    (hin : b'.toNat < gridMark s.origin (k + 2)) : w.durationNs.toNat + eps < 1000000000 := by
  obtain ⟨a, c, ha, hc, rfl⟩ := h.inv.window_of hw
  obtain ⟨_, hx, hopen⟩ := h.closed k a ha
  obtain ⟨_, hy, hclose⟩ := h.closed (k + 1) c hc
  obtain rfl := Option.some.inj (hb.symm.trans hx)
  obtain rfl := Option.some.inj (hb'.symm.trans hy)
  have hafter := UInt64.le_iff_toNat_le.mp hopen.after
  have hbefore := hclose.punctual hin
  have hdur : (s.window a c).durationNs.toNat = _ := durationNs_toNat a c
  simp only [gridMark] at hlate hbefore
  omega

/-- The wait of `wait_until_mono` ends because of the cancellation. -/
def gaveUp (s : MetricsLoop) : LoopLabel → Bool
  | .cancelled b => b && (s.pc.looked && s.pc != .sleep)
  | .wake b => b && s.pc == .sleep
  | _ => false

theorem gaveUp_done (hg : gaveUp s l = true) (hs : metricsLoop.step s l = some s') :
    s' = s.goto .done := by
  cases l with
  | cancelled b =>
      simp only [gaveUp, Bool.and_eq_true] at hg
      obtain ⟨rfl, hlooked, hne⟩ := hg
      dsimp only [metricsLoop] at hs
      cases hpc : s.pc with
      | waitCheck | spinCheck =>
          rw [hpc] at hs
          exact (Option.some.inj hs).symm
      | sleep => simp [hpc] at hne
      | spinNow => simp [hpc] at hs
      | start | startProc | startMono | startReal | waitNow | loopCancel | closeMono | closeReal
      | closeSnap | closeProc | writing | done =>
          rw [hpc] at hlooked
          cases hlooked
  | wake b =>
      simp only [gaveUp, Bool.and_eq_true] at hg
      obtain ⟨rfl, hsleep⟩ := hg
      dsimp only [metricsLoop] at hs
      rw [eq_of_beq hsleep] at hs
      exact (Option.some.inj hs).symm
  | snap => cases hg
  | proc => cases hg
  | mono => cases hg
  | real => cases hg
  | wrote => cases hg
  | abort => cases hg

theorem done_stuck (h : s.pc = .done) : metricsLoop.step s l = none := by
  cases l <;> dsimp only [metricsLoop] <;> simp [h]

theorem done_run (h : s.pc = .done) {ls : List LoopLabel} (hr : metricsLoop.run s ls = some s') :
    s' = s := by
  cases ls with
  | nil => exact (Option.some.inj hr).symm
  | cons l ls =>
      rw [Machine.run_cons, done_stuck h] at hr
      cases hr

/-- No window closes before its mark, and a wait that is given up emits nothing. Where every wait but the last
begins before its mark, no window is short; a wait that begins late makes the next window short. -/
theorem full_windows {server : Str} {names : List Str} {clkTck : UInt64} {ls : List LoopLabel}
    (h : (punctualLoop eps).run (.init server names clkTck) ls = some s) :
    (∀ (k : Nat) (c : Carry), s.carries[k + 1]? = some c →
      min (s.origin.toNat + (k + 1) * 1000000000) (2 ^ 64 - 1) ≤ c.mono.toNat) ∧
    (∀ (l : LoopLabel) (s' t : MetricsLoop) (ls' : List LoopLabel), gaveUp s l = true →
      metricsLoop.step s l = some s' → metricsLoop.run s' ls' = some t → t.emitted = s.emitted) ∧
    (s.origin.toNat + s.emitted.length * 1000000000 < 2 ^ 64 →
      (∀ (k : Nat) (b : UInt64), k + 1 < s.emitted.length → s.begins[k]? = some b →
        b.toNat < gridMark s.origin (k + 1)) →
      ∀ w ∈ s.emitted, 1000000000 ≤ w.durationNs.toNat + eps) ∧
    (∀ (k : Nat) (b b' : UInt64) (w : MetricWindow), 2 * eps < 1000000000 →
      s.origin.toNat + (k + 2) * 1000000000 < 2 ^ 64 → s.begins[k]? = some b →
      gridMark s.origin (k + 1) + 2 * eps < b.toNat → s.begins[k + 1]? = some b' →
      b'.toNat < gridMark s.origin (k + 2) → s.emitted[k + 1]? = some w →
      w.durationNs.toNat + eps < 1000000000) := by
  have hi := punctualLoop_onGrid h
  refine ⟨?_, ?_, ?_, ?_⟩
  · intro k c hc
    obtain ⟨_, _, hcl⟩ := hi.closed k c hc
    exact hcl.due
  · intro l s' t ls' hg hs hr
    obtain rfl := gaveUp_done hg hs
    rw [done_run rfl hr]
    rfl
  · intro hfit hearly w hw
    obtain ⟨k, hk⟩ := List.getElem?_of_mem hw
    have hlt := (List.getElem?_eq_some_iff.mp hk).1
    have hle := Nat.mul_le_mul_right 1000000000 (Nat.succ_le_of_lt hlt)
    have hfit' := Nat.lt_of_le_of_lt (Nat.add_le_add_left hle s.origin.toNat) hfit
    refine hi.full hk hfit' fun i b hik hb => hearly i b ?_ hb
    exact hik ▸ hlt
  · intro k b b' w heps hfit hb hlate hb' hin hw
    exact hi.short hw heps hfit hb hlate hb' hin

/-- Two windows without delay. -/
def steadyRun : List LoopLabel :=
  opening 0 (Counters.new []) ++ sleptWindow 0 1000000000 (Counters.new []) ++
    sleptWindow 1000000001 2000000000 (Counters.new [])

theorem full_windows_steady :
    ∃ s, (punctualLoop 0).run (.init [] [] 100) steadyRun = some s ∧
      ∀ w ∈ s.emitted, 1000000000 ≤ w.durationNs.toNat + 0 := by
  have h : ((punctualLoop 0).run (.init [] [] 100) steadyRun).map
      (fun s => (s.origin, s.emitted.length, s.begins)) = some (0, 2, [0, 1000000001]) := by
    decide +kernel
  obtain ⟨s, hs, h⟩ := Option.map_eq_some_iff.mp h
  simp only [Prod.mk.injEq] at h
  obtain ⟨horigin, hlen, hbegins⟩ := h
  refine ⟨s, hs, (full_windows hs).2.2.1 ?_ ?_⟩
  · rw [horigin, hlen]; decide
  · intro k b hk hb
    obtain rfl : k = 0 := by omega
    rw [hbegins] at hb
    obtain rfl := Option.some.inj hb
    rw [horigin]
    decide

/-- The write of the first window takes 1.7 s. The second begins its wait after its mark, closes at
once, and the third closes on its own mark. -/
def stalledRun : List LoopLabel :=
  opening 0 (Counters.new []) ++ sleptWindow 0 1000000000 (Counters.new []) ++
    dueWindow 2700000000 (Counters.new []) ++ sleptWindow 2700000000 3000000000 (Counters.new [])

theorem short_window :
    ∃ s, (punctualLoop 0).run (.init [] [] 100) stalledRun = some s ∧
      s.emitted.map (·.durationNs) = [1000000000, 1700000000, 300000000] := by
  have h : ((punctualLoop 0).run (.init [] [] 100) stalledRun).map
      (fun s => s.emitted.map (·.durationNs)) = some [1000000000, 1700000000, 300000000] := by
    decide +kernel
  exact Option.map_eq_some_iff.mp h

end Tperf.Server

import Tperf.Server.MetricsLoop

/-!
# Steps and invariants of the metrics loop
-/

namespace Tperf.Server
open Lib Metrics Proto

/-! ## Everything a step can do -/

/-- The program points of `wait_until_mono` behind its first clock reading. -/
def LoopPc.looked : LoopPc → Bool
  | .waitCheck _ | .sleep | .spinNow | .spinCheck => true
  | _ => false

def LoopPc.waits (pc : LoopPc) : Bool := pc.looked || pc == .waitNow

/-- The branches of `metricsLoop`. -/
inductive MetricsLoop.Steps (s : MetricsLoop) : LoopLabel → MetricsLoop → Prop
  | first {c : Counters} (hn : c.names = s.names) (hpc : s.pc = .start) :
      Steps s (.snap c) { s with
        carry := { s.carry with total := c.snapshotAll.1, peers := c.snapshotAll.2 }
        pc := .startProc }
  | firstProc {p : Option ProcSample} (hpc : s.pc = .startProc) :
      Steps s (.proc p) { s with carry := { s.carry with proc := p }, pc := .startMono }
  | firstMono {t : UInt64} (hpc : s.pc = .startMono) :
      Steps s (.mono t) { s with
        origin := t
        carry := { s.carry with mono := t }
        clock := t
        pc := .startReal }
  | firstReal {t : UInt64} (hpc : s.pc = .startReal) :
      Steps s (.real t) { s with
        carry := { s.carry with wall := t }
        carries := [{ s.carry with wall := t }]
        pc := .waitNow }
  | due {t : UInt64} (hpc : s.pc = .waitNow) (ht : t ≥ s.deadline) :
      Steps s (.mono t) { s with began := s.began.or (some t), clock := t, pc := .closeMono }
  | early {t : UInt64} (hpc : s.pc = .waitNow) (ht : ¬ t ≥ s.deadline) :
      Steps s (.mono t) { s with began := s.began.or (some t), clock := t, pc := .waitCheck t }
  | spinDue {t : UInt64} (hpc : s.pc = .spinNow) (ht : ¬ t < s.deadline) :
      Steps s (.mono t) { s with clock := t, pc := .closeMono }
  | spinEarly {t : UInt64} (hpc : s.pc = .spinNow) (ht : t < s.deadline) :
      Steps s (.mono t) { s with clock := t, pc := .spinCheck }
  | wait {l : LoopLabel} {pc : LoopPc} (hpc : s.pc.looked = true) (hpc' : pc.waits = true) :
      Steps s l (s.goto pc)
  | again {l : LoopLabel} (hpc : s.pc = .loopCancel) : Steps s l (s.goto .waitNow)
  | stop {l : LoopLabel} : Steps s l (s.goto .done)
  | closeMono {t : UInt64} (hpc : s.pc = .closeMono) :
      Steps s (.mono t) { s with clock := t, pc := .closeReal t }
  | closeReal {m t : UInt64} (hpc : s.pc = .closeReal m) : Steps s (.real t) (s.goto (.closeSnap m t))
  | closeSnap {c : Counters} {m w : UInt64} (hn : c.names = s.names) (hpc : s.pc = .closeSnap m w) :
      Steps s (.snap c) (s.goto (.closeProc m w c.snapshotAll.1 c.snapshotAll.2))
  | emit {p : Option ProcSample} {m w : UInt64} {tot : Snap} {peers : List Snap}
      (hpc : s.pc = .closeProc m w tot peers) : Steps s (.proc p) (s.emit ⟨tot, peers, p, m, w⟩)
  | wrote {next : Carry} (hpc : s.pc = .writing next) :
      Steps s .wrote { s with
        carry := next
        windowI := satAdd s.windowI 1
        began := none
        pc := .loopCancel }

theorem loop_steps {s s' : MetricsLoop} {l : LoopLabel} (h : metricsLoop.step s l = some s') :
    s.Steps l s' := by
  cases l with
  | snap c =>
      dsimp only [metricsLoop] at h
      by_cases hn : c.names = s.names
      · simp only [hn, ne_eq, not_true_eq_false, if_false] at h
        cases hpc : s.pc <;> simp only [hpc, reduceCtorEq, Option.some.injEq] at h <;> subst h
        · exact .first hn hpc
        · exact .closeSnap hn hpc
      · simp [hn] at h
  | proc p =>
      dsimp only [metricsLoop] at h
      cases hpc : s.pc <;> simp only [hpc, reduceCtorEq, Option.some.injEq] at h <;> subst h
      · exact .firstProc hpc
      · exact .emit hpc
  | mono t =>
      dsimp only [metricsLoop] at h
      cases hpc : s.pc <;> simp only [hpc, reduceCtorEq, Option.some.injEq] at h <;> subst h
      · exact .firstMono hpc
      · by_cases ht : t ≥ s.deadline
        · rw [if_pos ht]; exact .due hpc ht
        · rw [if_neg ht]; exact .early hpc ht
      · by_cases ht : t < s.deadline
        · rw [if_pos ht]; exact .spinEarly hpc ht
        · rw [if_neg ht]; exact .spinDue hpc ht
      · exact .closeMono hpc
  | real t =>
      dsimp only [metricsLoop] at h
      cases hpc : s.pc <;> simp only [hpc, reduceCtorEq, Option.some.injEq] at h <;> subst h
      · exact .firstReal hpc
      · exact .closeReal hpc
  | cancelled b =>
      dsimp only [metricsLoop] at h
      cases b with
      | true =>
          cases hpc : s.pc <;> simp only [hpc, if_true, reduceCtorEq, Option.some.injEq] at h <;>
            subst h <;> exact .stop
      | false =>
          cases hpc : s.pc <;>
            simp only [hpc, Bool.false_eq_true, if_false, reduceCtorEq, Option.some.injEq] at h <;>
            subst h
          · rename_i now
            refine .wait (by rw [hpc]; rfl) ?_
            by_cases hr : s.deadline - now > windowSpinNs
            · rw [if_pos hr]; rfl
            · rw [if_neg hr]; rfl
          · exact .wait (by rw [hpc]; rfl) rfl
          · exact .again hpc
  | wake b =>
      dsimp only [metricsLoop] at h
      cases hpc : s.pc <;> simp only [hpc, reduceCtorEq, Option.some.injEq] at h
      subst h
      cases b
      · exact .wait (by rw [hpc]; rfl) rfl
      · exact .stop
  | wrote =>
      dsimp only [metricsLoop] at h
      cases hpc : s.pc <;> simp only [hpc, reduceCtorEq, Option.some.injEq] at h
      subst h
      exact .wrote hpc
  | abort =>
      dsimp only [metricsLoop] at h
      cases hpc : s.pc <;> simp only [hpc, reduceCtorEq, Option.some.injEq] at h <;> subst h <;>
        exact .stop

/-! ## The history -/

inductive Phase
  | starting
  | running
  | writing (next : Carry)
  | over

def LoopPc.phase : LoopPc → Phase
  | .start | .startProc | .startMono | .startReal => .starting
  | .writing next => .writing next
  | .done => .over
  | _ => .running

theorem LoopPc.phase_of_looked {pc : LoopPc} (h : pc.looked = true) : pc.phase = .running := by
  cases pc <;> first | rfl | cases h

theorem LoopPc.phase_of_waits {pc : LoopPc} (h : pc.waits = true) : pc.phase = .running := by
  rcases Bool.or_eq_true_iff.mp h with h | h
  · exact phase_of_looked h
  · rw [eq_of_beq h]; rfl

/-- What the loop carries, and the number of its window. -/
def MetricsLoop.Stands (s : MetricsLoop) : Phase → Prop
  | .starting => s.carries = [] ∧ s.emitted = [] ∧ s.begins = [] ∧ s.windowI = 1
  | .running =>
      s.carries[s.emitted.length]? = some s.carry ∧
        s.windowI.toNat = min (s.emitted.length + 1) (2 ^ 64 - 1)
  | .writing next =>
      s.carries[s.emitted.length]? = some next ∧ s.windowI.toNat = min s.emitted.length (2 ^ 64 - 1)
  | .over => True

/-- Each emitted window is the one between two neighbours in `carries`. -/
structure MetricsLoop.Inv (s : MetricsLoop) : Prop where
  length : s.emitted.length = s.carries.length - 1
  begins : s.begins.length = s.emitted.length
  linked : ∀ k a b, s.carries[k]? = some a → s.carries[k + 1]? = some b →
    s.emitted[k]? = some (s.window a b)
  origin : ∀ c, s.carries[0]? = some c → c.mono = s.origin
  sized : ∀ c ∈ s.carries, c.peers.length = s.names.length
  stands : s.Stands s.pc.phase
  started : s.pc ≠ .start → s.pc ≠ .done → s.carry.peers.length = s.names.length
  first : s.pc = .startReal → s.carry.mono = s.origin
  closing : ∀ m w tot peers, s.pc = .closeProc m w tot peers → peers.length = s.names.length

theorem MetricsLoop.init_inv (server : Str) (names : List Str) (clkTck : UInt64) :
    (init server names clkTck).Inv where
  length := rfl
  begins := rfl
  linked _ _ _ h := by simp [init] at h
  origin _ h := by simp [init] at h
  sized _ h := by simp [init] at h
  stands := ⟨rfl, rfl, rfl, rfl⟩
  started h := absurd rfl h
  first h := by cases h
  closing _ _ _ _ h := by cases h

theorem snapshotAll_length {c : Counters} {names : List Str} (h : c.names = names) :
    c.snapshotAll.2.length = names.length := by
  rw [Counters.snapshotAll, List.length_map, c.aligned, h]

namespace MetricsLoop

variable {s s' : MetricsLoop} {l : LoopLabel}

theorem Inv.stands_at (h : s.Inv) {pc : LoopPc} (hpc : s.pc = pc) : s.Stands pc.phase :=
  hpc ▸ h.stands

theorem Inv.started_at (h : s.Inv) {pc : LoopPc} (hpc : s.pc = pc) (h₁ : pc ≠ .start)
    (h₂ : pc ≠ .done) : s.carry.peers.length = s.names.length :=
  h.started (hpc ▸ h₁) (hpc ▸ h₂)

/-- Neighbours after an emission: two that were there, or the window just closed. -/
theorem Inv.neighbours (h : s.Inv) (hp : s.pc.phase = .running) {next a b : Carry} {k : Nat}
    (ha : (s.carries ++ [next])[k]? = some a) (hb : (s.carries ++ [next])[k + 1]? = some b) :
    (s.carries[k]? = some a ∧ s.carries[k + 1]? = some b) ∨
      (k = s.emitted.length ∧ a = s.carry ∧ b = next) := by
  have hst := h.stands
  rw [hp] at hst
  have hlt := (List.getElem?_eq_some_iff.mp hst.1).1
  have hlen := h.length
  rcases Nat.lt_or_ge (k + 1) s.carries.length with hk | hk
  · rw [List.getElem?_append_left hk] at hb
    rw [List.getElem?_append_left (by omega)] at ha
    exact .inl ⟨ha, hb⟩
  · have hbound := (List.getElem?_eq_some_iff.mp hb).1
    simp only [List.length_append, List.length_singleton] at hbound
    obtain rfl : k = s.emitted.length := by omega
    have hend : s.emitted.length + 1 = s.carries.length := by omega
    rw [List.getElem?_append_left hlt, hst.1] at ha
    rw [hend, List.getElem?_concat_length] at hb
    exact .inr ⟨rfl, (Option.some.inj ha).symm, (Option.some.inj hb).symm⟩

theorem Inv.emit (h : s.Inv) {next : Carry} (hp : s.pc.phase = .running)
    (hsized : next.peers.length = s.names.length) (hstart : s.carry.peers.length = s.names.length) :
    (s.emit next).Inv := by
  have hst := h.stands
  rw [hp] at hst
  obtain ⟨hlast, hidx⟩ := hst
  have hlt : s.emitted.length < s.carries.length := (List.getElem?_eq_some_iff.mp hlast).1
  have hlen : s.carries.length = s.emitted.length + 1 := by have := h.length; omega
  refine ⟨?_, ?_, ?_, ?_, ?_, ⟨?_, ?_⟩, ?_, ?_, ?_⟩
  · simp only [MetricsLoop.emit, List.length_append, List.length_singleton]; omega
  · simp only [MetricsLoop.emit, List.length_append, List.length_singleton, h.begins]
  · intro k a b ha hb
    simp only [MetricsLoop.emit]
    rcases h.neighbours hp ha hb with ⟨ha, hb⟩ | ⟨rfl, rfl, rfl⟩
    · have hw := h.linked k a b ha hb
      rw [List.getElem?_append_left (List.getElem?_eq_some_iff.mp hw).1]
      exact hw
    · exact List.getElem?_concat_length
  · intro c hc
    simp only [MetricsLoop.emit] at hc ⊢
    rw [List.getElem?_append_left (by omega)] at hc
    exact h.origin c hc
  · intro c hc
    rcases List.mem_append.mp hc with hc | hc
    · exact h.sized c hc
    · rw [List.mem_singleton.mp hc]; exact hsized
  · simp only [MetricsLoop.emit, List.length_append, List.length_singleton, ← hlen]
    exact List.getElem?_concat_length
  · simp only [MetricsLoop.emit, List.length_append, List.length_singleton]
    exact hidx
  · exact fun _ _ => hstart
  · exact nofun
  · exact nofun

/-- An emitted window lies between two neighbours. -/
theorem Inv.window_of (h : s.Inv) {k : Nat} {w : MetricWindow} (hw : s.emitted[k]? = some w) :
    ∃ a b, s.carries[k]? = some a ∧ s.carries[k + 1]? = some b ∧ w = s.window a b := by
  have hlt := (List.getElem?_eq_some_iff.mp hw).1
  have hlen := h.length
  have ha := List.getElem?_eq_getElem (l := s.carries) (i := k) (by omega)
  have hb := List.getElem?_eq_getElem (l := s.carries) (i := k + 1) (by omega)
  exact ⟨_, _, ha, hb, Option.some.inj (hw.symm.trans (h.linked k _ _ ha hb))⟩

theorem Inv.step (h : s.Inv) (hs : s.Steps l s') : s'.Inv := by
  cases hs with
  | first hn hpc =>
      exact ⟨h.length, h.begins, h.linked, h.origin, h.sized, h.stands_at hpc, fun _ _ => snapshotAll_length hn,
        nofun, nofun⟩
  | firstProc hpc =>
      exact ⟨h.length, h.begins, h.linked, h.origin, h.sized, h.stands_at hpc,
        fun _ _ => h.started_at hpc nofun nofun, nofun, nofun⟩
  | firstMono hpc =>
      obtain ⟨hc, he, hb, hi⟩ := h.stands_at hpc
      exact ⟨h.length, h.begins, h.linked, by simp [hc], h.sized, ⟨hc, he, hb, hi⟩,
        fun _ _ => h.started_at hpc nofun nofun, fun _ => rfl, nofun⟩
  | firstReal hpc =>
      obtain ⟨hc, he, hb, hi⟩ := h.stands_at hpc
      have hsized := h.started_at hpc nofun nofun
      refine ⟨by simp [he], by simp [he, hb], by simp, ?_, ?_, ⟨by simp [he], by simp [he, hi]⟩,
        fun _ _ => hsized, nofun, nofun⟩
      · intro c hc
        obtain rfl : _ = c := Option.some.inj hc
        exact h.first hpc
      · intro c hc
        rw [List.mem_singleton.mp hc]
        exact hsized
  | due hpc =>
      exact ⟨h.length, h.begins, h.linked, h.origin, h.sized, h.stands_at hpc,
        fun _ _ => h.started_at hpc nofun nofun, nofun, nofun⟩
  | early hpc =>
      exact ⟨h.length, h.begins, h.linked, h.origin, h.sized, h.stands_at hpc,
        fun _ _ => h.started_at hpc nofun nofun, nofun, nofun⟩
  | spinDue hpc =>
      exact ⟨h.length, h.begins, h.linked, h.origin, h.sized, h.stands_at hpc,
        fun _ _ => h.started_at hpc nofun nofun, nofun, nofun⟩
  | spinEarly hpc =>
      exact ⟨h.length, h.begins, h.linked, h.origin, h.sized, h.stands_at hpc,
        fun _ _ => h.started_at hpc nofun nofun, nofun, nofun⟩
  | @wait l pc hpc hpc' =>
      have hst := h.stands
      rw [LoopPc.phase_of_looked hpc] at hst
      refine ⟨h.length, h.begins, h.linked, h.origin, h.sized, ?_,
        fun _ _ => h.started (fun he => ?_) (fun he => ?_), fun he => ?_, fun _ _ _ _ he => ?_⟩
      · rw [goto, LoopPc.phase_of_waits hpc']; exact hst
      · rw [he] at hpc; cases hpc
      · rw [he] at hpc; cases hpc
      · simp only [goto] at he
        rw [he] at hpc'; cases hpc'
      · simp only [goto] at he
        rw [he] at hpc'; cases hpc'
  | again hpc =>
      exact ⟨h.length, h.begins, h.linked, h.origin, h.sized, h.stands_at hpc,
        fun _ _ => h.started_at hpc nofun nofun, nofun, nofun⟩
  | stop =>
      exact ⟨h.length, h.begins, h.linked, h.origin, h.sized, trivial, fun _ he => absurd rfl he, nofun,
        nofun⟩
  | closeMono hpc =>
      exact ⟨h.length, h.begins, h.linked, h.origin, h.sized, h.stands_at hpc,
        fun _ _ => h.started_at hpc nofun nofun, nofun, nofun⟩
  | closeReal hpc =>
      exact ⟨h.length, h.begins, h.linked, h.origin, h.sized, h.stands_at hpc,
        fun _ _ => h.started_at hpc nofun nofun, nofun, nofun⟩
  | closeSnap hn hpc =>
      refine ⟨h.length, h.begins, h.linked, h.origin, h.sized, h.stands_at hpc,
        fun _ _ => h.started_at hpc nofun nofun, nofun, ?_⟩
      intro m w tot peers he
      cases he
      exact snapshotAll_length hn
  | emit hpc =>
      exact h.emit (by rw [hpc]; rfl) (h.closing _ _ _ _ hpc)
        (h.started_at hpc nofun nofun)
  | @wrote next hpc =>
      obtain ⟨hlast, hidx⟩ := h.stands_at hpc
      refine ⟨h.length, h.begins, h.linked, h.origin, h.sized, ⟨hlast, ?_⟩,
        fun _ _ => h.sized next (List.mem_of_getElem? hlast), nofun, nofun⟩
      simp only [satAdd_toNat, hidx, UInt64.toNat_one]
      omega

theorem Steps.names (h : s.Steps l s') : s'.names = s.names := by
  cases h <;> rfl

theorem Steps.server (h : s.Steps l s') : s'.server = s.server := by
  cases h <;> rfl

end MetricsLoop

end Tperf.Server

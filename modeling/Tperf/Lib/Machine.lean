/-!
# Labelled machines

A machine is a partial step function: what one label does to a state, `none` where the label is not
enabled. Every choice of the environment (who moves, what a call returns, when something is cut off)
is a label, so a run is a list of labels and can be evaluated.
-/

namespace Tperf.Lib

universe u v w x

structure Machine (σ : Type u) (ι : Type v) where
  step : σ → ι → Option σ

namespace Machine

variable {σ : Type u} {ι : Type v} (M : Machine σ ι)

/-- The state after the labels `ls`, if each of them is enabled in turn. -/
def run (s : σ) : List ι → Option σ
  | [] => some s
  | l :: ls => (M.step s l).bind fun s' => run s' ls

@[simp] theorem run_nil (s : σ) : M.run s [] = some s := rfl

@[simp] theorem run_cons (s : σ) (l : ι) (ls : List ι) :
    M.run s (l :: ls) = (M.step s l).bind fun s' => M.run s' ls := rfl

theorem run_append (s : σ) (ls ks : List ι) :
    M.run s (ls ++ ks) = (M.run s ls).bind fun s' => M.run s' ks := by
  induction ls generalizing s with
  | nil => rfl
  | cons l ls ih =>
      simp only [List.cons_append, run_cons]
      cases M.step s l with
      | none => rfl
      | some s' => exact ih s'

theorem run_cons_inv {s t : σ} {l : ι} {ls : List ι} (h : M.run s (l :: ls) = some t) :
    ∃ s', M.step s l = some s' ∧ M.run s' ls = some t := by
  simpa only [run_cons, Option.bind_eq_some_iff] using h

/-- `t` is reached from `s` by some list of labels. -/
def Reach (s t : σ) : Prop := ∃ ls, M.run s ls = some t

/-! ## Rules -/

variable {M}

/-- What every step keeps, every run keeps. -/
theorem run_invariant {I : σ → Prop} (hstep : ∀ {s l t}, I s → M.step s l = some t → I t)
    {s t : σ} {ls : List ι} (h : M.run s ls = some t) (hs : I s) : I t := by
  induction ls generalizing s with
  | nil => simp only [run_nil, Option.some.injEq] at h; subst h; exact hs
  | cons l ls ih =>
      obtain ⟨s', h₁, h₂⟩ := M.run_cons_inv h
      exact ih h₂ (hstep hs h₁)

/-- The rule for what is said of a state and of the labels that led to it. -/
theorem run_history {I : List ι → σ → Prop}
    (hstep : ∀ {ks s l t}, I ks s → M.step s l = some t → I (ks ++ [l]) t)
    {s t : σ} {ks ls : List ι} (h : M.run s ls = some t) (hs : I ks s) : I (ks ++ ls) t := by
  induction ls generalizing s ks with
  | nil =>
      simp only [run_nil, Option.some.injEq] at h
      subst h
      rw [List.append_nil]
      exact hs
  | cons l ls ih =>
      obtain ⟨s', h₁, h₂⟩ := M.run_cons_inv h
      simpa using ih h₂ (hstep hs h₁)

theorem Reach.refl (s : σ) : M.Reach s s := ⟨[], rfl⟩

theorem Reach.trans {s t u : σ} (h : M.Reach s t) (h' : M.Reach t u) : M.Reach s u := by
  obtain ⟨ls, hls⟩ := h
  obtain ⟨ks, hks⟩ := h'
  refine ⟨ls ++ ks, ?_⟩
  rw [run_append, hls, Option.bind_some, hks]

theorem Reach.of_step {s t : σ} {l : ι} (h : M.step s l = some t) : M.Reach s t :=
  ⟨[l], by rw [run_cons, h, Option.bind_some, run_nil]⟩

/-- A reflexive, transitive relation that every step from an `I` state meets holds between the ends
of a run. -/
theorem run_relates {I : σ → Prop} {R : σ → σ → Prop}
    (hinv : ∀ {s l t}, I s → M.step s l = some t → I t)
    (hrefl : ∀ s, R s s) (htrans : ∀ {s t u}, R s t → R t u → R s u)
    (hstep : ∀ {s l t}, I s → M.step s l = some t → R s t)
    {s t : σ} {ls : List ι} (h : M.run s ls = some t) (hs : I s) : R s t := by
  induction ls generalizing s with
  | nil => simp only [run_nil, Option.some.injEq] at h; subst h; exact hrefl s
  | cons l ls ih =>
      obtain ⟨s', h₁, h₂⟩ := M.run_cons_inv h
      exact htrans (hstep hs h₁) (ih h₂ (hinv hs h₁))

/-- The rule of forward simulation: what `M` does in a step, `N` does in some steps. -/
theorem run_simulates {τ : Type w} {κ : Type x} {N : Machine τ κ} {R : σ → τ → Prop}
    (hstep : ∀ {s l t r}, R s r → M.step s l = some t → ∃ ks r', N.run r ks = some r' ∧ R t r')
    {s t : σ} {r : τ} {ls : List ι} (h : M.run s ls = some t) (hr : R s r) :
    ∃ ks r', N.run r ks = some r' ∧ R t r' := by
  induction ls generalizing s r with
  | nil => simp only [run_nil, Option.some.injEq] at h; subst h; exact ⟨[], r, rfl, hr⟩
  | cons l ls ih =>
      obtain ⟨s', h₁, h₂⟩ := M.run_cons_inv h
      obtain ⟨ks₁, r₁, hk₁, hr₁⟩ := hstep hr h₁
      obtain ⟨ks₂, r₂, hk₂, hr₂⟩ := ih h₂ hr₁
      exact ⟨ks₁ ++ ks₂, r₂, by rw [run_append, hk₁, Option.bind_some, hk₂], hr₂⟩

/-! ## Runs whose steps all meet a condition -/

/-- The machine that takes only the steps that meet `G`, a condition on the state before the step. -/
def guard (M : Machine σ ι) (G : σ → ι → Prop) [∀ s l, Decidable (G s l)] : Machine σ ι where
  step s l := if G s l then M.step s l else none

variable {G : σ → ι → Prop} [∀ s l, Decidable (G s l)]

theorem guard_step {s t : σ} {l : ι} :
    (M.guard G).step s l = some t ↔ G s l ∧ M.step s l = some t := by
  simp only [guard]
  split <;> simp_all

theorem run_of_guard {s t : σ} {ls : List ι} (h : (M.guard G).run s ls = some t) :
    M.run s ls = some t := by
  induction ls generalizing s with
  | nil => exact h
  | cons l ls ih =>
      obtain ⟨s', h₁, h₂⟩ := run_cons_inv _ h
      rw [run_cons, (guard_step.mp h₁).2]
      exact ih h₂

/-- A run under a condition is a run under a weaker one. -/
theorem run_of_guard_mono {G' : σ → ι → Prop} [∀ s l, Decidable (G' s l)]
    (hG : ∀ s l, G s l → G' s l) {s t : σ} {ls : List ι} (h : (M.guard G).run s ls = some t) :
    (M.guard G').run s ls = some t := by
  induction ls generalizing s with
  | nil => exact h
  | cons l ls ih =>
      obtain ⟨s', h₁, h₂⟩ := run_cons_inv _ h
      obtain ⟨hg, hs⟩ := guard_step.mp h₁
      rw [run_cons, guard_step.mpr ⟨hG s l hg, hs⟩]
      exact ih h₂

/-- A run whose labels all meet a condition. -/
theorem run_guard {C : ι → Prop} [∀ l, Decidable (C l)] {s t : σ} {ls : List ι} (hC : ∀ l ∈ ls, C l)
    (h : M.run s ls = some t) : (M.guard fun _ l => C l).run s ls = some t := by
  induction ls generalizing s with
  | nil => exact h
  | cons l ls ih =>
      obtain ⟨s', h₁, h₂⟩ := run_cons_inv _ h
      rw [run_cons, guard_step.mpr ⟨hC l List.mem_cons_self, h₁⟩]
      exact ih (fun k hk => hC k (List.mem_cons_of_mem l hk)) h₂

/-- The invariant rule for runs whose steps all meet the condition. -/
theorem guard_invariant {I : σ → Prop} (hstep : ∀ {s l t}, I s → G s l → M.step s l = some t → I t)
    {s t : σ} {ls : List ι} (h : (M.guard G).run s ls = some t) (hs : I s) : I t :=
  run_invariant (fun hi hst => hstep hi (guard_step.mp hst).1 (guard_step.mp hst).2) h hs

end Machine

end Tperf.Lib

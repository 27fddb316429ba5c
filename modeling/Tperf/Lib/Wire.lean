import Tperf.Lib.Machine
import Mathlib.Data.List.Basic

/-!
# A stream of frames behind a lock

A writer takes the lock, puts its frame on the stream in pieces, and gives the lock back with the last
of them. It may give up before the first piece. It may give up later only with the stream shut, so
that nobody writes behind a piece of a frame.
-/

namespace Tperf.Lib

universe u v

structure Wire (μ : Type u) (β : Type v) where
  out : List β
  /-- History: what has been written to the end. -/
  sent : List μ
  /-- Whose frame is being written, and how much of it is out. -/
  cur : Option (μ × Nat)
  shut : Bool

inductive WireLabel (μ : Type u)
  | take (m : μ)
  | put (k : Nat)
  | drop
  | shut

variable {μ : Type u} {β : Type v}

def wire (fits : μ → Bool) (frame : μ → List β) : Machine (Wire μ β) (WireLabel μ) where
  step s
    | .take m =>
        if s.cur.isNone && !s.shut && fits m then some { s with cur := some (m, 0) } else none
    | .put k =>
        match s.cur with
        | some (m, n) =>
            if k = 0 ∨ (frame m).length < n + k then none
            else if n + k < (frame m).length then
              some { s with out := s.out ++ ((frame m).drop n).take k, cur := some (m, n + k) }
            else
              some { s with
                out := s.out ++ ((frame m).drop n).take k
                sent := s.sent ++ [m]
                cur := none }
        | none => none
    | .drop =>
        match s.cur with
        | some (_, 0) => some { s with cur := none }
        | _ => none
    | .shut => if s.shut then none else some { s with cur := none, shut := true }

namespace Wire

def init : Wire μ β := ⟨[], [], none, false⟩

variable {fits : μ → Bool} {frame : μ → List β} {s t : Wire μ β}

/-! ## One step -/

/-- What a step does. -/
inductive Effect (fits : μ → Bool) (frame : μ → List β) (s t : Wire μ β) : Prop
  | take (m : μ) : s.cur = none → s.shut = false → fits m = true →
      t = { s with cur := some (m, 0) } → Effect fits frame s t
  | put (m : μ) (n k : Nat) : s.cur = some (m, n) → n + k < (frame m).length →
      t = { s with out := s.out ++ ((frame m).drop n).take k, cur := some (m, n + k) } →
      Effect fits frame s t
  | last (m : μ) (n : Nat) : s.cur = some (m, n) → n < (frame m).length →
      t = { s with out := s.out ++ (frame m).drop n, sent := s.sent ++ [m], cur := none } →
      Effect fits frame s t
  | drop (m : μ) : s.cur = some (m, 0) → t = { s with cur := none } → Effect fits frame s t
  | shut : s.shut = false → t = { s with cur := none, shut := true } → Effect fits frame s t

theorem effect {l : WireLabel μ} (h : (wire fits frame).step s l = some t) :
    Effect fits frame s t := by
  cases l with
  | take m =>
      simp only [wire] at h
      split at h
      · rename_i hc
        simp only [Bool.and_eq_true, Option.isNone_iff_eq_none, Bool.not_eq_true'] at hc
        exact .take m hc.1.1 hc.1.2 hc.2 (Option.some.inj h).symm
      · cases h
  | put k =>
      simp only [wire] at h
      split at h
      · rename_i m n hcur
        split at h
        · cases h
        · rename_i hk
          split at h
          · rename_i hlt
            exact .put m n k hcur hlt (Option.some.inj h).symm
          · rename_i hlt
            have hfull : ((frame m).drop n).take k = (frame m).drop n :=
              List.take_of_length_le (by rw [List.length_drop]; omega)
            rw [hfull] at h
            exact .last m n hcur (by omega) (Option.some.inj h).symm
      · cases h
  | drop =>
      simp only [wire] at h
      split at h
      · rename_i m hcur
        exact .drop m hcur (Option.some.inj h).symm
      · cases h
  | shut =>
      simp only [wire] at h
      split at h
      · cases h
      · rename_i hs
        exact .shut (Bool.eq_false_iff.mpr hs) (Option.some.inj h).symm

/-! ## Whole frames, and a piece of one more -/

/-- What is on the stream behind the last complete frame. -/
inductive Tail (fits : μ → Bool) (frame : μ → List β) (s : Wire μ β) : List β → Prop
  | empty : s.cur = none → Tail fits frame s []
  | open (m : μ) (n : Nat) : s.cur = some (m, n) → fits m = true → n < (frame m).length →
      Tail fits frame s ((frame m).take n)
  | torn (m : μ) (n : Nat) : s.shut = true → s.cur = none → fits m = true →
      n < (frame m).length → Tail fits frame s ((frame m).take n)

structure Framed (fits : μ → Bool) (frame : μ → List β) (s : Wire μ β) : Prop where
  sent : ∀ m ∈ s.sent, fits m = true
  out : ∃ rest, s.out = (s.sent.map frame).flatten ++ rest ∧ Tail fits frame s rest

theorem framed_init : Framed fits frame (init : Wire μ β) where
  sent := by simp [init]
  out := ⟨[], by simp [init], .empty rfl⟩

/-- While a frame is being written, the stream ends with what is out of it. -/
theorem Framed.current (h : Framed fits frame s) {m : μ} {n : Nat} (hcur : s.cur = some (m, n)) :
    s.out = (s.sent.map frame).flatten ++ (frame m).take n ∧ fits m = true := by
  obtain ⟨rest, hout, htail⟩ := h.out
  cases htail with
  | empty hn => rw [hcur] at hn; cases hn
  | «open» m' n' hc hfit _ => rw [hcur] at hc; cases hc; exact ⟨hout, hfit⟩
  | torn _ _ _ hn => rw [hcur] at hn; cases hn

theorem Framed.step (hf : ∀ m, frame m ≠ []) {l : WireLabel μ} (h : Framed fits frame s)
    (hs : (wire fits frame).step s l = some t) : Framed fits frame t := by
  cases effect hs with
  | take m hcur hopen hfit ht =>
      subst ht
      obtain ⟨rest, hout, htail⟩ := h.out
      have hrest : rest = [] := by
        cases htail with
        | empty _ => rfl
        | «open» _ _ hc => rw [hcur] at hc; cases hc
        | torn _ _ hshut => rw [hopen] at hshut; cases hshut
      exact ⟨h.sent, rest, hout,
        hrest ▸ .open m 0 rfl hfit (List.length_pos_iff.mpr (hf m))⟩
  | put m n k hcur hlt ht =>
      subst ht
      obtain ⟨hout, hfit⟩ := h.current hcur
      refine ⟨h.sent, (frame m).take (n + k), ?_, .open m (n + k) rfl hfit hlt⟩
      rw [hout, List.append_assoc, List.take_add]
  | last m n hcur hlt ht =>
      subst ht
      obtain ⟨hout, hfit⟩ := h.current hcur
      refine ⟨?_, [], ?_, .empty rfl⟩
      · intro m' hm'
        rcases List.mem_append.mp hm' with hm | hm
        · exact h.sent m' hm
        · rw [List.mem_singleton.mp hm]; exact hfit
      · simp [hout, List.append_assoc]
  | drop m hcur ht =>
      subst ht
      obtain ⟨hout, _⟩ := h.current hcur
      exact ⟨h.sent, [], by simpa using hout, .empty rfl⟩
  | shut _ ht =>
      subst ht
      obtain ⟨rest, hout, htail⟩ := h.out
      refine ⟨h.sent, rest, hout, ?_⟩
      cases htail with
      | empty _ => exact .empty rfl
      | «open» m n _ hfit hlt => exact .torn m n rfl rfl hfit hlt
      | torn m n _ _ hfit hlt => exact .torn m n rfl rfl hfit hlt

/-! ## What comes behind a piece of a frame -/

/-- The stream is at `base` and `n₀` or more of the frame of `m`, or behind that frame. -/
inductive Onward (frame : μ → List β) (base : List β) (m : μ) (n₀ : Nat) (t : Wire μ β) : Prop
  | within (n : Nat) : n₀ ≤ n → t.out = base ++ (frame m).take n →
      (t.cur = some (m, n) ∨ t.shut = true ∧ t.cur = none) → Onward frame base m n₀ t
  | behind : base ++ frame m <+: t.out → Onward frame base m n₀ t

theorem out_grows {l : WireLabel μ} (hs : (wire fits frame).step s l = some t) :
    s.out <+: t.out := by
  cases effect hs with
  | take _ _ _ _ ht => subst ht; exact List.prefix_rfl
  | put _ _ _ _ _ ht => subst ht; exact List.prefix_append _ _
  | last _ _ _ _ ht => subst ht; exact List.prefix_append _ _
  | drop _ _ ht => subst ht; exact List.prefix_rfl
  | shut _ ht => subst ht; exact List.prefix_rfl

theorem Onward.step {base : List β} {m : μ} {n₀ : Nat} (hn₀ : 0 < n₀) {l : WireLabel μ}
    (h : Onward frame base m n₀ s) (hs : (wire fits frame).step s l = some t) :
    Onward frame base m n₀ t := by
  cases h with
  | behind hb => exact .behind (hb.trans (out_grows hs))
  | within n hn hout hcur =>
      -- with the stream shut no step is left, so only the writer of `m` moves
      cases effect hs with
      | take _ hnone hopen _ _ =>
          rcases hcur with hc | ⟨hshut, _⟩
          · rw [hnone] at hc; cases hc
          · rw [hopen] at hshut; cases hshut
      | put m' n' k hc' hlt ht =>
          subst ht
          rcases hcur with hc | ⟨_, hc⟩
          · rw [hc] at hc'
            cases hc'
            refine .within (n + k) (Nat.le_add_right_of_le hn) ?_ (.inl rfl)
            rw [hout, List.append_assoc, List.take_add]
          · rw [hc] at hc'; cases hc'
      | last m' n' hc' hlt ht =>
          subst ht
          rcases hcur with hc | ⟨_, hc⟩
          · rw [hc] at hc'
            cases hc'
            refine .behind ?_
            simp only [hout, List.append_assoc, List.take_append_drop, List.prefix_rfl]
          · rw [hc] at hc'; cases hc'
      | drop m' hc' ht =>
          rcases hcur with hc | ⟨_, hc⟩
          · rw [hc] at hc'
            cases hc'
            exact absurd hn (Nat.not_le.mpr hn₀)
          · rw [hc] at hc'; cases hc'
      | shut hopen ht =>
          subst ht
          exact .within n hn hout (.inr ⟨rfl, rfl⟩)

/-- What follows `rest` stays within the frame, or the frame comes first. -/
theorem Onward.continues {base : List β} {m : μ} {n₀ : Nat} (h : Onward frame base m n₀ t) :
    ∃ q, t.out = base ++ (frame m).take n₀ ++ q ∧
      ((frame m).take n₀ ++ q <+: frame m ∨ frame m <+: (frame m).take n₀ ++ q) := by
  cases h with
  | within n hn hout _ =>
      have hq : (frame m).take n₀ ++ ((frame m).take n).drop n₀ = (frame m).take n := by
        rw [← Nat.min_eq_left hn, ← List.take_take, Nat.min_eq_left hn, List.take_append_drop]
      refine ⟨((frame m).take n).drop n₀, ?_, .inl ?_⟩
      · rw [hout, List.append_assoc, hq]
      · rw [hq]; exact List.take_prefix _ _
  | behind hb =>
      obtain ⟨r, hr⟩ := hb
      refine ⟨(frame m).drop n₀ ++ r, ?_, .inr ?_⟩
      · rw [← hr, List.append_assoc base _ (_ ++ _), ← List.append_assoc _ _ r,
          List.take_append_drop, List.append_assoc]
      · rw [← List.append_assoc, List.take_append_drop]; exact List.prefix_append _ _

/-! ## Runs -/

theorem run_framed (hf : ∀ m, frame m ≠ []) {ls : List (WireLabel μ)} (h : Framed fits frame s)
    (hs : (wire fits frame).run s ls = some t) : Framed fits frame t :=
  Machine.run_invariant (fun hi hst => hi.step hf hst) hs h

/-- On a framed stream, what comes behind a piece of a frame continues it. -/
theorem Framed.whole (h : Framed fits frame s) :
    ∃ rest, s.out = (s.sent.map frame).flatten ++ rest ∧
      (rest = [] ∨ ∃ m, fits m = true ∧ rest <+: frame m ∧ rest ≠ frame m ∧
        ∀ ks t, (wire fits frame).run s ks = some t →
          ∃ q, t.out = s.out ++ q ∧ (rest ++ q <+: frame m ∨ frame m <+: rest ++ q)) := by
  obtain ⟨rest, hout, htail⟩ := h.out
  refine ⟨rest, hout, ?_⟩
  have key : ∀ m n, fits m = true → n < (frame m).length → rest = (frame m).take n →
      (s.cur = some (m, n) ∨ s.shut = true ∧ s.cur = none) →
      rest = [] ∨ ∃ m, fits m = true ∧ rest <+: frame m ∧ rest ≠ frame m ∧
        ∀ ks t, (wire fits frame).run s ks = some t →
          ∃ q, t.out = s.out ++ q ∧ (rest ++ q <+: frame m ∨ frame m <+: rest ++ q) := by
    rintro m n hfit hlt rfl hcur
    rcases Nat.eq_zero_or_pos n with rfl | hpos
    · exact .inl rfl
    · refine .inr ⟨m, hfit, List.take_prefix _ _, ?_, fun ks t ht => ?_⟩
      · intro heq
        have := congrArg List.length heq
        rw [List.length_take_of_le (Nat.le_of_lt hlt)] at this
        omega
      · have hon : Onward frame (s.sent.map frame).flatten m n t :=
          Machine.run_invariant (fun hi hst => hi.step hpos hst) ht (.within n (Nat.le_refl n) hout hcur)
        rw [hout]
        exact hon.continues
  cases htail with
  | empty _ => exact .inl rfl
  | «open» m n hcur hfit hlt => exact key m n hfit hlt rfl (.inl hcur)
  | torn m n hshut hcur hfit hlt => exact key m n hfit hlt rfl (.inr ⟨hshut, hcur⟩)

end Wire

end Tperf.Lib

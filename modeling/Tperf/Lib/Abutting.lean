import Mathlib.Data.List.Chain

/-!
# Intervals that abut

Each interval of a list starts where the one before it stops. How many of them start within given bounds
is decided by the first one that starts after the lower bound.
-/

namespace Tperf.Lib

universe u

variable {α : Type u} {start stop : α → Nat}

/-- Everything after an interval starts at its stop or later. -/
theorem stop_le_start {a : α} {c : List α} (h : (a :: c).IsChain fun a b => start b = stop a)
    (hlen : ∀ b ∈ c, start b < stop b) : ∀ b ∈ c, stop a ≤ start b := by
  induction c generalizing a with
  | nil => simp
  | cons b c ih =>
      obtain ⟨hab, h⟩ := List.isChain_cons_cons.mp h
      intro x hx
      rcases List.mem_cons.mp hx with rfl | hx
      · exact hab.ge
      · have hb := hlen b List.mem_cons_self
        have hbx := ih h (fun y hy => hlen y (List.mem_cons_of_mem b hy)) x hx
        omega

/-- The first interval that starts at `lo` or later. -/
def FirstFrom (start : α → Nat) (lo : Nat) (c : List α) (a : α) : Prop :=
  a ∈ c ∧ lo ≤ start a ∧ ∀ b ∈ c, lo ≤ start b → start a ≤ start b

theorem firstFrom_cons_lt {lo : Nat} {a x : α} {c : List α} (h : start a < lo) :
    FirstFrom start lo (a :: c) x ↔ FirstFrom start lo c x := by
  constructor
  · rintro ⟨hx, hlo, hfirst⟩
    rcases List.mem_cons.mp hx with rfl | hx
    · omega
    · exact ⟨hx, hlo, fun b hb => hfirst b (List.mem_cons_of_mem a hb)⟩
  · rintro ⟨hx, hlo, hfirst⟩
    refine ⟨List.mem_cons_of_mem a hx, hlo, fun b hb hlob => ?_⟩
    rcases List.mem_cons.mp hb with rfl | hb
    · omega
    · exact hfirst b hb hlob

/-- Just one interval starts within the bounds when the first from the lower one starts before the upper
one and reaches it. -/
theorem length_between {lo hi : Nat} {c : List α} (h : c.IsChain fun a b => start b = stop a)
    (hlen : ∀ a ∈ c, start a < stop a) (hhi : lo < hi) (hafter : ∃ a ∈ c, hi ≤ start a) :
    (c.filter fun a => lo ≤ start a ∧ start a < hi).length = 1 ↔
      ∀ a, FirstFrom start lo c a → start a < hi ∧ hi ≤ stop a := by
  induction c with
  | nil => simp at hafter
  | cons a c ih =>
      have hlen' : ∀ b ∈ c, start b < stop b := fun b hb => hlen b (List.mem_cons_of_mem a hb)
      have hle := stop_le_start h hlen'
      have ha := hlen a List.mem_cons_self
      by_cases hlo : lo ≤ start a
      · -- `a` is the first one
        have hfirst : ∀ x, FirstFrom start lo (a :: c) x ↔ x = a := by
          intro x
          constructor
          · rintro ⟨hx, -, hmin⟩
            rcases List.mem_cons.mp hx with rfl | hx
            · rfl
            · have h₁ := hmin a List.mem_cons_self hlo
              have h₂ := hle x hx
              omega
          · rintro rfl
            refine ⟨List.mem_cons_self, hlo, fun b hb _ => ?_⟩
            rcases List.mem_cons.mp hb with rfl | hb
            · exact Nat.le_refl _
            · have := hle b hb
              omega
        simp only [hfirst, forall_eq]
        by_cases hup : start a < hi
        · rw [List.filter_cons_of_pos (by simp [hlo, hup]), List.length_cons]
          simp only [hup, true_and, Nat.add_eq_right, List.length_eq_zero_iff, List.filter_eq_nil_iff,
            decide_eq_true_eq, not_and, Nat.not_lt]
          constructor
          · intro hnone
            obtain ⟨b, hb, hbhi⟩ := hafter
            cases c with
            | nil =>
                obtain rfl := List.mem_singleton.mp hb
                omega
            | cons x c =>
                have hx := (List.isChain_cons_cons.mp h).1
                have := hnone x List.mem_cons_self (by omega)
                omega
          · intro hstop b hb _
            have := hle b hb
            omega
        · rw [List.filter_cons_of_neg (by simp [hup])]
          simp only [hup, false_and, iff_false]
          rw [List.filter_eq_nil_iff.mpr]
          · simp
          · intro b hb
            have := hle b hb
            simp only [decide_eq_true_eq, not_and]
            omega
      · rw [List.filter_cons_of_neg (by simp [hlo])]
        simp only [firstFrom_cons_lt (Nat.not_le.mp hlo)]
        refine ih h.tail hlen' ?_
        obtain ⟨b, hb, hbhi⟩ := hafter
        rcases List.mem_cons.mp hb with rfl | hb
        · omega
        · exact ⟨b, hb, hbhi⟩

end Tperf.Lib

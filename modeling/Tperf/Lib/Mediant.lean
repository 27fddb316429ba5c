import Mathlib.Algebra.BigOperators.Ring.List
import Mathlib.Algebra.Order.BigOperators.Group.List
import Mathlib.Algebra.Order.Field.Basic
import Mathlib.Order.WithBot

/-!
# Means between bounds

A quotient of sums lies between the quotients, and a mean between the values. The bounds are computed by
folds, from `⊤` down and from 0 up.
-/

namespace Tperf.Lib

universe u v

/-! ## Folds -/

section

variable {α : Type u} [LinearOrder α]

theorem foldl_min_le_init (m : α) (l : List α) : l.foldl min m ≤ m := by
  induction l generalizing m with
  | nil => exact le_refl m
  | cons r l ih => exact (ih (min m r)).trans (min_le_left m r)

theorem foldl_min_le {l : List α} {r : α} (h : r ∈ l) (m : α) : l.foldl min m ≤ r := by
  induction l generalizing m with
  | nil => cases h
  | cons x l ih =>
      rcases List.mem_cons.mp h with rfl | h
      · exact (foldl_min_le_init (min m r) l).trans (min_le_right m r)
      · exact ih h (min m x)

theorem foldl_min_mem (m : α) (l : List α) : l.foldl min m = m ∨ l.foldl min m ∈ l := by
  induction l generalizing m with
  | nil => exact .inl rfl
  | cons r l ih =>
      rcases ih (min m r) with h | h
      · rcases min_choice m r with hm | hm
        · exact .inl (h.trans hm)
        · rw [hm] at h
          exact .inr (by rw [List.foldl_cons, hm, h]; exact List.mem_cons_self)
      · exact .inr (List.mem_cons_of_mem r h)

theorem le_foldl_max {l : List α} {r : α} (h : r ∈ l) (m : α) : r ≤ l.foldl max m :=
  foldl_min_le (α := αᵒᵈ) h m

theorem foldl_max_mem (m : α) (l : List α) : l.foldl max m = m ∨ l.foldl max m ∈ l :=
  foldl_min_mem (α := αᵒᵈ) m l

/-- The least of some values, as a fold from infinity. -/
theorem foldl_min_top {l : List α} (h : l ≠ []) :
    ∃ r ∈ l, (l.map WithTop.some).foldl min (⊤ : WithTop α) = (r : WithTop α) ∧ ∀ x ∈ l, r ≤ x := by
  have hle : ∀ x ∈ l, (l.map WithTop.some).foldl min (⊤ : WithTop α) ≤ (x : WithTop α) := by
    intro x hx
    exact foldl_min_le (List.mem_map.mpr ⟨x, hx, rfl⟩) ⊤
  rcases foldl_min_mem (⊤ : WithTop α) (l.map WithTop.some) with hm | hm
  · obtain ⟨x, hx⟩ := List.exists_mem_of_ne_nil l h
    have := hle x hx
    rw [hm] at this
    exact absurd this (not_le.mpr (WithTop.coe_lt_top x))
  · obtain ⟨r, hr, he⟩ := List.mem_map.mp hm
    exact ⟨r, hr, he.symm, fun x hx => WithTop.coe_le_coe.mp (he ▸ hle x hx)⟩

end

/-! ## Quotients of sums -/

section

variable {α : Type u} [Field α] [LinearOrder α] [IsStrictOrderedRing α]

variable {ι : Type v} {f g : ι → α} {l : List ι} {m : α}

theorem mul_sum_le (h : ∀ i ∈ l, m * g i ≤ f i) : m * (l.map g).sum ≤ (l.map f).sum := by
  rw [← List.sum_map_mul_left]
  exact List.sum_le_sum h

theorem sum_le_mul (h : ∀ i ∈ l, f i ≤ m * g i) : (l.map f).sum ≤ m * (l.map g).sum := by
  rw [← List.sum_map_mul_left]
  exact List.sum_le_sum h

/-- The mean of some values is between any bounds of them. -/
theorem mean_mem {a b : α} {l : List α} (hne : l ≠ []) (ha : ∀ x ∈ l, a ≤ x) (hb : ∀ x ∈ l, x ≤ b) :
    a ≤ l.sum / (l.length : α) ∧ l.sum / (l.length : α) ≤ b := by
  have hlen : (0 : α) < l.length := by
    exact_mod_cast List.length_pos_iff.mpr hne
  constructor
  · rw [le_div_iff₀ hlen, mul_comm, ← nsmul_eq_mul]
    exact List.card_nsmul_le_sum l a ha
  · rw [div_le_iff₀ hlen, mul_comm, ← nsmul_eq_mul]
    exact List.sum_le_card_nsmul l b hb

end

end Tperf.Lib

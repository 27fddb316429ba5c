import Mathlib.Data.Finset.Prod

/-!
# Ordered pairs of different elements
-/

namespace Tperf.Lib

universe u

variable {α : Type u} [DecidableEq α] {l : List α} {ps : List (α × α)}

/-- Different pairs of different elements are at most as many as there are, and then all of them. -/
theorem offDiag_length (hl : l.Nodup) (hps : ps.Nodup) (h : ∀ p ∈ ps, p.1 ∈ l ∧ p.2 ∈ l ∧ p.1 ≠ p.2) :
    ps.length ≤ l.length * (l.length - 1) ∧
      (ps.length = l.length * (l.length - 1) ↔ ∀ a ∈ l, ∀ b ∈ l, a ≠ b → (a, b) ∈ ps) := by
  have hcard : l.toFinset.offDiag.card = l.length * (l.length - 1) := by
    rw [Finset.offDiag_card, List.toFinset_card_of_nodup hl, Nat.mul_sub_one]
  have hlen : ps.toFinset.card = ps.length := List.toFinset_card_of_nodup hps
  have hsub : ps.toFinset ⊆ l.toFinset.offDiag := by
    intro p hp
    simpa [Finset.mem_offDiag] using h p (List.mem_toFinset.mp hp)
  have hle := Finset.card_le_card hsub
  rw [hlen, hcard] at hle
  refine ⟨hle, fun heq a ha b hb hab => ?_, fun hall => ?_⟩
  · have hset : ps.toFinset = l.toFinset.offDiag :=
      Finset.eq_of_subset_of_card_le hsub (by rw [hlen, hcard, heq])
    rw [← List.mem_toFinset, hset, Finset.mem_offDiag]
    exact ⟨List.mem_toFinset.mpr ha, List.mem_toFinset.mpr hb, hab⟩
  · apply hle.antisymm
    rw [← hcard, ← hlen]
    apply Finset.card_le_card
    rintro ⟨a, b⟩ hp
    obtain ⟨ha, hb, hab⟩ := Finset.mem_offDiag.mp hp
    exact List.mem_toFinset.mpr (hall a (List.mem_toFinset.mp ha) b (List.mem_toFinset.mp hb) hab)

end Tperf.Lib

import Mathlib.Data.Int.CardIntervalMod

/-!
# Rotating schedules

A schedule whose entry `r` depends on `r % n` alone.
-/

namespace Tperf.Lib

universe u

variable {α : Type u} {p : α → Bool} {l : List α}

/-- What is said of the entries by their numbers is counted by the numbers. -/
theorem countP_eq_count {q : Nat → Prop} [DecidablePred q]
    (h : ∀ (r : Nat) (a : α), l[r]? = some a → (p a = true ↔ q r)) : l.countP p = l.length.count q := by
  induction l using List.reverseRecOn with
  | nil => rfl
  | append_singleton l a ih =>
      have hinit := ih fun r b hb => h r b (by
        rw [List.getElem?_append_left (List.getElem?_eq_some_iff.mp hb).1, hb])
      have hlast := h l.length a (by simp)
      rw [List.countP_append, hinit, List.length_append, List.length_singleton, Nat.count_succ, List.countP_singleton]
      simp [hlast]

/-- In a rotating schedule, what comes once in `n` entries has come equally often as everything else, up to
once. -/
theorem countP_rotation {n k : Nat} (hk : k < n)
    (h : ∀ (r : Nat) (a : α), l[r]? = some a → (p a = true ↔ r % n = k)) :
    l.length / n ≤ l.countP p ∧ l.countP p ≤ l.length / n + if l.length % n = 0 then 0 else 1 := by
  have hcount : l.countP p = l.length.count (· ≡ k [MOD n]) := by
    refine countP_eq_count fun r a ha => ?_
    rw [h r a ha, Nat.ModEq, Nat.mod_eq_of_lt hk]
  rw [hcount, Nat.count_modEq_card _ (Nat.zero_lt_of_lt hk), Nat.mod_eq_of_lt hk]
  split <;> split <;> omega

end Tperf.Lib

import Mathlib.Algebra.GroupWithZero.Nat

/-!
# Sums of differences

A list of items, each standing for the step between two neighbours of a list of readings.
-/

namespace Tperf.Lib

universe u v

variable {κ : Type u} {ω : Type v}

/-- The first `m` items add up to what lies between the readings 0 and `m`. -/
theorem sum_take_add {ws : List ω} {cs : List κ} {g : ω → Nat} {F : κ → Nat} {m : Nat} {c₀ c : κ}
    (h : ∀ k a b, k < m → cs[k]? = some a → cs[k + 1]? = some b →
      ∃ w, ws[k]? = some w ∧ g w + F a = F b)
    (h₀ : cs[0]? = some c₀) (hm : cs[m]? = some c) : ((ws.take m).map g).sum + F c₀ = F c := by
  induction m generalizing c with
  | zero =>
      rw [h₀, Option.some.injEq] at hm
      simp [hm]
  | succ m ih =>
      have hlt : m < cs.length := by
        have := (List.getElem?_eq_some_iff.mp hm).1
        omega
      have ha := List.getElem?_eq_getElem hlt
      obtain ⟨w, hw, hg⟩ := h m _ c (Nat.lt_succ_self m) ha hm
      have ih := ih (fun k a b hk => h k a b (Nat.lt_succ_of_lt hk)) ha
      rw [List.take_add_one, hw, Option.toList_some, List.map_append, List.map_singleton, List.sum_append,
        List.sum_singleton]
      omega

end Tperf.Lib

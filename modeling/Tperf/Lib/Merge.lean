import Mathlib.Data.List.Basic

/-!
# Interleavings
-/

namespace Tperf.Lib

universe u v

variable {α : Type u} {β : Type v}

/-- `l` consists of the elements of the lists `ls`, those of each list in its order. -/
inductive Merge : List (List α) → List α → Prop
  | nil (n : Nat) : Merge (List.replicate n []) []
  | snoc {ls : List (List α)} {l : List α} (i : Nat) (a : α) (hi : i < ls.length) (h : Merge ls l) :
      Merge (ls.modify i (· ++ [a])) (l ++ [a])

/-- One more list, which is still empty. -/
theorem Merge.grow {ls : List (List α)} {l : List α} (h : Merge ls l) : Merge (ls ++ [[]]) l := by
  induction h with
  | nil n =>
      rw [← List.replicate_succ']
      exact .nil (n + 1)
  | @snoc ls l i a hi h ih =>
      have hmodify : ls.modify i (· ++ [a]) ++ [[]] = (ls ++ [[]]).modify i (· ++ [a]) := by
        apply List.ext_getElem?
        intro j
        rcases Nat.lt_or_ge j ls.length with hlt | hge
        · rw [List.getElem?_append_left (by simpa using hlt), List.getElem?_modify, List.getElem?_modify,
            List.getElem?_append_left hlt]
        · have hne : ¬ i = j := by omega
          rw [List.getElem?_append_right (by simpa using hge), List.getElem?_modify,
            List.getElem?_append_right hge, List.length_modify]
          simp [hne]
      rw [hmodify]
      exact .snoc i a (by rw [List.length_append]; omega) ih

end Tperf.Lib

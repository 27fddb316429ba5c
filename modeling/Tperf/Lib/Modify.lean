import Mathlib.Algebra.BigOperators.Group.List.Basic

/-!
# One element of a list changes
-/

namespace Tperf.Lib

universe u v

variable {α : Type u} {β : Type v}

theorem forall_modify {P : α → Prop} {l : List α} {i : Nat} {f : α → α} (h : ∀ a ∈ l, P a)
    (hf : ∀ a, l[i]? = some a → P (f a)) : ∀ a ∈ l.modify i f, P a := by
  intro a ha
  obtain ⟨j, hj⟩ := List.mem_iff_getElem?.mp ha
  rw [List.getElem?_modify] at hj
  by_cases hij : i = j
  · subst hij
    simp only [if_true, Option.map_eq_map, Option.map_eq_some_iff] at hj
    obtain ⟨b, hb, rfl⟩ := hj
    exact hf b hb
  · simp only [hij, if_false, Option.map_eq_map, Option.map_id_fun', id_eq] at hj
    exact h a (List.mem_of_getElem? hj)

theorem modify_get {l : List α} {i j : Nat} {f : α → α} {a : α} (h : (l.modify i f)[j]? = some a) :
    ∃ b, l[j]? = some b ∧ a = if i = j then f b else b := by
  rw [List.getElem?_modify] at h
  obtain ⟨b, hb, rfl⟩ := Option.map_eq_some_iff.mp h
  refine ⟨b, hb, ?_⟩
  split <;> rfl

theorem mem_modify {l : List α} {i : Nat} {a : α} (h : l[i]? = some a) (f : α → α) : f a ∈ l.modify i f := by
  refine List.mem_of_getElem? (i := i) ?_
  rw [List.getElem?_modify, h]
  simp

theorem get_of_set {l : List α} {i j : Nat} {a a' b : α} (ha : l[i]? = some a)
    (h : (l.set i a')[j]? = some b) : ∃ c, l[j]? = some c ∧ b = if i = j then a' else c := by
  have hlt := (List.getElem?_eq_some_iff.mp ha).1
  by_cases hij : i = j
  · subst hij
    exact ⟨a, ha, by simpa [hlt] using h.symm⟩
  · exact ⟨b, by simpa [hij] using h, by simp [hij]⟩

/-- The sum over a list, apart from one element. -/
theorem sum_map_set [AddCommMonoid β] (g : α → β) {l : List α} {i : Nat} {a : α} (ha : l[i]? = some a) :
    ∃ r, (l.map g).sum = g a + r ∧ ∀ b, ((l.set i b).map g).sum = g b + r := by
  induction l generalizing i with
  | nil => cases ha
  | cons c l ih =>
      cases i with
      | zero =>
          obtain rfl : c = a := Option.some.inj ha
          exact ⟨(l.map g).sum, rfl, fun b => rfl⟩
      | succ i =>
          obtain ⟨r, hr, hset⟩ := ih (i := i) ha
          refine ⟨g c + r, ?_, fun b => ?_⟩
          · rw [List.map_cons, List.sum_cons, hr, add_left_comm]
          · rw [List.set_cons_succ, List.map_cons, List.sum_cons, hset b, add_left_comm]

/-- A sum over the list changes by what its one element adds. -/
theorem sum_map_modify [AddCommMonoid β] {g : α → β} {f : α → α} {d : β} {l : List α} {i : Nat} {a : α}
    (ha : l[i]? = some a) (hd : g (f a) = g a + d) :
    ((l.modify i f).map g).sum = (l.map g).sum + d := by
  have hset : l.modify i f = l.set i (f a) := by
    rw [List.modify_eq_set_getElem?, ha]
    rfl
  obtain ⟨r, hr, hsum⟩ := sum_map_set g ha
  rw [hset, hr, hsum, hd, add_right_comm]

theorem map_modify_eq {g : α → β} {f : α → α} {l : List α} {i : Nat} (h : ∀ a, l[i]? = some a → g (f a) = g a) :
    (l.modify i f).map g = l.map g := by
  apply List.ext_getElem?
  intro j
  rw [List.getElem?_map, List.getElem?_map, List.getElem?_modify]
  by_cases hij : i = j
  · subst hij
    cases ha : l[i]? with
    | none => rfl
    | some a => simp [h a ha]
  · simp [hij]

/-- A change that a function does not see. -/
theorem map_set_eq {f : α → β} {l : List α} {i : Nat} {a b : α} (ha : l[i]? = some a) (h : f b = f a) :
    (l.set i b).map f = l.map f := by
  obtain ⟨hi, rfl⟩ := List.getElem?_eq_some_iff.mp ha
  apply List.ext_getElem
  · simp
  · intro k _ _
    rw [List.getElem_map, List.getElem_map, List.getElem_set]
    split
    · rename_i hik; subst hik; exact h
    · rfl

end Tperf.Lib

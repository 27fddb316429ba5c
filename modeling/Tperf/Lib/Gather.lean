import Mathlib.Algebra.BigOperators.Group.List.Basic

/-!
# Gathering into an ordered map

A loop that gathers values under their keys in an ordered map. What it finds under a key depends only on
the values that came with this key, in the order they came.
-/

namespace Tperf.Lib
open Std

universe u v w

variable {κ : Type u} {α : Type v} {β : Type w} {cmp : κ → κ → Ordering}

/-- `f` says how a value changes what is found under its key. -/
def gather (f : Option β → α → β) (m : ExtTreeMap κ β cmp) (l : List (κ × α)) [TransCmp cmp] :
    ExtTreeMap κ β cmp :=
  l.foldl (fun m p => m.alter p.1 fun o => some (f o p.2)) m

variable [TransCmp cmp] {f : Option β → α → β}

@[simp] theorem gather_nil (m : ExtTreeMap κ β cmp) : gather f m [] = m := rfl

@[simp] theorem gather_cons (m : ExtTreeMap κ β cmp) (p : κ × α) (l : List (κ × α)) :
    gather f m (p :: l) = gather f (m.alter p.1 fun o => some (f o p.2)) l := rfl

theorem gather_append (m : ExtTreeMap κ β cmp) (l l' : List (κ × α)) :
    gather f m (l ++ l') = gather f (gather f m l) l' := List.foldl_append

/-- The values that come with the key `k`. -/
def valuesAt [DecidableEq κ] (k : κ) (l : List (κ × α)) : List α :=
  l.filterMap fun p => if p.1 = k then some p.2 else none

section

variable [DecidableEq κ]

@[simp] theorem valuesAt_nil (k : κ) : valuesAt k ([] : List (κ × α)) = [] := rfl

theorem valuesAt_cons (k : κ) (p : κ × α) (l : List (κ × α)) :
    valuesAt k (p :: l) = if p.1 = k then p.2 :: valuesAt k l else valuesAt k l := by
  by_cases h : p.1 = k <;> simp [valuesAt, h]

theorem mem_valuesAt {k : κ} {a : α} {l : List (κ × α)} : a ∈ valuesAt k l ↔ (k, a) ∈ l := by
  simp only [valuesAt, List.mem_filterMap, Option.ite_none_right_eq_some, Option.some.injEq]
  constructor
  · rintro ⟨⟨k', a'⟩, hp, rfl, rfl⟩
    exact hp
  · intro hp
    exact ⟨(k, a), hp, rfl, rfl⟩

theorem valuesAt_perm {k : κ} {l l' : List (κ × α)} (h : l.Perm l') :
    (valuesAt k l).Perm (valuesAt k l') := h.filterMap _

variable [LawfulEqCmp cmp]

theorem gather_get (m : ExtTreeMap κ β cmp) (l : List (κ × α)) (k : κ) :
    (gather f m l)[k]? = (valuesAt k l).foldl (fun o a => some (f o a)) m[k]? := by
  induction l generalizing m with
  | nil => rfl
  | cons p l ih =>
      rw [gather_cons, ih, ExtTreeMap.getElem?_alter, valuesAt_cons]
      by_cases h : p.1 = k
      · subst h
        rw [if_pos rfl, if_pos ReflCmp.compare_self, List.foldl_cons]
      · rw [if_neg h, if_neg fun he => h (LawfulEqCmp.eq_of_compare he)]

/-! ## Lists of values -/

/-- A value goes to the end of a list, `entry(k).or_default().push(a)`. -/
def push (o : Option (List α)) (a : α) : List α := o.getD [] ++ [a]

theorem foldl_push (o : Option (List α)) (l : List α) (h : o.isSome ∨ l ≠ []) :
    l.foldl (fun o a => some (push o a)) o = some (o.getD [] ++ l) := by
  induction l generalizing o with
  | nil =>
      obtain ⟨l, rfl⟩ := Option.isSome_iff_exists.mp (h.resolve_right fun hl => hl rfl)
      simp
  | cons a l ih =>
      rw [List.foldl_cons, ih (some (push o a)) (.inl rfl)]
      simp [push]

/-- Under a key stand the values that came with it. -/
theorem gather_push_get (l : List (κ × α)) (k : κ) :
    (gather push (∅ : ExtTreeMap κ (List α) cmp) l)[k]? =
      if valuesAt k l = [] then none else some (valuesAt k l) := by
  rw [gather_get, ExtTreeMap.getElem?_empty]
  split
  · rename_i h
    rw [h]; rfl
  · rename_i h
    rw [foldl_push none _ (.inr h)]
    rfl

/-! ## Sums -/

/-- `*entry(k).or_insert(0) += a`. -/
def plus [Zero α] [Add α] (o : Option α) (a : α) : α := o.getD 0 + a

theorem foldl_plus [AddMonoid α] (o : Option α) (l : List α) (h : o.isSome ∨ l ≠ []) :
    l.foldl (fun o a => some (plus o a)) o = some (o.getD 0 + l.sum) := by
  induction l generalizing o with
  | nil =>
      obtain ⟨a, rfl⟩ := Option.isSome_iff_exists.mp (h.resolve_right fun hl => hl rfl)
      simp
  | cons a l ih =>
      rw [List.foldl_cons, ih (some (plus o a)) (.inl rfl)]
      simp [plus, add_assoc]

/-- Under a key stands the sum of the values that came with it. -/
theorem gather_plus_get [AddMonoid α] (l : List (κ × α)) (k : κ) :
    (gather plus (∅ : ExtTreeMap κ α cmp) l)[k]? =
      if valuesAt k l = [] then none else some (valuesAt k l).sum := by
  rw [gather_get, ExtTreeMap.getElem?_empty]
  split
  · rename_i h
    rw [h]; rfl
  · rename_i h
    rw [foldl_plus none _ (.inr h)]
    simp

end

/-! ## The parts of a list -/

/-- A list consists of its parts for distinct keys. -/
theorem perm_flatMap_filter {α : Type v} {κ : Type u} [DecidableEq κ] (f : α → κ) {ks : List κ} (hks : ks.Nodup)
    {l : List α} (hl : ∀ x ∈ l, f x ∈ ks) : l.Perm (ks.flatMap fun k => l.filter fun x => f x = k) := by
  induction ks generalizing l with
  | nil =>
      obtain rfl : l = [] := List.eq_nil_iff_forall_not_mem.mpr fun x hx => List.not_mem_nil (hl x hx)
      exact List.Perm.refl []
  | cons k ks ih =>
      obtain ⟨hk, hks⟩ := List.nodup_cons.mp hks
      have hrest := ih (l := l.filter fun x => !decide (f x = k)) hks fun x hx => by
        obtain ⟨hx, hne⟩ := List.mem_filter.mp hx
        exact (List.mem_cons.mp (hl x hx)).resolve_left (by simpa using hne)
      have hparts : (ks.flatMap fun k' => (l.filter fun x => !decide (f x = k)).filter fun x => f x = k') =
          ks.flatMap fun k' => l.filter fun x => f x = k' := by
        refine List.flatMap_congr fun k' hk' => ?_
        rw [List.filter_filter]
        refine List.filter_congr fun x _ => ?_
        have hne : k' ≠ k := fun he => hk (he ▸ hk')
        by_cases hx : f x = k' <;> simp [hx, hne]
      rw [hparts] at hrest
      exact (List.filter_append_perm (fun x => decide (f x = k)) l).symm.trans (hrest.append_left _)

end Tperf.Lib

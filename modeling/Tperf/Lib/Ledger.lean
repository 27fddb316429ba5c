import Mathlib.Tactic.Abel
import Tperf.Lib.Modify

/-!
# A total and its parts

Tasks post every amount twice, first to the total, then to a part. What a task has posted to the
total only, it owes; what it has done and not posted at all is undone.
-/

namespace Tperf.Lib

universe u v

structure Ledger (M : Type u) where
  total : M
  parts : List M

namespace Ledger

variable {M : Type u} {τ : Type v} [AddCommMonoid M]

/-- The total is what the parts add up to, and `x`. -/
def Exceeds (b : Ledger M) (x : M) : Prop := b.total = b.parts.sum + x

/-- One move of one task, which owed `p` before and owes `p'` after it, whatever the others owe. -/
def Hands (b : Ledger M) (p : M) (b' : Ledger M) (p' : M) : Prop :=
  ∀ y, b.Exceeds (p + y) → b'.Exceeds (p' + y)

variable {b b' : Ledger M}

theorem Hands.refl (b : Ledger M) (p : M) : b.Hands p b p := fun _ h => h

theorem hands_total (b : Ledger M) (p d : M) : b.Hands p ⟨b.total + d, b.parts⟩ (p + d) := by
  intro y h
  have h : b.total = b.parts.sum + (p + y) := h
  change b.total + d = b.parts.sum + (p + d + y)
  rw [h, add_assoc, add_right_comm p]

theorem hands_part (b : Ledger M) {i : Nat} (hi : i < b.parts.length) (d : M) :
    b.Hands d ⟨b.total, b.parts.modify i (· + d)⟩ 0 := by
  intro y h
  have h : b.total = b.parts.sum + (d + y) := h
  have hsum : (b.parts.modify i (· + d)).sum = b.parts.sum + d := by
    have hmap := @sum_map_modify M M _ id (· + d) d b.parts i _ (List.getElem?_eq_getElem hi) rfl
    rwa [List.map_id, List.map_id] at hmap
  change b.total = (b.parts.modify i (· + d)).sum + (0 + y)
  rw [h, hsum, zero_add, add_assoc]

/-- A move of one task of many. -/
theorem Exceeds.pool {owes : τ → M} {tasks : List τ} {i : Nat} {w w' : τ} {y : M}
    (h : b.Exceeds ((tasks.map owes).sum + y)) (hw : tasks[i]? = some w)
    (hs : b.Hands (owes w) b' (owes w')) : b'.Exceeds (((tasks.set i w').map owes).sum + y) := by
  obtain ⟨r, hr, hset⟩ := sum_map_set owes hw
  rw [hr, add_assoc] at h
  rw [hset w', add_assoc]
  exact hs _ h

end Ledger

/-! ## What tasks have done and have not posted yet -/

/-- What is posted and what is still open make up the total. -/
def Posted {M : Type u} {τ : Type v} [AddCommMonoid M] (posted : M) (undone : τ → M) (tasks : List τ)
    (total : M) : Prop :=
  posted + (tasks.map undone).sum = total

namespace Posted

variable {M : Type u} {τ : Type v} [AddCancelCommMonoid M] {posted posted' total total' : M}
  {undone done : τ → M} {tasks : List τ}

/-- One task posts, or does something. -/
theorem set {i : Nat} {w w' : τ} (h : Posted posted undone tasks total) (hw : tasks[i]? = some w)
    (hs : posted' + undone w' + total = posted + undone w + total') :
    Posted posted' undone (tasks.set i w') total' := by
  obtain ⟨u, hu, hset⟩ := sum_map_set undone hw
  have h : posted + (undone w + u) = total := hu ▸ h
  change posted' + _ = _
  rw [hset]
  apply add_right_cancel (b := total)
  calc posted' + (undone w' + u) + total
      = posted' + undone w' + total + u := by abel
    _ = posted + (undone w + u) + total' := by rw [hs]; abel
    _ = total' + total := by rw [h, add_comm]

/-- The total is what the tasks have done. -/
theorem set_sum {i : Nat} {w w' : τ} (h : Posted posted undone tasks (tasks.map done).sum)
    (hw : tasks[i]? = some w) (hs : posted' + undone w' + done w = posted + undone w + done w') :
    Posted posted' undone (tasks.set i w') ((tasks.set i w').map done).sum := by
  obtain ⟨d, hd, hset⟩ := sum_map_set done hw
  apply h.set hw
  rw [hd, hset]
  calc posted' + undone w' + (done w + d)
      = posted' + undone w' + done w + d := by abel
    _ = posted + undone w + (done w' + d) := by rw [hs]; abel

/-- New tasks with nothing open. -/
theorem append {fresh : List τ} (h : Posted posted undone tasks total) (hu : ∀ w ∈ fresh, undone w = 0) :
    Posted posted undone (tasks ++ fresh) total := by
  have hu : (fresh.map undone).sum = 0 := List.sum_eq_zero (by simpa using hu)
  simpa only [Posted, List.map_append, List.sum_append, hu, add_zero] using h

theorem append_sum {fresh : List τ} (h : Posted posted undone tasks (tasks.map done).sum)
    (hu : ∀ w ∈ fresh, undone w = 0) (hd : ∀ w ∈ fresh, done w = 0) :
    Posted posted undone (tasks ++ fresh) ((tasks ++ fresh).map done).sum := by
  have hd : (fresh.map done).sum = 0 := List.sum_eq_zero (by simpa using hd)
  rw [List.map_append, List.sum_append, hd, add_zero]
  exact h.append hu

end Posted

end Tperf.Lib

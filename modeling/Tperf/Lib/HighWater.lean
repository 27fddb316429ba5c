/-!
# Gaps above a high-water mark

Numbers arrive one by one and the mark is one above the largest. An arrival above the mark skips the
numbers between; an arrival below it changes nothing.
-/

namespace Tperf.Lib.HighWater

/-- The mark after an arrival. -/
def advance (e : Option Nat) (s : Nat) : Option Nat := some (max (e.getD 0) (s + 1))

/-- The numbers an arrival skips. The first arrival skips none. -/
def skipped : Option Nat → Nat → List Nat
  | none, _ => []
  | some e, s => List.range' e (s - e)

def mark (e : Option Nat) (l : List Nat) : Option Nat := l.foldl advance e

/-- All the numbers skipped by the arrivals `l`, from the mark `e` on. -/
def skips : Option Nat → List Nat → List Nat
  | _, [] => []
  | e, s :: l => skipped e s ++ skips (advance e s) l

@[simp] theorem mark_nil (e : Option Nat) : mark e [] = e := rfl

@[simp] theorem mark_cons (e : Option Nat) (s : Nat) (l : List Nat) :
    mark e (s :: l) = mark (advance e s) l := rfl

theorem skips_append (e : Option Nat) (l m : List Nat) :
    skips e (l ++ m) = skips e l ++ skips (mark e l) m := by
  induction l generalizing e with
  | nil => rfl
  | cons s l ih => simp only [List.cons_append, skips, ih, mark_cons, List.append_assoc]

theorem skipped_length (e s : Nat) : (skipped (some e) s).length = s - e := by
  simp [skipped]

theorem mem_skipped {e s x : Nat} : x ∈ skipped (some e) s ↔ e ≤ x ∧ x < s := by
  simp only [skipped, List.mem_range'_1]
  omega

/-! ## The mark -/

/-- The mark is above every arrival. -/
theorem lt_mark {e : Option Nat} {l : List Nat} {k : Nat} (h : mark e l = some k) :
    (∀ s ∈ l, s < k) ∧ ∀ i, e = some i → i ≤ k := by
  induction l generalizing e with
  | nil => simp_all
  | cons s l ih =>
      obtain ⟨hl, he⟩ := ih h
      have hk := he _ rfl
      refine ⟨?_, ?_⟩
      · intro x hx
        rcases List.mem_cons.mp hx with rfl | hx
        · omega
        · exact hl x hx
      · rintro i rfl
        simp only [Option.getD_some] at hk
        omega

/-- The mark is one above an arrival, or where it was. -/
theorem mark_attained {e : Option Nat} {l : List Nat} {k : Nat} (h : mark e l = some k) :
    e = some k ∨ ∃ s ∈ l, k = s + 1 := by
  induction l generalizing e with
  | nil => exact .inl h
  | cons s l ih =>
      rcases ih h with he | ⟨x, hx, rfl⟩
      · simp only [advance, Option.some.injEq] at he
        cases e with
        | none => exact .inr ⟨s, List.mem_cons_self, by simp at he; omega⟩
        | some i =>
            simp only [Option.getD_some] at he
            by_cases hi : i = k
            · exact .inl (by rw [hi])
            · exact .inr ⟨s, List.mem_cons_self, by omega⟩
      · exact .inr ⟨x, List.mem_cons_of_mem s hx, rfl⟩

theorem mark_isSome {e : Option Nat} {l : List Nat} (h : e.isSome ∨ l ≠ []) : ∃ k, mark e l = some k := by
  induction l generalizing e with
  | nil => exact Option.isSome_iff_exists.mp (h.resolve_right fun hl => hl rfl)
  | cons s l ih => exact ih (.inl rfl)

/-! ## What is skipped -/

/-- A number that does not arrive is skipped exactly when the mark is not above it and something
larger arrives. -/
theorem mem_skips_some {e x : Nat} {l : List Nat} (hx : x ∉ l) :
    x ∈ skips (some e) l ↔ e ≤ x ∧ ∃ s ∈ l, x < s := by
  induction l generalizing e with
  | nil => simp [skips]
  | cons s l ih =>
      obtain ⟨hne, hl⟩ : x ≠ s ∧ x ∉ l := by simpa using hx
      simp only [skips, List.mem_append, mem_skipped, advance, Option.getD_some, ih hl,
        List.mem_cons, exists_eq_or_imp]
      grind

theorem skips_none_cons (s : Nat) (l : List Nat) : skips none (s :: l) = skips (some (s + 1)) l := by
  simp [skips, skipped, advance]

theorem le_of_mem_skips {e x : Nat} {l : List Nat} (h : x ∈ skips (some e) l) : e ≤ x := by
  induction l generalizing e with
  | nil => cases h
  | cons s l ih =>
      rcases List.mem_append.mp h with h | h
      · exact (mem_skipped.mp h).1
      · exact Nat.le_trans (Nat.le_max_left e (s + 1)) (ih h)

/-- No number is skipped twice. -/
theorem skips_nodup (e : Option Nat) (l : List Nat) : (skips e l).Nodup := by
  induction l generalizing e with
  | nil => exact List.nodup_nil
  | cons s l ih =>
      cases e with
      | none => rw [skips_none_cons]; exact ih (some (s + 1))
      | some e =>
          refine List.nodup_append.mpr ⟨List.nodup_range', ih _, ?_⟩
          rintro x hx y hy rfl
          have h₁ := (mem_skipped.mp hx).2
          have h₂ := le_of_mem_skips hy
          simp only [Option.getD_some] at h₂
          omega

/-- No arrival is more than one above all the earlier ones. -/
def Gapless (l : List Nat) : Prop :=
  ∀ pre s post, l = pre ++ s :: post → pre ≠ [] → ∃ p ∈ pre, s ≤ p + 1

theorem skips_eq_nil {e : Option Nat} {l : List Nat} :
    skips e l = [] ↔ ∀ pre s post, l = pre ++ s :: post → skipped (mark e pre) s = [] := by
  induction l generalizing e with
  | nil => simp [skips]
  | cons x l ih =>
      rw [skips, List.append_eq_nil_iff, ih]
      constructor
      · rintro ⟨h₁, h₂⟩ pre s post hl
        cases pre with
        | nil => cases hl; exact h₁
        | cons y pre => cases hl; exact h₂ pre s post rfl
      · intro h
        exact ⟨h [] x l rfl, fun pre s post hl => h (x :: pre) s post (by rw [hl]; rfl)⟩

theorem skips_eq_nil_iff (l : List Nat) : skips none l = [] ↔ Gapless l := by
  rw [skips_eq_nil]
  refine forall_congr' fun pre => forall_congr' fun s => forall_congr' fun post =>
    imp_congr_right fun _ => ?_
  cases pre with
  | nil => simp [skipped]
  | cons y pre =>
      obtain ⟨k, hk⟩ := mark_isSome (e := none) (l := y :: pre) (.inr (List.cons_ne_nil y pre))
      have hlt := (lt_mark hk).1
      rw [hk, skipped, List.range'_eq_nil_iff]
      rcases mark_attained hk with h | ⟨p, hp, rfl⟩
      · cases h
      · constructor
        · intro hs _
          exact ⟨p, hp, by omega⟩
        · intro h
          obtain ⟨q, hq, hs⟩ := h (List.cons_ne_nil y pre)
          have := hlt q hq
          omega

theorem Gapless.nil : Gapless [] := by
  intro pre s post h
  simp at h

theorem Gapless.of_append {l m : List Nat} (h : Gapless (l ++ m)) : Gapless l := by
  rintro pre s post rfl
  exact h pre s (post ++ m) (by simp)

theorem Gapless.concat {l : List Nat} {s : Nat} (h : Gapless l) (hs : l ≠ [] → ∃ p ∈ l, s ≤ p + 1) :
    Gapless (l ++ [s]) := by
  intro pre x post hl hne
  rcases List.eq_nil_or_concat post with rfl | ⟨post, y, rfl⟩
  · obtain ⟨rfl, rfl⟩ : l = pre ∧ s = x := by simpa using hl
    exact hs hne
  · rw [List.concat_eq_append, ← List.cons_append, ← List.append_assoc] at hl
    obtain ⟨rfl, _⟩ := List.append_inj' hl rfl
    exact h pre x post rfl hne

/-- At most as many numbers are skipped as lie below the largest arrival. -/
theorem skips_length_le {e : Option Nat} {l : List Nat} {k : Nat} (h : mark e l = some k) :
    (skips e l).length + e.getD 0 ≤ k := by
  induction l generalizing e with
  | nil => simp_all [skips]
  | cons s l ih =>
      have := ih h
      cases e with
      | none => simp [skips, skipped, advance] at this ⊢; omega
      | some i =>
          simp only [skips, List.length_append, skipped_length, advance, Option.getD_some] at this ⊢
          omega

/-! ## Records -/

/-- The arrivals that are not below the mark. -/
def records : Option Nat → List Nat → List Nat
  | _, [] => []
  | e, s :: l => (if e.getD 0 ≤ s then [s] else []) ++ records (advance e s) l

theorem le_of_mem_records {e x : Nat} {l : List Nat} (h : x ∈ records (some e) l) : e ≤ x := by
  induction l generalizing e with
  | nil => cases h
  | cons s l ih =>
      rcases List.mem_append.mp h with h | h
      · split at h
        · rename_i hs
          rw [List.mem_singleton.mp h]
          exact hs
        · cases h
      · exact Nat.le_trans (Nat.le_max_left e (s + 1)) (ih h)

/-- A record is larger than everything that arrived before it. -/
theorem mem_records_some {e x : Nat} {l : List Nat} :
    x ∈ records (some e) l ↔ e ≤ x ∧ ∃ pre post, l = pre ++ x :: post ∧ ∀ y ∈ pre, y < x := by
  induction l generalizing e with
  | nil => simp [records]
  | cons s l ih =>
      simp only [records, List.mem_append, Option.getD_some, advance, ih]
      constructor
      · rintro (h | ⟨hx, pre, post, rfl, hpre⟩)
        · split at h
          · rename_i hs
            obtain rfl := List.mem_singleton.mp h
            exact ⟨hs, [], l, rfl, by simp⟩
          · cases h
        · refine ⟨by omega, s :: pre, post, rfl, ?_⟩
          intro y hy
          rcases List.mem_cons.mp hy with rfl | hy
          · omega
          · exact hpre y hy
      · rintro ⟨he, pre, post, hl, hpre⟩
        cases pre with
        | nil =>
            obtain ⟨rfl, rfl⟩ := List.cons.inj hl
            exact .inl (by rw [if_pos he]; exact List.mem_singleton_self s)
        | cons y pre =>
            obtain ⟨rfl, rfl⟩ := List.cons.inj hl
            have hs := hpre s List.mem_cons_self
            exact .inr ⟨by omega, pre, post, rfl, fun y hy => hpre y (List.mem_cons_of_mem s hy)⟩

theorem mem_records {x : Nat} {l : List Nat} :
    x ∈ records none l ↔ ∃ pre post, l = pre ++ x :: post ∧ ∀ y ∈ pre, y < x := by
  have hzero : records none l = records (some 0) l := by cases l <;> rfl
  rw [hzero, mem_records_some]
  simp

/-- Between two marks a number is either a record or skipped. -/
theorem mem_skips_iff {e k x : Nat} {l : List Nat} (h : mark (some e) l = some k) :
    x ∈ skips (some e) l ↔ e ≤ x ∧ x < k ∧ x ∉ records (some e) l := by
  induction l generalizing e with
  | nil =>
      simp only [mark_nil, Option.some.injEq] at h
      simp only [skips, List.not_mem_nil, false_iff, not_and]
      omega
  | cons s l ih =>
      have hk := (lt_mark h).1 s List.mem_cons_self
      rw [mark_cons] at h
      simp only [skips, records, List.mem_append, mem_skipped, advance, Option.getD_some] at h ⊢
      rw [ih h]
      have hrec := fun hx => @le_of_mem_records (max e (s + 1)) x l hx
      by_cases hs : e ≤ s
      · rw [if_pos hs, List.mem_singleton]
        grind
      · rw [if_neg hs]
        simp only [List.not_mem_nil, false_or]
        grind

end Tperf.Lib.HighWater

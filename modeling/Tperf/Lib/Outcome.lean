import Mathlib.Data.List.Forall2

/-!
# How a call ends

A Rust call ends with a value, with an `Err`, or it panics (a failed `expect`, an index or a slice
out of range, a capacity overflow).
-/

namespace Tperf.Lib

universe u v

inductive Outcome (ε : Type u) (α : Type v)
  | ok (a : α)
  | err (e : ε)
  | panic
  deriving DecidableEq, Repr

namespace Outcome

variable {ε : Type u} {α β γ : Type v}

def bind : Outcome ε α → (α → Outcome ε β) → Outcome ε β
  | .ok a, f => f a
  | .err e, _ => .err e
  | .panic, _ => .panic

instance : Monad (Outcome ε) where
  pure := .ok
  bind := bind

@[simp] theorem ok_bind (a : α) (f : α → Outcome ε β) : (Outcome.ok a >>= f) = f a := rfl

@[simp] theorem err_bind (e : ε) (f : α → Outcome ε β) : (Outcome.err e >>= f) = .err e := rfl

@[simp] theorem panic_bind (f : α → Outcome ε β) : (Outcome.panic >>= f) = .panic := rfl

@[simp] theorem pure_eq_ok (a : α) : (pure a : Outcome ε α) = .ok a := rfl

theorem bind_eq_ok {x : Outcome ε α} {f : α → Outcome ε β} {b : β} :
    (x >>= f) = .ok b ↔ ∃ a, x = .ok a ∧ f a = .ok b := by
  cases x <;> simp

instance : LawfulMonad (Outcome ε) :=
  .mk' _ (fun x => by cases x <;> rfl)
    (fun _ _ => rfl) (fun x _ _ => by cases x <;> rfl)

/-- `map_err`, or anyhow's `context`. -/
def mapErr {ε' : Type u} (f : ε → ε') : Outcome ε α → Outcome ε' α
  | .ok a => .ok a
  | .err e => .err (f e)
  | .panic => .panic

theorem mapErr_eq_ok {ε' : Type u} {f : ε → ε'} {x : Outcome ε α} {a : α} :
    x.mapErr f = .ok a ↔ x = .ok a := by
  cases x <;> simp [mapErr]

/-- `l[i]`, which panics out of range. -/
def index (l : List α) (i : Nat) : Outcome ε α :=
  match l[i]? with
  | some a => .ok a
  | none => .panic

/-- `expect`: the value of an `Option`, or a panic. -/
def expect : Option α → Outcome ε α
  | some a => .ok a
  | none => .panic

theorem index_of_lt {l : List α} {i : Nat} (h : i < l.length) : index (ε := ε) l i = .ok l[i] := by
  simp only [index, List.getElem?_eq_getElem h]

/-- A loop whose body never fails on the elements is a `map`. -/
theorem mapM_ok {f : α → Outcome ε β} {g : α → β} {l : List α} (h : ∀ a ∈ l, f a = .ok (g a)) :
    l.mapM f = .ok (l.map g) := by
  induction l with
  | nil => rfl
  | cons a l ih =>
      have ih := ih fun b hb => h b (List.mem_cons_of_mem a hb)
      rw [List.mapM_cons, h a List.mem_cons_self, ok_bind, ih, ok_bind, pure_eq_ok, List.map_cons]

theorem mapM_eq_ok {f : α → Outcome ε β} {l : List α} {m : List β} :
    l.mapM f = .ok m ↔ List.Forall₂ (fun a b => f a = .ok b) l m := by
  induction l generalizing m with
  | nil => cases m <;> simp
  | cons a l ih =>
      simp only [List.mapM_cons, bind_eq_ok, ih, pure_eq_ok, Outcome.ok.injEq]
      constructor
      · rintro ⟨b, hb, m, hm, rfl⟩
        exact .cons hb hm
      · intro h
        cases h with
        | cons hb hm => exact ⟨_, hb, _, hm, rfl⟩

theorem exists_of_mapM {f : α → Outcome ε β} {l : List α} {m : List β} (h : l.mapM f = .ok m) {a : α}
    (ha : a ∈ l) : ∃ b, f a = .ok b := by
  replace h := mapM_eq_ok.mp h
  induction h with
  | nil => cases ha
  | cons hb _ ih =>
      rcases List.mem_cons.mp ha with rfl | ha
      · exact ⟨_, hb⟩
      · exact ih ha

theorem mem_of_mapM {f : α → Outcome ε β} {l : List α} {m : List β} (h : l.mapM f = .ok m) {b : β}
    (hb : b ∈ m) : ∃ a ∈ l, f a = .ok b := by
  replace h := mapM_eq_ok.mp h
  induction h with
  | nil => cases hb
  | @cons a b' l m ha _ ih =>
      rcases List.mem_cons.mp hb with rfl | hb
      · exact ⟨a, List.mem_cons_self, ha⟩
      · obtain ⟨c, hc, hfc⟩ := ih hb
        exact ⟨c, List.mem_cons_of_mem a hc, hfc⟩

theorem mapM_of_exists {f : α → Outcome ε β} {l : List α} (h : ∀ a ∈ l, ∃ b, f a = .ok b) :
    ∃ m, l.mapM f = .ok m := by
  induction l with
  | nil => exact ⟨[], rfl⟩
  | cons a l ih =>
      obtain ⟨b, hb⟩ := h a List.mem_cons_self
      obtain ⟨m, hm⟩ := ih fun c hc => h c (List.mem_cons_of_mem a hc)
      exact ⟨b :: m, by rw [List.mapM_cons, hb, ok_bind, hm]; rfl⟩

/-- A loop ends where its body first fails. -/
theorem mapM_first {f : α → Outcome ε β} {pre : List α} {a : α}
    (hpre : ∀ b ∈ pre, ∃ c, f b = .ok c) (post : List α) :
    (f a = .panic → (pre ++ a :: post).mapM f = .panic) ∧
      ∀ e, f a = .err e → (pre ++ a :: post).mapM f = .err e := by
  obtain ⟨m, hm⟩ := mapM_of_exists hpre
  rw [List.mapM_append, hm, ok_bind, List.mapM_cons]
  constructor
  · intro ha
    rw [ha]
    rfl
  · intro e ha
    rw [ha]
    rfl

theorem mapM_ok_or_first (f : α → Outcome ε β) (l : List α) :
    (∃ m, l.mapM f = .ok m) ∨
      ∃ pre a post, l = pre ++ a :: post ∧ (∀ b ∈ pre, ∃ c, f b = .ok c) ∧ ∀ c, f a ≠ .ok c := by
  induction l with
  | nil => exact .inl ⟨[], rfl⟩
  | cons a l ih =>
      by_cases ha : ∃ c, f a = .ok c
      · obtain ⟨c, hc⟩ := ha
        rcases ih with ⟨m, hm⟩ | ⟨pre, b, post, rfl, hpre, hb⟩
        · exact .inl ⟨c :: m, by rw [List.mapM_cons, hc, ok_bind, hm]; rfl⟩
        · refine .inr ⟨a :: pre, b, post, rfl, ?_, hb⟩
          intro d hd
          rcases List.mem_cons.mp hd with rfl | hd
          · exact ⟨c, hc⟩
          · exact hpre d hd
      · exact .inr ⟨[], a, l, rfl, by simp, fun c hc => ha ⟨c, hc⟩⟩

/-- A loop that extends `out` by the results of its body. -/
theorem foldlM_extend (f : α → Outcome ε (List β)) (out : List β) (l : List α) :
    l.foldlM (fun out a => f a >>= fun bs => .ok (out ++ bs)) out =
      l.mapM f >>= fun bss => .ok (out ++ bss.flatten) := by
  induction l generalizing out with
  | nil => simp
  | cons a l ih =>
      rw [List.foldlM_cons, List.mapM_cons]
      cases f a with
      | ok bs =>
          simp only [ok_bind, ih]
          cases l.mapM f <;> simp
      | err e => rfl
      | panic => rfl

end Outcome

end Tperf.Lib

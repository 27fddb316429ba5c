import Tperf.Config.Lemmas.Expand

/-!
# What substitution reaches
-/

namespace Tperf.Config
open Lib

variable {pat p start stop x : Str} {r : Range} {path : List Nat} {i : Nat}

/-! ## The kinds exclude each other -/

theorem Plain.not_found (h : Plain pat) : ¬ Found pat start r stop := by
  intro hf
  rw [Plain, hf.scan] at h
  cases h

theorem Plain.not_huge (h : Plain pat) : ¬ Huge pat := fun ⟨_, _, _, hf, _⟩ => h.not_found hf

theorem Plain.not_rejected (h : Plain pat) : ¬ Rejected pat := by
  rintro (he | ⟨_, _, _, hf, _⟩)
  · rw [Plain, he] at h
    cases h
  · exact h.not_found hf

theorem Rejected.not_accepted (h : Rejected pat) (hf : Found pat start r stop) : ¬ r.Accepted := by
  intro hr
  rcases h with h | ⟨start', r', stop', hf', hbounds⟩
  · rw [hf.scan] at h
    cases h
  · obtain ⟨-, rfl, -⟩ := hf.unique hf'
    exact absurd hr.2.2 (Nat.not_le.mpr (hbounds ⟨hr.1, hr.2.1⟩).1)

theorem Huge.not_accepted (h : Huge pat) (hf : Found pat start r stop) : ¬ r.Accepted := by
  intro hr
  obtain ⟨start', r', stop', hf', -, -, hsize⟩ := h
  obtain ⟨-, rfl, -⟩ := hf.unique hf'
  have := hr.2.2
  omega

theorem Huge.not_rejected (h : Huge pat) : ¬ Rejected pat := by
  obtain ⟨start, r, stop, hf, hfirst, hlast, hsize⟩ := h
  rintro (he | ⟨start', r', stop', hf', hbounds⟩)
  · rw [hf.scan] at he
    cases he
  · obtain ⟨-, rfl, -⟩ := hf.unique hf'
    have := (hbounds ⟨hfirst, hlast⟩).2
    omega

/-! ## Steps of substitution -/

theorem Reaches.stays (h : Reaches pat path p)
    (hno : ∀ start r stop, Found pat start r stop → ¬ r.Accepted) : path = [] ∧ p = pat := by
  cases h with
  | here => exact ⟨rfl, rfl⟩
  | there hf hr => exact absurd hr (hno _ _ _ hf)

theorem Reaches.cons_inv (h : Reaches pat (i :: path) p) (hf : Found pat start r stop) :
    ∃ x, r.names[i]? = some x ∧ Reaches (start ++ x ++ stop) path p := by
  cases h with
  | there hf' hr hx hrest =>
      obtain ⟨rfl, rfl, rfl⟩ := hf.unique hf'
      exact ⟨_, hx, hrest⟩

/-- Each substitution takes one opening brace away. -/
theorem Reaches.count (h : Reaches pat path p) : p.count '{' + path.length = pat.count '{' := by
  induction h with
  | here => rfl
  | there hf hr hx _ ih =>
      have := hf.count (List.mem_of_getElem? hx)
      rw [List.length_cons]
      omega

/-! ## The result of a call -/

/-- Nothing that substitution reaches is rejected or huge. -/
def Expands (pat : Str) : Prop := ∀ path p, Reaches pat path p → ¬ Rejected p ∧ ¬ Huge p

theorem Plain.expands (h : Plain pat) : Expands pat := by
  intro path p hreach
  obtain ⟨-, rfl⟩ := hreach.stays fun _ _ _ hf => absurd hf h.not_found
  exact ⟨h.not_rejected, h.not_huge⟩

theorem Expands.name (h : Expands pat) (hf : Found pat start r stop) (hr : r.Accepted)
    (hx : x ∈ r.names) : Expands (start ++ x ++ stop) := by
  obtain ⟨i, hi⟩ := List.mem_iff_getElem?.mp hx
  exact fun path p hreach => h _ _ (.there hf hr hi hreach)

theorem Found.expands (hf : Found pat start r stop) (hr : r.Accepted)
    (h : ∀ x ∈ r.names, Expands (start ++ x ++ stop)) : Expands pat := by
  intro path p hreach
  cases path with
  | nil =>
      cases hreach
      exact ⟨fun hrej => hrej.not_accepted hf hr, fun hhuge => hhuge.not_accepted hf hr⟩
  | cons i path =>
      obtain ⟨x, hx, hrest⟩ := hreach.cons_inv hf
      exact h x (List.mem_of_getElem? hx) path p hrest

theorem Expands.of_reaches (h : Expands pat) (hreach : Reaches pat path p) : Expands p := by
  induction hreach with
  | here => exact h
  | there hf hr hx _ ih => exact ih (h.name hf hr (List.mem_of_getElem? hx))

/-- A call returns hosts exactly when nothing on its way is rejected or huge. -/
theorem expandPattern_ok_iff (pat : Str) : (∃ hs, expandPattern pat = .ok hs) ↔ Expands pat := by
  induction pat using substitution_induction with
  | step pat ih =>
      cases kind pat with
      | plain h => exact ⟨fun _ => h.expands, fun _ => ⟨_, expandPattern_plain h⟩⟩
      | rejected h =>
          obtain ⟨e, he⟩ := expandPattern_rejected h
          rw [he]
          constructor
          · rintro ⟨hs, hok⟩
            cases hok
          · exact fun hexp => absurd h (hexp [] pat (.here pat)).1
      | huge h =>
          rw [expandPattern_huge h]
          constructor
          · rintro ⟨hs, hok⟩
            cases hok
          · exact fun hexp => absurd h (hexp [] pat (.here pat)).2
      | range start r stop hf hr =>
          rw [expandPattern_accepted hf hr, List.mapM_map]
          constructor
          · rintro ⟨hs, hok⟩
            obtain ⟨hss, hm, -⟩ := Outcome.bind_eq_ok.mp hok
            refine hf.expands hr fun x hx => (ih start r stop x hf hx).mp ?_
            exact Outcome.exists_of_mapM hm hx
          · intro hexp
            obtain ⟨hss, hm⟩ := Outcome.mapM_of_exists fun x hx =>
              (ih start r stop x hf hx).mpr (hexp.name hf hr hx)
            exact ⟨hss.flatten, Outcome.bind_eq_ok.mpr ⟨hss, hm, rfl⟩⟩

end Tperf.Config

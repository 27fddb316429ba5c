import Tperf.Config.Lemmas.Scan

/-!
# One substitution of `expand_pattern`
-/

namespace Tperf.Config
open Lib

/-! ## The numbers of a range -/

theorem fmtNumber_natCast (r : Range) (n : Nat) : fmtNumber r.width n = r.name n := by
  unfold fmtNumber Range.name
  split
  · exact fmtIntPad_natCast _ _
  · rename_i hw
    have hw : r.width = 0 := by omega
    rw [fmtInt_natCast, hw]
    simp

theorem Range.numbers_down (r : Range) (h : r.last < r.first) :
    ((List.range r.size).map fun k => r.last + k).reverse = r.numbers := by
  have hsize : r.size = r.first - r.last + 1 := by unfold Range.size; omega
  refine List.ext_getElem (by simp [Range.numbers]) fun k h₁ h₂ => ?_
  simp only [List.length_reverse, List.length_map, List.length_range] at h₁
  simp only [List.getElem_reverse, List.getElem_map, List.getElem_range, List.length_map,
    List.length_range, Range.numbers]
  rw [if_neg (by omega)]
  omega

theorem collectRange_eq (a b : Int) :
    collectRange a b = if 2 ^ 63 - 1 < 8 * (b - a + 1) then .panic
      else .ok ((List.range (b - a + 1).toNat).map fun k : Nat => a + (k : Int)) := by
  unfold collectRange
  congr 2
  simp only [bind_pure_comp, List.map_eq_map, List.map_map]
  rfl

theorem collect_numbers (r : Range) :
    (if (r.first : Int) ≤ r.last then collectRange r.first r.last
      else List.reverse <$> collectRange r.last r.first) =
      if 2 ^ 60 ≤ r.size then .panic else .ok (r.numbers.map Nat.cast) := by
  simp only [collectRange_eq]
  by_cases hle : r.first ≤ r.last
  · have hsize : ((r.last : Int) - r.first + 1).toNat = r.size := by unfold Range.size; omega
    rw [if_pos (by omega), hsize]
    by_cases hbig : 2 ^ 60 ≤ r.size
    · rw [if_pos (by omega), if_pos hbig]
    · rw [if_neg (by omega), if_neg hbig]
      simp only [Range.numbers, if_pos hle, List.map_map]
      rfl
  · have hsize : ((r.first : Int) - r.last + 1).toNat = r.size := by unfold Range.size; omega
    rw [if_neg (by omega), hsize]
    by_cases hbig : 2 ^ 60 ≤ r.size
    · rw [if_pos (by omega), if_pos hbig]
      rfl
    · rw [if_neg (by omega), if_neg hbig, ← r.numbers_down (by omega), List.map_reverse, List.map_map]
      have hcast : (Nat.cast ∘ fun k => r.last + k) = fun k : Nat => (r.last : Int) + k := by
        funext k
        simp
      rw [hcast]
      rfl

/-! ## One call -/

theorem slice_inner {pat start stop : Str} {r : Range} (h : Found pat start r stop) :
    slice pat (byteLen start + 1) (byteLen start + 1 + byteLen r.inner) =
      (.ok r.inner : Outcome HostError Str) := by
  have hslice := slice_append (ε := HostError) (start ++ ['{']) r.inner ('}' :: stop)
  have hone : '{'.utf8Size = 1 := by decide
  simp only [byteLen_append, byteLen_cons, byteLen_nil, hone, Nat.add_zero] at hslice
  rw [h.text, ← hslice]
  simp [Range.text]

theorem expandPattern_found {pat start stop : Str} {r : Range} (h : Found pat start r stop) :
    expandPattern pat =
      if 2 ^ 63 ≤ r.first then .err (.ellipsisStart pat)
      else if 2 ^ 63 ≤ r.last then .err (.ellipsisEnd pat)
      else if 2 ^ 60 ≤ r.size then .panic
      else if 10000 < r.size then .err (.tooManyHosts pat r.size)
      else (r.names.map fun x => start ++ x ++ stop).mapM expandPattern >>= fun hss =>
        .ok hss.flatten := by
  have ha : parseI64 r.a = if r.first < 2 ^ 63 then some (r.first : Int) else none :=
    parseI64_digits r.a_ne r.a_digits
  have hb : parseI64 r.b = if r.last < 2 ^ 63 then some (r.last : Int) else none :=
    parseI64_digits r.b_ne r.b_digits
  have hwidth : (if 1 < byteLen r.a ∧ r.a.head? = some '0' then byteLen r.a else 0) = r.width := by
    rw [byteLen_digits r.a_digits]
    rfl
  rw [expandPattern]
  split
  · rename_i hscan
    rw [h.scan] at hscan
    cases hscan
  · rename_i hscan
    rw [h.scan] at hscan
    cases hscan
  · rename_i hscan
    rw [h.scan] at hscan
    cases hscan
  · rename_i hscan
    rw [h.scan] at hscan
    cases hscan
    have hsplit : splitOnceDots r.inner = some (r.a, r.b) := splitOnceDots_digits r.a_digits r.b
    rw [slice_inner h, Outcome.ok_bind, hsplit]
    simp only [ha, hb, hwidth]
    by_cases hfirst : r.first < 2 ^ 63
    · simp only [if_pos hfirst, if_neg (Nat.not_le.mpr hfirst)]
      by_cases hlast : r.last < 2 ^ 63
      · simp only [if_pos hlast, if_neg (Nat.not_le.mpr hlast), collect_numbers]
        by_cases hhuge : 2 ^ 60 ≤ r.size
        · rw [if_pos hhuge, if_pos hhuge]
          rfl
        · rw [if_neg hhuge, if_neg hhuge, Outcome.ok_bind]
          have hlen : (r.numbers.map (Nat.cast : Nat → Int)).length = r.size := by
            simp [Range.numbers]
          rw [hlen, Outcome.foldlM_extend]
          simp only [List.nil_append, List.mapM_map, Range.names, List.map_map]
          have hbody : ((fun n : Int => expandPattern (start ++ fmtNumber r.width n ++ stop)) ∘ Nat.cast) =
              expandPattern ∘ ((fun x => start ++ x ++ stop) ∘ r.name) := by
            funext n
            simp [fmtNumber_natCast]
          rw [hbody]
      · simp only [if_neg hlast, if_pos (Nat.not_lt.mp hlast)]
    · simp only [if_neg hfirst, if_pos (Nat.not_lt.mp hfirst)]

/-! ## How a call ends -/

/-- A range that is accepted is substituted, number by number. -/
theorem expandPattern_accepted {pat start stop : Str} {r : Range} (h : Found pat start r stop)
    (hr : r.Accepted) :
    expandPattern pat = (r.names.map fun x => start ++ x ++ stop).mapM expandPattern >>= fun hss =>
      .ok hss.flatten := by
  obtain ⟨hfirst, hlast, hsize⟩ := hr
  rw [expandPattern_found h, if_neg (by omega), if_neg (by omega), if_neg (by omega), if_neg (by omega)]

theorem expandPattern_huge {pat : Str} (h : Huge pat) : expandPattern pat = .panic := by
  obtain ⟨start, r, stop, hfound, hfirst, hlast, hsize⟩ := h
  rw [expandPattern_found hfound, if_neg (by omega), if_neg (by omega), if_pos hsize]

theorem expandPattern_rejected {pat : Str} (h : Rejected pat) : ∃ e, expandPattern pat = .err e := by
  rcases h with h | ⟨start, r, stop, hfound, hbounds⟩
  · refine ⟨.unterminated pat, ?_⟩
    rw [expandPattern]
    split <;> simp_all
  · rw [expandPattern_found hfound]
    by_cases hfirst : r.first < 2 ^ 63
    · by_cases hlast : r.last < 2 ^ 63
      · obtain ⟨hmany, hsmall⟩ := hbounds ⟨hfirst, hlast⟩
        exact ⟨_, by rw [if_neg (by omega), if_neg (by omega), if_neg (by omega), if_pos hmany]⟩
      · exact ⟨_, by rw [if_neg (by omega), if_pos (by omega)]⟩
    · exact ⟨_, if_pos (by omega)⟩

/-- What a pattern is. -/
inductive Kind (pat : Str) : Prop
  | plain (h : Plain pat)
  | rejected (h : Rejected pat)
  | huge (h : Huge pat)
  | range (start : Str) (r : Range) (stop : Str) (found : Found pat start r stop) (accepted : r.Accepted)

theorem kind (pat : Str) : Kind pat := by
  rcases findRange_ends pat with h | h | ⟨start, r, stop, h⟩
  · exact .rejected (.inl h)
  · exact .plain h
  · by_cases hbounds : r.first < 2 ^ 63 ∧ r.last < 2 ^ 63
    · by_cases hmany : 10000 < r.size
      · by_cases hhuge : 2 ^ 60 ≤ r.size
        · exact .huge ⟨start, r, stop, h, hbounds.1, hbounds.2, hhuge⟩
        · exact .rejected (.inr ⟨start, r, stop, h, fun _ => ⟨hmany, Nat.not_le.mp hhuge⟩⟩)
      · exact .range start r stop h ⟨hbounds.1, hbounds.2, Nat.not_lt.mp hmany⟩
    · exact .rejected (.inr ⟨start, r, stop, h, fun hb => absurd hb hbounds⟩)

/-! ## One opening brace less -/

theorem Range.name_digits (r : Range) (n : Nat) {c : Char} (h : c ∈ r.name n) : c.isDigit = true := by
  rcases List.mem_append.mp h with h | h
  · rw [List.eq_of_mem_replicate h]
    rfl
  · exact toDigits_isDigit h

theorem Range.count_name {r : Range} {x : Str} (hx : x ∈ r.names) : x.count '{' = 0 := by
  obtain ⟨n, -, rfl⟩ := List.mem_map.mp hx
  exact List.count_eq_zero.mpr fun h => digit_ne (r.name_digits n h) rfl rfl

theorem Found.count {pat start stop x : Str} {r : Range} (h : Found pat start r stop)
    (hx : x ∈ r.names) : (start ++ x ++ stop).count '{' + 1 = pat.count '{' := by
  have hinner : r.inner.count '{' = 0 := List.count_eq_zero.mpr (r.not_mem_inner rfl (by decide))
  have hclose : List.count '{' ['}'] = 0 := rfl
  rw [h.text]
  simp only [Range.text, List.count_append, Range.count_name hx, List.count_cons_self, hinner, hclose]
  omega

/-- The rule for what is said of a pattern through its substitutions. -/
theorem substitution_induction {motive : Str → Prop}
    (step : ∀ pat, (∀ start r stop x, Found pat start r stop → x ∈ r.names → motive (start ++ x ++ stop)) →
      motive pat) (pat : Str) : motive pat := by
  induction hn : pat.count '{' using Nat.strongRecOn generalizing pat with
  | ind n ih =>
      refine step pat fun start r stop x hfound hx => ih _ ?_ _ rfl
      have := hfound.count hx
      omega

end Tperf.Config

import Tperf.Config.Lemmas.Reach

/-!
# Expansion ends, and leaves no range behind
-/

namespace Tperf.Config
open Lib

/-- A host that comes out is a string that substitution makes of the pattern, and no range is left in it. -/
theorem expanded_plain {pat h : Str} {hs : List Str} (hok : expandPattern pat = .ok hs) (hh : h ∈ hs) :
    Plain h ∧ ∃ path, Reaches pat path h := by
  induction pat using substitution_induction generalizing hs with
  | step pat ih =>
      cases kind pat with
      | plain hp =>
          rw [expandPattern_plain hp] at hok
          cases hok
          obtain rfl := List.mem_singleton.mp hh
          exact ⟨hp, [], .here h⟩
      | rejected hp =>
          obtain ⟨e, he⟩ := expandPattern_rejected hp
          rw [he] at hok
          cases hok
      | huge hp =>
          rw [expandPattern_huge hp] at hok
          cases hok
      | range start r stop hf hr =>
          rw [expandPattern_accepted hf hr, List.mapM_map] at hok
          obtain ⟨hss, hm, hflat⟩ := Outcome.bind_eq_ok.mp hok
          cases hflat
          obtain ⟨ts, hts, hmem⟩ := List.mem_flatten.mp hh
          obtain ⟨x, hx, hxs⟩ := Outcome.mem_of_mapM hm hts
          obtain ⟨hplain, path, hreach⟩ := ih start r stop x hf hx hxs hmem
          obtain ⟨i, hi⟩ := List.mem_iff_getElem?.mp hx
          exact ⟨hplain, i :: path, .there hf hr hi hreach⟩

/-- The slices that a call takes of its pattern succeed. -/
theorem scan_slices (p : Str) :
    findRange p ≠ .panic ∧ ∀ lo hi start stop, findRange p = .ok (some (lo, hi, start, stop)) →
      ∃ spec, slice p (lo + 1) hi = (.ok spec : Outcome HostError Str) := by
  rcases findRange_ends p with h | h | ⟨start, r, stop, h⟩
  · rw [h]
    exact ⟨by simp, by simp⟩
  · rw [h]
    exact ⟨by simp, by simp⟩
  · rw [h.scan]
    refine ⟨by simp, ?_⟩
    intro lo hi start' stop' hscan
    cases hscan
    exact ⟨r.inner, slice_inner h⟩

theorem expandPattern_reaches_fails {pat p : Str} {path : List Nat} (hreach : Reaches pat path p)
    (hfail : ∀ hs, expandPattern p ≠ .ok hs) : ∀ hs, expandPattern pat ≠ .ok hs := by
  intro hs hok
  have hexp := (expandPattern_ok_iff pat).mp ⟨hs, hok⟩
  obtain ⟨hs', hok'⟩ := (expandPattern_ok_iff p).mpr (hexp.of_reaches hreach)
  exact hfail hs' hok'

/-- A call passes on every string that it makes by substitution, and what it returns is what these calls
return. Substitution takes one opening brace away each time, so every chain of calls ends; no slice of a call
is off a boundary or out of range; in a host that comes out no range is left, and it expands to itself; and a
pattern has no hosts when a string that substitution makes of it has none, as one with an open brace. -/
theorem expansion_ends (pat : Str) :
    (∀ start r stop, Found pat start r stop → r.Accepted →
      expandPattern pat = (r.names.map fun x => start ++ x ++ stop).mapM expandPattern >>= fun hss =>
        .ok hss.flatten) ∧
    (∀ path p, Reaches pat path p →
      p.count '{' + path.length = pat.count '{' ∧ findRange p ≠ .panic ∧
        ∀ lo hi start stop, findRange p = .ok (some (lo, hi, start, stop)) →
          ∃ spec, slice p (lo + 1) hi = (.ok spec : Outcome HostError Str)) ∧
    (∀ hs h, expandPattern pat = .ok hs → h ∈ hs →
      findRange h = .ok none ∧ expandPattern h = .ok [h] ∧ ∃ path, Reaches pat path h) ∧
    (∀ path p, Reaches pat path p → (∀ hs, expandPattern p ≠ .ok hs) → ∀ hs, expandPattern pat ≠ .ok hs) ∧
    ∀ path p, Reaches pat path p → findRange p = .err (.unterminated p) → ∀ hs, expandPattern pat ≠ .ok hs := by
  refine ⟨fun start r stop hf hr => expandPattern_accepted hf hr,
    fun path p hreach => ⟨hreach.count, scan_slices p⟩, ?_,
    fun path p hreach => expandPattern_reaches_fails hreach, ?_⟩
  · intro hs h hok hh
    obtain ⟨hplain, hreach⟩ := expanded_plain hok hh
    exact ⟨hplain, expandPattern_plain hplain, hreach⟩
  · intro path p hreach hopen
    apply expandPattern_reaches_fails hreach
    intro hs hok
    obtain ⟨e, he⟩ := expandPattern_rejected (.inl hopen)
    rw [he] at hok
    cases hok

end Tperf.Config

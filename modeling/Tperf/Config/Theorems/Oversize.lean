import Mathlib.Data.Set.Card
import Tperf.Config.Lemmas.Reach
import Tperf.Config.Theorems.Expansion

/-!
# Patterns that say too many hosts
-/

namespace Tperf.Config
open Lib

variable {pat start stop : Str} {r : Range}

/-! ## Which call fails first -/

/-- A huge range comes before every rejected string. -/
def Crashes (pat : Str) : Prop :=
  ∃ path p, Reaches pat path p ∧ Huge p ∧
    ∀ path' p', Reaches pat path' p' → Rejected p' → path < path'

theorem Expands.not_crashes (h : Expands pat) : ¬ Crashes pat :=
  fun ⟨path, p, hreach, hhuge, _⟩ => (h path p hreach).2 hhuge

theorem Rejected.not_crashes (h : Rejected pat) : ¬ Crashes pat := by
  rintro ⟨path, p, hreach, hhuge, -⟩
  obtain ⟨-, rfl⟩ := hreach.stays fun _ _ _ hf => h.not_accepted hf
  exact hhuge.not_rejected h

theorem Huge.crashes (h : Huge pat) : Crashes pat := by
  refine ⟨[], pat, .here pat, h, fun path p hreach hrej => ?_⟩
  obtain ⟨-, rfl⟩ := hreach.stays fun _ _ _ hf => h.not_accepted hf
  exact absurd hrej h.not_rejected

/-- What does not expand and does not crash has a rejected string. -/
theorem exists_rejected (h : ¬ Expands pat) (hcrash : ¬ Crashes pat) :
    ∃ path p, Reaches pat path p ∧ Rejected p := by
  simp only [Expands, not_forall, Classical.not_and_iff_not_or_not, not_not] at h
  obtain ⟨path, p, hreach, hrej | hhuge⟩ := h
  · exact ⟨path, p, hreach, hrej⟩
  · by_contra hno
    simp only [not_exists, not_and] at hno
    exact hcrash ⟨path, p, hreach, hhuge, fun path' p' hr hrej => absurd hrej (hno path' p' hr)⟩

/-- The first name whose string does not expand decides. -/
theorem crashes_first {pre post : List Str} {x : Str} (hf : Found pat start r stop) (hr : r.Accepted)
    (hnames : r.names = pre ++ x :: post) (hpre : ∀ y ∈ pre, Expands (start ++ y ++ stop))
    (hx : ¬ Expands (start ++ x ++ stop)) : Crashes pat ↔ Crashes (start ++ x ++ stop) := by
  have hat : r.names[pre.length]? = some x := by rw [hnames]; simp
  -- no string is rejected before `x`
  have hbefore : ∀ {i path p}, Reaches pat (i :: path) p → Rejected p ∨ Huge p → pre.length ≤ i := by
    intro i path p hreach hbad
    obtain ⟨y, hy, hrest⟩ := hreach.cons_inv hf
    by_contra hlt
    have hmem : y ∈ pre := by
      rw [hnames, List.getElem?_append_left (Nat.not_le.mp hlt)] at hy
      exact List.mem_of_getElem? hy
    have := hpre y hmem path p hrest
    tauto
  have hroot : ∀ p, Reaches pat [] p → ¬ Rejected p ∧ ¬ Huge p := by
    intro p hreach
    cases hreach
    exact ⟨fun h => h.not_accepted hf hr, fun h => h.not_accepted hf hr⟩
  constructor
  · rintro ⟨path, p, hreach, hhuge, hfirst⟩
    by_contra hcrash
    obtain ⟨path', p', hreach', hrej⟩ := exists_rejected hx hcrash
    have hlt := hfirst _ _ (.there hf hr hat hreach') hrej
    cases path with
    | nil => exact (hroot p hreach).2 hhuge
    | cons i path =>
        have hle := hbefore hreach (.inr hhuge)
        rw [List.cons_lt_cons_iff] at hlt
        obtain rfl : i = pre.length := by omega
        obtain ⟨y, hy, hrest⟩ := hreach.cons_inv hf
        obtain rfl : y = x := Option.some.inj (hy.symm.trans hat)
        refine hcrash ⟨path, p, hrest, hhuge, fun path'' p'' hr'' hrej'' => ?_⟩
        have := hfirst _ _ (.there hf hr hat hr'') hrej''
        rw [List.cons_lt_cons_iff] at this
        rcases this with hlt | ⟨-, hlt⟩
        · exact absurd hlt (Nat.lt_irrefl _)
        · exact hlt
  · rintro ⟨path, p, hreach, hhuge, hfirst⟩
    refine ⟨pre.length :: path, p, .there hf hr hat hreach, hhuge, fun path' p' hreach' hrej => ?_⟩
    cases path' with
    | nil => exact absurd hrej (hroot p' hreach').1
    | cons i path' =>
        have hle := hbefore hreach' (.inl hrej)
        rw [List.cons_lt_cons_iff]
        rcases Nat.lt_or_eq_of_le hle with hlt | rfl
        · exact .inl hlt
        · obtain ⟨y, hy, hrest⟩ := hreach'.cons_inv hf
          obtain rfl : y = x := Option.some.inj (hy.symm.trans hat)
          exact .inr ⟨rfl, hfirst path' p' hrest hrej⟩

theorem expandPattern_panic_iff (pat : Str) : expandPattern pat = .panic ↔ Crashes pat := by
  induction pat using substitution_induction with
  | step pat ih =>
      cases kind pat with
      | plain h =>
          rw [expandPattern_plain h]
          exact ⟨(fun hp => by cases hp), fun hc => absurd hc h.expands.not_crashes⟩
      | rejected h =>
          obtain ⟨e, he⟩ := expandPattern_rejected h
          rw [he]
          exact ⟨(fun hp => by cases hp), fun hc => absurd hc h.not_crashes⟩
      | huge h => exact ⟨fun _ => h.crashes, fun _ => expandPattern_huge h⟩
      | range start r stop hf hr =>
          have hcall := expandPattern_accepted hf hr
          rw [List.mapM_map] at hcall
          rcases Outcome.mapM_ok_or_first (expandPattern ∘ fun x => start ++ x ++ stop) r.names with
            ⟨hss, hm⟩ | ⟨pre, x, post, hnames, hpre, hx⟩
          · have hok : expandPattern pat = .ok hss.flatten := by rw [hcall, hm]; rfl
            rw [hok]
            constructor
            · intro hp
              cases hp
            · intro hc
              exact absurd hc ((expandPattern_ok_iff pat).mp ⟨_, hok⟩).not_crashes
          · have hexp : ∀ y ∈ pre, Expands (start ++ y ++ stop) := fun y hy =>
              (expandPattern_ok_iff _).mp (hpre y hy)
            have hnot : ¬ Expands (start ++ x ++ stop) := fun h =>
              let ⟨hs, hok⟩ := (expandPattern_ok_iff _).mpr h
              hx hs hok
            have hmem : x ∈ r.names := by rw [hnames]; simp
            rw [crashes_first hf hr hnames hexp hnot, ← ih start r stop x hf hmem, hcall, hnames]
            obtain ⟨hpanic, herr⟩ := Outcome.mapM_first hpre post
            cases hcase : expandPattern (start ++ x ++ stop) with
            | ok hs => exact absurd hcase (hx hs)
            | err e =>
                rw [herr e hcase]
                exact ⟨(fun hp => by cases hp), fun hp => by cases hp⟩
            | panic =>
                rw [hpanic hcase]
                exact ⟨fun _ => rfl, fun _ => rfl⟩

/-! ## How many hosts -/

/-- The ways of picking a number for each range, leftmost first. -/
def picks (pat : Str) : Set (List Nat) := { path | ∃ p, Reaches pat path p ∧ Plain p }

theorem Plain.picks (h : Plain pat) : picks pat = {[]} := by
  ext path
  constructor
  · rintro ⟨p, hreach, -⟩
    exact (hreach.stays fun _ _ _ hf => absurd hf h.not_found).1
  · rintro rfl
    exact ⟨pat, .here pat, h⟩

theorem Found.mem_picks (hf : Found pat start r stop) (hr : r.Accepted) {path : List Nat} :
    path ∈ picks pat ↔
      ∃ i x rest, path = i :: rest ∧ r.names[i]? = some x ∧ rest ∈ picks (start ++ x ++ stop) := by
  constructor
  · rintro ⟨p, hreach, hplain⟩
    cases path with
    | nil =>
        cases hreach
        exact absurd hf hplain.not_found
    | cons i path =>
        obtain ⟨x, hx, hrest⟩ := hreach.cons_inv hf
        exact ⟨i, x, path, rfl, hx, p, hrest, hplain⟩
  · rintro ⟨i, x, rest, rfl, hx, p, hrest, hplain⟩
    exact ⟨p, .there hf hr hx hrest, hplain⟩

/-- The picks that begin with a number of `names`, whose places begin at `k`. -/
def picksFrom (start stop : Str) (k : Nat) (names : List Str) : Set (List Nat) :=
  { path | ∃ i x rest, path = (k + i) :: rest ∧ names[i]? = some x ∧ rest ∈ picks (start ++ x ++ stop) }

theorem picksFrom_cons (start stop : Str) (k : Nat) (x : Str) (names : List Str) :
    picksFrom start stop k (x :: names) =
      (k :: ·) '' picks (start ++ x ++ stop) ∪ picksFrom start stop (k + 1) names := by
  ext path
  constructor
  · rintro ⟨i, y, rest, rfl, hy, hrest⟩
    cases i with
    | zero =>
        cases hy
        exact .inl ⟨rest, hrest, rfl⟩
    | succ i => exact .inr ⟨i, y, rest, by rw [Nat.add_assoc, Nat.add_comm 1 i], hy, hrest⟩
  · rintro (⟨rest, hrest, rfl⟩ | ⟨i, y, rest, rfl, hy, hrest⟩)
    · exact ⟨0, x, rest, rfl, rfl, hrest⟩
    · exact ⟨i + 1, y, rest, by rw [Nat.add_assoc, Nat.add_comm 1 i], hy, hrest⟩

theorem picksFrom_encard {names : List Str} {hss : List (List Str)}
    (h : List.Forall₂ (fun x hs => (picks (start ++ x ++ stop)).encard = hs.length) names hss) (k : Nat) :
    (picksFrom start stop k names).encard = hss.flatten.length := by
  induction h generalizing k with
  | nil =>
      have hempty : picksFrom start stop k [] = ∅ := by
        ext path
        simp [picksFrom]
      rw [hempty]
      simp
  | @cons x hs names hss hx _ ih =>
      have hdisj : Disjoint ((k :: ·) '' picks (start ++ x ++ stop)) (picksFrom start stop (k + 1) names) := by
        rw [Set.disjoint_left]
        rintro _ ⟨rest, -, rfl⟩ ⟨i, y, rest', heq, -⟩
        rw [List.cons.injEq] at heq
        omega
      have hinj : Function.Injective (k :: · : List Nat → List Nat) := List.cons_injective
      rw [picksFrom_cons, Set.encard_union_eq hdisj, hinj.encard_image, hx, ih (k + 1)]
      simp

theorem picks_encard {hs : List Str} (hok : expandPattern pat = .ok hs) :
    (picks pat).encard = hs.length := by
  induction pat using substitution_induction generalizing hs with
  | step pat ih =>
      cases kind pat with
      | plain h =>
          rw [expandPattern_plain h] at hok
          cases hok
          rw [h.picks]
          simp
      | rejected h =>
          obtain ⟨e, he⟩ := expandPattern_rejected h
          rw [he] at hok
          cases hok
      | huge h =>
          rw [expandPattern_huge h] at hok
          cases hok
      | range start r stop hf hr =>
          rw [expandPattern_accepted hf hr, List.mapM_map] at hok
          obtain ⟨hss, hm, hflat⟩ := Outcome.bind_eq_ok.mp hok
          cases hflat
          have hpicks : picks pat = picksFrom start stop 0 r.names := by
            ext path
            rw [hf.mem_picks hr]
            simp [picksFrom]
          rw [hpicks]
          refine picksFrom_encard ?_ 0
          have hall := (List.forall₂_and_left (p := (· ∈ r.names)) r.names hss).mpr
            ⟨fun x hx => hx, Outcome.mapM_eq_ok.mp hm⟩
          exact hall.imp fun x ts hx => ih start r stop x hf hx.1 hx.2

/-! ## The limit -/

/-- The expansion gives at most 10,000 hosts or an error, and the error of the limit where the first range
has more numbers. -/
def Limited (pat : Str) : Prop :=
  ((∃ hs, expandPattern pat = .ok hs ∧ hs.length ≤ 10000) ∨ ∃ e, expandPattern pat = .err e) ∧
    ∀ start r stop, Found pat start r stop → r.first < 2 ^ 63 → r.last < 2 ^ 63 → 10000 < r.size →
      expandPattern pat = .err (.tooManyHosts pat r.size)

/-- No huge range comes before every rejected string; and a string is rejected, or there are at most 10,000
ways of picking a number for each range. -/
def WithinLimit (pat : Str) : Prop :=
  ¬ Crashes pat ∧ ((∃ path p, Reaches pat path p ∧ Rejected p) ∨ (picks pat).encard ≤ 10000)

/-- The limit is kept exactly by the patterns that have at most that many hosts or a range that is refused, and
no range before it that is too large for a vector. -/
theorem limited_iff (pat : Str) : Limited pat ↔ WithinLimit pat := by
  constructor
  · rintro ⟨hends, -⟩
    have hcrash : ¬ Crashes pat := by
      intro hc
      rw [(expandPattern_panic_iff pat).mpr hc] at hends
      rcases hends with ⟨hs, hok, -⟩ | ⟨e, he⟩
      · cases hok
      · cases he
    refine ⟨hcrash, ?_⟩
    rcases hends with ⟨hs, hok, hlen⟩ | ⟨e, he⟩
    · right
      rw [picks_encard hok]
      exact_mod_cast hlen
    · left
      refine exists_rejected (fun hexp => ?_) hcrash
      obtain ⟨hs, hok⟩ := (expandPattern_ok_iff pat).mpr hexp
      rw [he] at hok
      cases hok
  · rintro ⟨hcrash, hlimit⟩
    have hpanic : expandPattern pat ≠ .panic := fun hp => hcrash ((expandPattern_panic_iff pat).mp hp)
    constructor
    · cases hcase : expandPattern pat with
      | ok hs =>
          left
          refine ⟨hs, rfl, ?_⟩
          rcases hlimit with ⟨path, p, hreach, hrej⟩ | hcard
          · exact absurd hrej ((expandPattern_ok_iff pat).mp ⟨hs, hcase⟩ path p hreach).1
          · rw [picks_encard hcase] at hcard
            exact_mod_cast hcard
      | err e => exact .inr ⟨e, rfl⟩
      | panic => exact absurd hcase hpanic
    · intro start r stop hf hfirst hlast hmany
      have hcall := expandPattern_found hf
      rw [if_neg (by omega), if_neg (by omega)] at hcall
      by_cases hhuge : 2 ^ 60 ≤ r.size
      · exact absurd (hcall.trans (if_pos hhuge)) hpanic
      · rw [hcall, if_neg hhuge, if_pos hmany]

/-! ## Two patterns that are not -/

def hugePattern : Str := "\x7b0..9223372036854775807\x7d".toList

def squarePattern : Str := "\x7b1..101\x7d\x7b1..100\x7d".toList

theorem hugePattern_huge : Huge hugePattern := by
  let r : Range := ⟨"0".toList, "9223372036854775807".toList, by decide, by decide, by decide, by decide⟩
  have htext : hugePattern = [] ++ r.text ++ [] := by decide
  refine ⟨[], r, [], ?_, by decide, by decide, by decide⟩
  rw [htext]
  exact found_of_literal List.not_mem_nil r []

theorem squarePattern_expands :
    ∃ hs, expandPattern squarePattern = .ok hs ∧ hs.length = 10100 := by
  let r₁ : Range := ⟨"1".toList, "101".toList, by decide, by decide, by decide, by decide⟩
  let r₂ : Range := ⟨"1".toList, "100".toList, by decide, by decide, by decide, by decide⟩
  let p : Pattern := ⟨⟨[], by simp⟩, [(⟨r₁, by decide⟩, ⟨[], by simp⟩), (⟨r₂, by decide⟩, ⟨[], by simp⟩)]⟩
  have htext : squarePattern = p.text := by decide
  rw [htext]
  exact ⟨p.hosts, p.expand_text, (Pattern.product_length _ _).trans (by decide)⟩

/-- The limit is tested when the numbers have been collected, and for each range by itself. -/
theorem huge_range_panics :
    expandPattern hugePattern = .panic ∧ ¬ Limited hugePattern ∧
      (∃ hs, expandPattern squarePattern = .ok hs ∧ hs.length = 10100) ∧ ¬ Limited squarePattern := by
  have hpanic := expandPattern_huge hugePattern_huge
  obtain ⟨hs, hok, hlen⟩ := squarePattern_expands
  refine ⟨hpanic, ?_, ⟨hs, hok, hlen⟩, ?_⟩
  · rintro ⟨⟨hs', hok', -⟩ | ⟨e, he⟩, -⟩
    · rw [hpanic] at hok'
      cases hok'
    · rw [hpanic] at he
      cases he
  · rintro ⟨⟨hs', hok', hlen'⟩ | ⟨e, he⟩, -⟩
    · rw [hok] at hok'
      cases hok'
      omega
    · rw [hok] at he
      cases he

end Tperf.Config

import Tperf.Config.Pattern

/-!
# What the scan finds, in terms of ranges
-/

namespace Tperf.Config
open Lib

/-! ## The text of a range -/

theorem digit_ne {c d : Char} (hc : c.isDigit = true) (hd : d.isDigit = false) : c ≠ d := by
  rintro rfl
  rw [hc] at hd
  cases hd

theorem splitOnceDots_digits {a : Str} (h : a.all Char.isDigit = true) (b : Str) :
    splitOnceDots (a ++ '.' :: '.' :: b) = some (a, b) := by
  induction a with
  | nil => rfl
  | cons c a ih =>
      simp only [List.all_cons, Bool.and_eq_true] at h
      have hc : c ≠ '.' := digit_ne h.1 rfl
      simp [splitOnceDots, hc, ih h.2]

theorem splitOnceDots_some {s a b : Str} (h : splitOnceDots s = some (a, b)) :
    s = a ++ '.' :: '.' :: b := by
  induction s generalizing a with
  | nil => simp [splitOnceDots] at h
  | cons c s ih =>
      unfold splitOnceDots at h
      split at h
      · rename_i heq
        cases heq
        cases h
        rfl
      · rename_i heq
        cases heq
        obtain ⟨⟨a', b'⟩, hs, h⟩ := Option.map_eq_some_iff.mp h
        cases h
        rw [ih hs]
        rfl
      · rename_i heq
        cases heq

theorem isRangeInner_iff {s : Str} : isRangeInner s = true ↔ ∃ r : Range, s = r.inner := by
  constructor
  · intro h
    unfold isRangeInner at h
    split at h
    · cases h
    · rename_i a b hs
      split at h
      · cases h
      · rename_i hne
        simp only [Bool.or_eq_true, List.isEmpty_iff, not_or] at hne
        simp only [Bool.and_eq_true] at h
        exact ⟨⟨a, b, hne.1, hne.2, h.1, h.2⟩, splitOnceDots_some hs⟩
  · rintro ⟨r, rfl⟩
    have ha : r.a.isEmpty = false := by simp [r.a_ne]
    have hb : r.b.isEmpty = false := by simp [r.b_ne]
    simp [isRangeInner, Range.inner, splitOnceDots_digits r.a_digits, ha, hb, r.a_digits, r.b_digits]

theorem Range.not_mem_inner (r : Range) {c : Char} (hc : c.isDigit = false) (hdot : c ≠ '.') :
    c ∉ r.inner := by
  have ha : c ∉ r.a := fun h => digit_ne (List.all_eq_true.mp r.a_digits c h) hc rfl
  have hb : c ∉ r.b := fun h => digit_ne (List.all_eq_true.mp r.b_digits c h) hc rfl
  simp [Range.inner, ha, hb, hdot]

/-! ## How the scan ends -/

theorem findRangeFrom_ends {s : Str} {i : Nat} {rest : List UInt8} (hrest : rest = (utf8 s).drop i) :
    findRangeFrom s i rest = .err (.unterminated s) ∨ ∃ f, findRangeFrom s i rest = .ok f := by
  induction rest generalizing i with
  | nil => exact .inr ⟨none, rfl⟩
  | cons b rest ih =>
      have hnext : rest = (utf8 s).drop (i + 1) := by rw [← List.tail_drop, ← hrest]; rfl
      by_cases hb : b = '{'.toUInt8
      · subst hb
        cases hidx : rest.findIdx? (· == '}'.toUInt8) with
        | none => exact .inl (by simp [findRangeFrom, hidx])
        | some rel =>
            obtain ⟨start, suf, rfl, rfl, rfl⟩ := open_brace_split hrest.symm
            obtain ⟨inner, stop, rfl, rfl⟩ := close_brace_split hidx
            have hbraces := findRangeFrom_braces start inner stop _ hidx
            simp only [List.append_assoc, List.cons_append] at hbraces ih hnext ⊢
            rw [hbraces]
            split
            · exact .inr ⟨_, rfl⟩
            · exact ih hnext
      · rw [findRangeFrom, if_pos hb]
        exact ih hnext

theorem findRange_ends (s : Str) :
    findRange s = .err (.unterminated s) ∨ Plain s ∨ ∃ start r stop, Found s start r stop := by
  rcases findRangeFrom_ends (List.drop_zero (l := utf8 s)).symm with h | ⟨f, h⟩
  · exact .inl h
  · cases f with
    | none => exact .inr (.inl h)
    | some f =>
        obtain ⟨lo, hi, start, stop⟩ := f
        obtain ⟨inner, htext, hinner, rfl, rfl⟩ := findRange_some h
        obtain ⟨r, rfl⟩ := isRangeInner_iff.mp hinner
        exact .inr (.inr ⟨start, r, stop, by simp [htext, Range.text], h⟩)

theorem Found.unique {p start start' stop stop' : Str} {r r' : Range} (h : Found p start r stop)
    (h' : Found p start' r' stop') : start = start' ∧ r = r' ∧ stop = stop' := by
  have hscan := h.scan.symm.trans h'.scan
  simp only [Outcome.ok.injEq, Option.some.injEq, Prod.mk.injEq] at hscan
  obtain ⟨-, -, rfl, rfl⟩ := hscan
  have htext := h.text.symm.trans h'.text
  simp only [Range.text, List.append_assoc, List.append_cancel_left_eq, List.cons_append,
    List.cons.injEq, true_and] at htext
  have hinner : r.inner = r'.inner := List.append_cancel_right htext
  have hsplit : some (r.a, r.b) = some (r'.a, r'.b) := by
    rw [← splitOnceDots_digits r.a_digits, ← splitOnceDots_digits r'.a_digits]
    exact congrArg splitOnceDots hinner
  refine ⟨rfl, ?_, rfl⟩
  cases r
  cases r'
  cases hsplit
  rfl

/-! ## Text before the first brace -/

theorem findRangeFrom_skip {s : Str} {bs : List UInt8} (h : '{'.toUInt8 ∉ bs) (i : Nat)
    (rest : List UInt8) : findRangeFrom s i (bs ++ rest) = findRangeFrom s (i + bs.length) rest := by
  induction bs generalizing i with
  | nil => rfl
  | cons b bs ih =>
      rw [List.mem_cons, not_or] at h
      rw [List.cons_append, findRangeFrom, if_pos (Ne.symm h.1), ih h.2, List.length_cons]
      congr 1
      omega

theorem plain_of_literal {s : Str} (h : '{' ∉ s) : Plain s := by
  have hskip := findRangeFrom_skip (s := s) (not_mem_utf8 (b := '{'.toUInt8) (by decide) h) 0 []
  rw [List.append_nil] at hskip
  exact hskip

theorem findIdx_close {inner : Str} (h : '}' ∉ inner) (stop : Str) :
    (utf8 (inner ++ '}' :: stop)).findIdx? (· == '}'.toUInt8) = some (byteLen inner) := by
  have hnot := not_mem_utf8 (b := '}'.toUInt8) (by decide) h
  have hnone : (utf8 inner).findIdx? (· == '}'.toUInt8) = none := by
    rw [List.findIdx?_eq_none_iff]
    intro b hb
    exact beq_false_of_ne fun heq => hnot (heq ▸ hb)
  have hclose : utf8 ('}' :: stop) = '}'.toUInt8 :: utf8 stop := rfl
  rw [utf8_append, List.findIdx?_append, hnone, hclose, List.findIdx?_cons, length_utf8]
  simp

/-- The range behind a literal is the first one. -/
theorem found_of_literal {start : Str} (h : '{' ∉ start) (r : Range) (stop : Str) :
    Found (start ++ r.text ++ stop) start r stop := by
  have htext : start ++ r.text ++ stop = start ++ '{' :: r.inner ++ '}' :: stop := by simp [Range.text]
  refine ⟨rfl, ?_⟩
  have hbytes : utf8 (start ++ '{' :: r.inner ++ '}' :: stop) =
      utf8 start ++ '{'.toUInt8 :: utf8 (r.inner ++ '}' :: stop) := by
    rw [List.append_assoc, utf8_append]
    rfl
  have hskip := findRangeFrom_skip (s := start ++ '{' :: r.inner ++ '}' :: stop)
    (not_mem_utf8 (b := '{'.toUInt8) (by decide) h) 0 ('{'.toUInt8 :: utf8 (r.inner ++ '}' :: stop))
  have hidx := findIdx_close (r.not_mem_inner (c := '}') rfl (by decide)) stop
  rw [htext, findRange, hbytes, hskip, length_utf8, Nat.zero_add,
    findRangeFrom_braces start r.inner stop _ hidx, if_pos (isRangeInner_iff.mpr ⟨r, rfl⟩)]

end Tperf.Config

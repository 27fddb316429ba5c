import Mathlib.Data.List.DropRight
import Tperf.Lib.Text

/-!
# Reading parts of a string
-/

namespace Tperf.Lib

/-! ## White space -/

/-- The characters with the Unicode property `White_Space`. -/
def isWhite (c : Char) : Bool :=
  (9 ≤ c.toNat && c.toNat ≤ 13) || c.toNat == 0x20 || c.toNat == 0x85 || c.toNat == 0xA0 ||
    c.toNat == 0x1680 || (0x2000 ≤ c.toNat && c.toNat ≤ 0x200A) || c.toNat == 0x2028 ||
    c.toNat == 0x2029 || c.toNat == 0x202F || c.toNat == 0x205F || c.toNat == 0x3000

/-- `s.trim()`. -/
def trim (s : Str) : Str := (s.dropWhile isWhite).rdropWhile isWhite

theorem dropWhile_append_of_head {p : Char → Bool} {s t : Str} (hne : s ≠ [])
    (hhead : ∀ c, s.head? = some c → p c = false) : (s ++ t).dropWhile p = s ++ t := by
  obtain ⟨c, s, rfl⟩ := List.exists_cons_of_ne_nil hne
  rw [List.cons_append, List.dropWhile_cons_of_neg]
  rw [hhead c rfl]
  exact Bool.false_ne_true

theorem rdropWhile_append_of_last {p : Char → Bool} {s t : Str} (hne : t ≠ [])
    (hlast : ∀ c, t.getLast? = some c → p c = false) : (s ++ t).rdropWhile p = s ++ t := by
  rw [List.rdropWhile_eq_self_iff]
  intro hst
  rw [List.getLast_append_of_ne_nil _ hne, hlast _ (List.getLast?_eq_getLast_of_ne_nil hne)]
  exact Bool.false_ne_true

theorem rdropWhile_append_all {p : Char → Bool} {s t : Str} (h : ∀ c ∈ t, p c = true) :
    (s ++ t).rdropWhile p = s.rdropWhile p := by
  rw [List.rdropWhile, List.reverse_append, List.dropWhile_append_of_pos]
  · rfl
  · exact fun c hc => h c (List.mem_reverse.mp hc)

theorem trim_self {s : Str} (hhead : ∀ c, s.head? = some c → isWhite c = false)
    (hlast : ∀ c, s.getLast? = some c → isWhite c = false) : trim s = s := by
  cases s with
  | nil => rfl
  | cons c s =>
      have hdrop := dropWhile_append_of_head (t := []) (List.cons_ne_nil c s) hhead
      have hrdrop := rdropWhile_append_of_last (s := []) (List.cons_ne_nil c s) hlast
      rw [List.append_nil] at hdrop
      rw [trim, hdrop]
      exact hrdrop

theorem head_of_trim {s : Str} (h : trim s = s) {c : Char} (hc : s.head? = some c) :
    isWhite c = false := by
  have hlen := congrArg List.length h
  have hprefix := (List.rdropWhile_prefix isWhite (s.dropWhile isWhite)).length_le
  have hsuffix := List.dropWhile_suffix (l := s) isWhite
  have hdrop : s.dropWhile isWhite = s := by
    refine hsuffix.eq_of_length ?_
    have := hsuffix.length_le
    rw [trim] at hlen
    omega
  rw [List.dropWhile_eq_self_iff] at hdrop
  cases s with
  | nil => cases hc
  | cons d s =>
      obtain rfl := Option.some.inj hc
      exact Bool.eq_false_iff.mpr (hdrop (Nat.succ_pos _))

theorem digit_toNat {c : Char} (h : c.isDigit = true) : 48 ≤ c.toNat ∧ c.toNat ≤ 57 := by
  simp only [Char.isDigit, Bool.and_eq_true, decide_eq_true_eq] at h
  exact h

theorem isWhite_digit {c : Char} (h : c.isDigit = true) : isWhite c = false := by
  have := digit_toNat h
  simp only [isWhite, Bool.or_eq_false_iff, Bool.and_eq_false_iff, decide_eq_false_iff_not, beq_eq_false_iff_ne]
  omega

/-! ## Splits -/

/-- `s.split_once(c)`: at the first `c`. -/
def splitOnce (c : Char) : Str → Option (Str × Str)
  | [] => none
  | d :: s => if d = c then some ([], s) else (splitOnce c s).map fun p => (d :: p.1, p.2)

/-- `s.rsplit_once(c)`: at the last `c`. -/
def rsplitOnce (c : Char) (s : Str) : Option (Str × Str) :=
  (splitOnce c s.reverse).map fun p => (p.2.reverse, p.1.reverse)

/-- `s.find(c)`: the byte offset of the first `c`. -/
def find (c : Char) (s : Str) : Option Nat := (splitOnce c s).map fun p => byteLen p.1

theorem splitOnce_append {c : Char} {s : Str} (h : c ∉ s) (t : Str) :
    splitOnce c (s ++ c :: t) = some (s, t) := by
  induction s with
  | nil => simp [splitOnce]
  | cons d s ih =>
      rw [List.mem_cons, not_or] at h
      simp [splitOnce, Ne.symm h.1, ih h.2]

theorem splitOnce_some {c : Char} {s a b : Str} (h : splitOnce c s = some (a, b)) :
    s = a ++ c :: b ∧ c ∉ a := by
  induction s generalizing a with
  | nil => cases h
  | cons d s ih =>
      rw [splitOnce] at h
      split at h
      · rename_i hd
        subst hd
        cases h
        exact ⟨rfl, List.not_mem_nil⟩
      · rename_i hd
        obtain ⟨⟨a', b'⟩, hs, h⟩ := Option.map_eq_some_iff.mp h
        cases h
        obtain ⟨rfl, hmem⟩ := ih hs
        exact ⟨rfl, by simp [hmem, Ne.symm hd]⟩

theorem splitOnce_none {c : Char} {s : Str} (h : c ∉ s) : splitOnce c s = none := by
  cases hs : splitOnce c s with
  | none => rfl
  | some p =>
      obtain ⟨rfl, -⟩ := splitOnce_some hs
      simp at h

theorem rsplitOnce_append {c : Char} {t : Str} (h : c ∉ t) (s : Str) :
    rsplitOnce c (s ++ c :: t) = some (s, t) := by
  have hrev : (s ++ c :: t).reverse = t.reverse ++ c :: s.reverse := by simp
  rw [rsplitOnce, hrev, splitOnce_append (by simpa using h)]
  simp

theorem rsplitOnce_some {c : Char} {s a b : Str} (h : rsplitOnce c s = some (a, b)) :
    s = a ++ c :: b ∧ c ∉ b := by
  obtain ⟨⟨b', a'⟩, hs, h⟩ := Option.map_eq_some_iff.mp h
  cases h
  obtain ⟨hrev, hmem⟩ := splitOnce_some hs
  refine ⟨?_, by simpa using hmem⟩
  rw [← List.reverse_reverse s, hrev]
  simp

/-! ## Unsigned numbers -/

/-- `s.parse()` to an unsigned type of `bound` values: an optional `+`, then digits, in range. -/
def parseUnsigned (bound : Nat) : Str → Option Nat
  | '+' :: s => (parseDigits s).bind fun n => if n < bound then some n else none
  | s => (parseDigits s).bind fun n => if n < bound then some n else none

theorem digitsVal_toDigits (n : Nat) : digitsVal (Nat.toDigits 10 n) = n := Nat.ofDigitChars_ten_toDigits

theorem parseUnsigned_digits {bound : Nat} {s : Str} (hne : s ≠ []) (h : s.all Char.isDigit = true) :
    parseUnsigned bound s = if digitsVal s < bound then some (digitsVal s) else none := by
  have hparse : parseDigits s = some (digitsVal s) := by rw [parseDigits, if_pos ⟨hne, h⟩]
  unfold parseUnsigned
  split
  · simp at h
  · rw [hparse]
    rfl

theorem parseUnsigned_iff {bound n : Nat} {s : Str} :
    parseUnsigned bound s = some n ↔
      ∃ d, (s = d ∨ s = '+' :: d) ∧ d ≠ [] ∧ d.all Char.isDigit = true ∧ digitsVal d = n ∧ n < bound := by
  have hparse : ∀ d, ((parseDigits d).bind fun n => if n < bound then some n else none) = some n ↔
      d ≠ [] ∧ d.all Char.isDigit = true ∧ digitsVal d = n ∧ n < bound := by
    intro d
    rw [parseDigits]
    by_cases hd : d ≠ [] ∧ d.all Char.isDigit = true
    · rw [if_pos hd, Option.bind_some]
      by_cases hlt : digitsVal d < bound
      · rw [if_pos hlt, Option.some.injEq]
        exact ⟨fun h => ⟨hd.1, hd.2, h, h ▸ hlt⟩, fun h => h.2.2.1⟩
      · rw [if_neg hlt]
        exact ⟨(fun h => by cases h), fun h => absurd (h.2.2.1.symm ▸ h.2.2.2) hlt⟩
    · rw [if_neg hd]
      exact ⟨(fun h => by cases h), fun h => absurd ⟨h.1, h.2.1⟩ hd⟩
  unfold parseUnsigned
  split
  · rename_i s
    rw [hparse]
    constructor
    · intro h
      exact ⟨s, .inr rfl, h⟩
    · rintro ⟨d, hs | hs, h⟩
      · subst hs
        simp at h
      · cases hs
        exact h
  · rename_i hplus
    rw [hparse]
    constructor
    · intro h
      exact ⟨s, .inl rfl, h⟩
    · rintro ⟨d, hs | hs, h⟩
      · subst hs
        exact h
      · exact absurd hs (hplus d)

theorem parseUnsigned_none {bound : Nat} {s : Str} {c : Char} (hc : c ∈ s) (hdigit : c.isDigit = false)
    (hplus : s.head? ≠ some '+') : parseUnsigned bound s = none := by
  have hparse : parseDigits s = none := by
    rw [parseDigits, if_neg]
    rintro ⟨-, hall⟩
    rw [List.all_eq_true.mp hall c hc] at hdigit
    cases hdigit
  unfold parseUnsigned
  split
  · simp at hplus
  · rw [hparse]
    rfl

end Tperf.Lib

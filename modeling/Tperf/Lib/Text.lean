import Tperf.Lib.Outcome
import Mathlib.Algebra.Group.Int.Defs
import Mathlib.Algebra.GroupWithZero.Nat
import Mathlib.Data.List.Basic

/-!
# Strings

Rust's `str` and `String` as lists of Unicode scalar values, with their UTF-8 bytes, slices by byte
offset (which panic off a character boundary), and decimal integers.
-/

namespace Tperf.Lib

abbrev Str := List Char

/-! ## Bytes and slices -/

/-- `s.as_bytes()`. -/
def utf8 (s : Str) : List UInt8 := s.flatMap String.utf8EncodeChar

/-- `s.len()`. -/
def byteLen (s : Str) : Nat := (s.map Char.utf8Size).sum

@[simp] theorem utf8_nil : utf8 [] = [] := rfl

@[simp] theorem utf8_cons (c : Char) (s : Str) : utf8 (c :: s) = String.utf8EncodeChar c ++ utf8 s := rfl

theorem utf8_append (s t : Str) : utf8 (s ++ t) = utf8 s ++ utf8 t := List.flatMap_append

@[simp] theorem byteLen_nil : byteLen [] = 0 := rfl

@[simp] theorem byteLen_cons (c : Char) (s : Str) : byteLen (c :: s) = c.utf8Size + byteLen s := by
  simp [byteLen]

@[simp] theorem byteLen_append (s t : Str) : byteLen (s ++ t) = byteLen s + byteLen t := by
  simp [byteLen]

/-- The two parts of a string at a byte offset, if the offset is in range and on a boundary. -/
def splitAtByte : Str → Nat → Option (Str × Str)
  | s, 0 => some ([], s)
  | [], _ + 1 => none
  | c :: s, i + 1 =>
      if c.utf8Size ≤ i + 1 then (splitAtByte s (i + 1 - c.utf8Size)).map fun p => (c :: p.1, p.2)
      else none

theorem length_utf8 (s : Str) : (utf8 s).length = byteLen s := by
  induction s with
  | nil => rfl
  | cons c s ih => simp [String.length_utf8EncodeChar, ih]

theorem utf8_ne_nil {s : Str} (h : s ≠ []) : utf8 s ≠ [] := by
  cases s with
  | nil => exact absurd rfl h
  | cons c s =>
      intro hnil
      have hlen := congrArg List.length hnil
      rw [length_utf8, byteLen_cons, List.length_nil] at hlen
      have := c.utf8Size_pos
      omega

theorem splitAtByte_append (s t : Str) : splitAtByte (s ++ t) (byteLen s) = some (s, t) := by
  induction s with
  | nil => simp [splitAtByte]
  | cons c s ih =>
      obtain ⟨k, hk⟩ : ∃ k, c.utf8Size + byteLen s = k + 1 :=
        ⟨c.utf8Size + byteLen s - 1, by have := c.utf8Size_pos; omega⟩
      rw [List.cons_append, byteLen_cons, hk, splitAtByte, if_pos (by omega),
        show k + 1 - c.utf8Size = byteLen s by omega, ih]
      rfl

section Slice

variable {ε : Type}

/-- `&s[..j]`. -/
def sliceTo (s : Str) (j : Nat) : Outcome ε Str := Outcome.expect ((splitAtByte s j).map Prod.fst)

/-- `&s[i..]`. -/
def sliceFrom (s : Str) (i : Nat) : Outcome ε Str := Outcome.expect ((splitAtByte s i).map Prod.snd)

/-- `&s[i..j]`. -/
def slice (s : Str) (i j : Nat) : Outcome ε Str := sliceTo s j >>= fun t => sliceFrom t i

theorem sliceTo_append (s t : Str) : sliceTo (s ++ t) (byteLen s) = (.ok s : Outcome ε Str) := by
  simp [sliceTo, splitAtByte_append, Outcome.expect]

theorem sliceFrom_append (s t : Str) : sliceFrom (s ++ t) (byteLen s) = (.ok t : Outcome ε Str) := by
  simp [sliceFrom, splitAtByte_append, Outcome.expect]

theorem slice_append (s t u : Str) :
    slice (s ++ t ++ u) (byteLen s) (byteLen s + byteLen t) = (.ok t : Outcome ε Str) := by
  rw [slice, ← byteLen_append, sliceTo_append, Outcome.ok_bind, sliceFrom_append]

end Slice

/-! ## ASCII bytes stand for themselves -/

theorem utf8EncodeChar_ascii {c : Char} {b : UInt8} (hb : b ∈ String.utf8EncodeChar c)
    (hlt : b.toNat < 128) : String.utf8EncodeChar c = [b] ∧ c.toNat = b.toNat := by
  have hsmall : ∀ n, (UInt8.ofNat n).toNat = n % 256 := fun n => UInt8.toNat_ofNat' ..
  unfold String.utf8EncodeChar at hb ⊢
  simp only at hb ⊢
  split at hb
  · rename_i hv
    simp only [List.mem_singleton] at hb
    subst hb
    refine ⟨by rw [if_pos hv], ?_⟩
    rw [hsmall]; change c.val.toNat = _; omega
  · exfalso
    split at hb
    · simp only [List.mem_cons, List.not_mem_nil, or_false] at hb
      rcases hb with rfl | rfl <;> rw [hsmall] at hlt <;> omega
    · split at hb
      · simp only [List.mem_cons, List.not_mem_nil, or_false] at hb
        rcases hb with rfl | rfl | rfl <;> rw [hsmall] at hlt <;> omega
      · simp only [List.mem_cons, List.not_mem_nil, or_false] at hb
        rcases hb with rfl | rfl | rfl | rfl <;> rw [hsmall] at hlt <;> omega

theorem utf8EncodeChar_of_lt {c : Char} (h : c.toNat < 128) :
    String.utf8EncodeChar c = [UInt8.ofNat c.toNat] := by
  have hv : c.val.toNat ≤ 127 := Nat.le_of_lt_succ h
  unfold String.utf8EncodeChar
  simp only
  rw [if_pos hv]
  rfl

/-- An ASCII byte of a string is a character of it, and its offset a boundary. -/
theorem utf8_drop_ascii {s : Str} {i : Nat} {b : UInt8} {rest : List UInt8}
    (h : (utf8 s).drop i = b :: rest) (hlt : b.toNat < 128) :
    ∃ pre suf, s = pre ++ Char.ofNat b.toNat :: suf ∧ byteLen pre = i ∧ rest = utf8 suf := by
  induction s generalizing i with
  | nil => simp at h
  | cons c s ih =>
      rw [utf8_cons, List.drop_append, String.length_utf8EncodeChar] at h
      by_cases hi : i < c.utf8Size
      · have hmem : b ∈ String.utf8EncodeChar c := by
          have hne : (String.utf8EncodeChar c).drop i ≠ [] := by
            simp [String.length_utf8EncodeChar, hi]
          obtain ⟨x, xs, hx⟩ := List.exists_cons_of_ne_nil hne
          rw [hx, List.cons_append, List.cons.injEq] at h
          rw [← h.1]
          exact List.mem_of_mem_drop (hx ▸ List.mem_cons_self)
        obtain ⟨henc, hnat⟩ := utf8EncodeChar_ascii hmem hlt
        have hsize : c.utf8Size = 1 := by rw [← String.length_utf8EncodeChar, henc]; rfl
        obtain rfl : i = 0 := by omega
        refine ⟨[], s, ?_, rfl, ?_⟩
        · rw [← hnat, Char.ofNat_toNat]; rfl
        · rw [henc] at h; simpa using h.symm
      · have hdrop : (String.utf8EncodeChar c).drop i = [] := by
          simp [String.length_utf8EncodeChar]; omega
        rw [hdrop, List.nil_append] at h
        obtain ⟨pre, suf, rfl, hlen, hrest⟩ := ih h
        exact ⟨c :: pre, suf, rfl, by rw [byteLen_cons]; omega, hrest⟩

theorem not_mem_utf8 {s : Str} {b : UInt8} (hlt : b.toNat < 128) (h : Char.ofNat b.toNat ∉ s) :
    b ∉ utf8 s := by
  intro hb
  obtain ⟨i, hi, hbi⟩ := List.mem_iff_getElem.mp hb
  have hdrop : (utf8 s).drop i = b :: (utf8 s).drop (i + 1) := by
    rw [List.drop_eq_getElem_cons hi, hbi]
  obtain ⟨pre, suf, rfl, -, -⟩ := utf8_drop_ascii hdrop hlt
  simp at h

/-! ## Decimal integers -/

/-- The value of a digit string. -/
def digitsVal (s : Str) : Nat := s.foldl (fun n c => 10 * n + (c.toNat - '0'.toNat)) 0

def parseDigits (s : Str) : Option Nat :=
  if s ≠ [] ∧ s.all Char.isDigit then some (digitsVal s) else none

/-- `s.parse::<i64>()`: an optional sign, then digits, in range. -/
def parseI64 : Str → Option Int
  | '-' :: s => (parseDigits s).bind fun n => if n ≤ 2 ^ 63 then some (-(n : Int)) else none
  | '+' :: s => (parseDigits s).bind fun n => if n < 2 ^ 63 then some (n : Int) else none
  | s => (parseDigits s).bind fun n => if n < 2 ^ 63 then some (n : Int) else none

/-- `n.to_string()`. -/
def fmtInt (n : Int) : Str := if n < 0 then '-' :: Nat.toDigits 10 n.natAbs else Nat.toDigits 10 n.natAbs

/-- `format!("{n:0width$}")`: zeros between the sign and the digits. -/
def fmtIntPad (width : Nat) (n : Int) : Str :=
  let digits := Nat.toDigits 10 n.natAbs
  if n < 0 then '-' :: (List.replicate (width - 1 - digits.length) '0' ++ digits)
  else List.replicate (width - digits.length) '0' ++ digits

theorem utf8Size_of_isDigit {c : Char} (h : c.isDigit = true) : c.utf8Size = 1 := by
  have hlt : c.val ≤ 57 := by
    simp only [Char.isDigit, Bool.and_eq_true, decide_eq_true_eq] at h
    exact h.2
  have hle : c.val ≤ 127 := UInt32.le_trans hlt (by decide)
  simp [Char.utf8Size, hle]

theorem byteLen_digits {s : Str} (h : s.all Char.isDigit = true) : byteLen s = s.length := by
  induction s with
  | nil => rfl
  | cons c s ih =>
      simp only [List.all_cons, Bool.and_eq_true] at h
      rw [byteLen_cons, utf8Size_of_isDigit h.1, ih h.2, List.length_cons, Nat.add_comm]

/-- A digit string is a number without sign. -/
theorem parseI64_digits {s : Str} (hne : s ≠ []) (h : s.all Char.isDigit = true) :
    parseI64 s = if digitsVal s < 2 ^ 63 then some (digitsVal s : Int) else none := by
  have hparse : parseDigits s = some (digitsVal s) := by rw [parseDigits, if_pos ⟨hne, h⟩]
  unfold parseI64
  split
  · simp at h
  · simp at h
  · rw [hparse]
    rfl

theorem fmtInt_natCast (n : Nat) : fmtInt n = Nat.toDigits 10 n := by
  rw [fmtInt, if_neg (by omega), Int.natAbs_natCast]

theorem fmtIntPad_natCast (width n : Nat) :
    fmtIntPad width n = List.replicate (width - (Nat.toDigits 10 n).length) '0' ++ Nat.toDigits 10 n := by
  simp only [fmtIntPad]
  rw [if_neg (by omega), Int.natAbs_natCast]

theorem toDigits_isDigit {n : Nat} {c : Char} (h : c ∈ Nat.toDigits 10 n) : c.isDigit :=
  Nat.isDigit_of_mem_toDigits (by omega) (by omega) h

/-- Only digits and a sign are printed. -/
theorem mem_fmtInt {n : Int} {c : Char} (h : c ∈ fmtInt n) : c.isDigit ∨ c = '-' := by
  unfold fmtInt at h
  split at h
  · rcases List.mem_cons.mp h with rfl | h
    · exact .inr rfl
    · exact .inl (toDigits_isDigit h)
  · exact .inl (toDigits_isDigit h)

theorem mem_fmtIntPad {width : Nat} {n : Int} {c : Char} (h : c ∈ fmtIntPad width n) :
    c.isDigit ∨ c = '-' := by
  have hpad : ∀ {k : Nat}, c ∈ List.replicate k '0' ++ Nat.toDigits 10 n.natAbs → c.isDigit := by
    intro k hc
    rcases List.mem_append.mp hc with hc | hc
    · rw [List.eq_of_mem_replicate hc]; rfl
    · exact toDigits_isDigit hc
  unfold fmtIntPad at h
  simp only at h
  split at h
  · rcases List.mem_cons.mp h with rfl | h
    · exact .inr rfl
    · exact .inl (hpad h)
  · exact .inl (hpad h)

end Tperf.Lib

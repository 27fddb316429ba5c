import Mathlib.Algebra.Group.Nat.Defs
import Tperf.Lib.Text

/-!
# Numbers as digits of a base
-/

namespace Tperf.Lib

/-! ## A fixed number of digits -/

/-- The `k` low digits of `n` in base `b`, most significant first. -/
def beDigits (b : Nat) : Nat → Nat → List Nat
  | 0, _ => []
  | k + 1, n => beDigits b k (n / b) ++ [n % b]

/-- The number that the digits make. -/
def ofDigits (b : Nat) (ds : List Nat) : Nat := ds.foldl (fun n d => b * n + d) 0

@[simp] theorem beDigits_length (b k n : Nat) : (beDigits b k n).length = k := by
  induction k generalizing n with
  | zero => rfl
  | succ k ih => simp [beDigits, ih]

theorem beDigits_lt {b k n d : Nat} (hb : 0 < b) (h : d ∈ beDigits b k n) : d < b := by
  induction k generalizing n with
  | zero => simp [beDigits] at h
  | succ k ih =>
      simp only [beDigits, List.mem_append, List.mem_singleton] at h
      rcases h with h | h
      · exact ih h
      · rw [h]; exact Nat.mod_lt n hb

theorem ofDigits_append_singleton (b : Nat) (ds : List Nat) (d : Nat) :
    ofDigits b (ds ++ [d]) = b * ofDigits b ds + d := by
  simp [ofDigits]

theorem ofDigits_beDigits {b k n : Nat} (h : n < b ^ k) : ofDigits b (beDigits b k n) = n := by
  induction k generalizing n with
  | zero => simp only [Nat.pow_zero, Nat.lt_one_iff] at h; simp [beDigits, ofDigits, h]
  | succ k ih =>
      have hdiv : n / b < b ^ k := by
        rw [Nat.pow_succ'] at h
        exact Nat.div_lt_of_lt_mul h
      rw [beDigits, ofDigits_append_singleton, ih hdiv]
      exact Nat.div_add_mod n b

/-! ## Numerals -/

/-- What holds of the digits holds of all characters of a numeral. -/
theorem forall_mem_toDigits {b n : Nat} {p : Char → Prop} (hb : 1 < b) (h : ∀ d < b, p d.digitChar) :
    ∀ c ∈ Nat.toDigits b n, p c := by
  induction n using Nat.strongRecOn with
  | _ n ih =>
      rw [Nat.toDigits_eq_if hb]
      split
      · rename_i hlt
        simpa using h n hlt
      · rename_i hle
        intro c hc
        rcases List.mem_append.mp hc with hc | hc
        · exact ih (n / b) (Nat.div_lt_self (by omega) hb) c hc
        · rw [List.mem_singleton.mp hc]
          exact h _ (Nat.mod_lt n (by omega))

/-- Reading a numeral digit by digit gives its number back. -/
theorem foldl_toDigits {b : Nat} {f : Char → Nat} (hb : 1 < b) (h : ∀ d < b, f d.digitChar = d) (n : Nat) :
    (Nat.toDigits b n).foldl (fun n c => b * n + f c) 0 = n := by
  induction n using Nat.strongRecOn with
  | _ n ih =>
      rw [Nat.toDigits_eq_if hb]
      split
      · rename_i hlt
        simp [h n hlt]
      · rename_i hle
        rw [List.foldl_append, ih (n / b) (Nat.div_lt_self (by omega) hb), List.foldl_cons, List.foldl_nil,
          h _ (Nat.mod_lt n (by omega))]
        exact Nat.div_add_mod n b

/-- Only the numeral of zero starts with a zero. -/
theorem head_toDigits {b n : Nat} (hb : 1 < b) (hb' : b ≤ 16) (hn : 0 < n) :
    (Nat.toDigits b n).head? ≠ some '0' := by
  have hdigit : ∀ d < 16, 0 < d → d.digitChar ≠ '0' := by decide
  induction n using Nat.strongRecOn with
  | _ n ih =>
      rw [Nat.toDigits_eq_if hb]
      split
      · rename_i hlt
        simpa using hdigit n (by omega) hn
      · rename_i hle
        rw [List.head?_append_of_ne_nil _ Nat.toDigits_ne_nil]
        exact ih (n / b) (Nat.div_lt_self (by omega) hb) (Nat.div_pos (by omega) (by omega))

/-- What is read of a numeral that other characters follow. -/
theorem takeWhile_numeral {p : Char → Bool} {s r : List Char} (hs : ∀ c ∈ s, p c = true)
    (hr : ∀ c, r.head? = some c → p c = false) : (s ++ r).takeWhile p = s := by
  rw [List.takeWhile_append_of_pos hs]
  cases r with
  | nil => simp
  | cons c r => simp [hr c rfl]

end Tperf.Lib

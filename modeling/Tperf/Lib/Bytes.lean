import Mathlib.Algebra.Group.Nat.Defs

/-!
# Big-endian bytes, and writing into a buffer
-/

namespace Tperf.Lib

/-! ## Big-endian numbers -/

/-- The `k` low bytes of `n`, most significant first. -/
def beBytes : Nat → Nat → List UInt8
  | 0, _ => []
  | k + 1, n => beBytes k (n / 256) ++ [UInt8.ofNat n]

def ofBe (bs : List UInt8) : Nat := bs.foldl (fun n b => 256 * n + b.toNat) 0

@[simp] theorem beBytes_length (k n : Nat) : (beBytes k n).length = k := by
  induction k generalizing n with
  | zero => rfl
  | succ k ih => simp [beBytes, ih]

theorem ofBe_append_singleton (bs : List UInt8) (b : UInt8) :
    ofBe (bs ++ [b]) = 256 * ofBe bs + b.toNat := by
  simp [ofBe]

/-- Reading back gives the number modulo `256 ^ k`. -/
theorem ofBe_beBytes (k n : Nat) : ofBe (beBytes k n) = n % 256 ^ k := by
  induction k generalizing n with
  | zero => simp [beBytes, ofBe, Nat.mod_one]
  | succ k ih =>
      have hpow : 256 ^ (k + 1) = 256 * 256 ^ k := Nat.pow_succ'
      have hlow : (UInt8.ofNat n).toNat = n % 256 := UInt8.toNat_ofNat'
      rw [beBytes, ofBe_append_singleton, ih, hlow, hpow, Nat.mod_mul]
      omega

theorem ofBe_beBytes_of_lt {k n : Nat} (h : n < 256 ^ k) : ofBe (beBytes k n) = n := by
  rw [ofBe_beBytes, Nat.mod_eq_of_lt h]

/-! ## Writing into a buffer -/

/-- `buf[i..i + src.len()].copy_from_slice(src)`. -/
def splice (buf : List UInt8) (i : Nat) (src : List UInt8) : List UInt8 :=
  buf.take i ++ src ++ buf.drop (i + src.length)

theorem splice_length {buf src : List UInt8} {i : Nat} (h : i + src.length ≤ buf.length) :
    (splice buf i src).length = buf.length := by
  simp only [splice, List.length_append, List.length_take, List.length_drop]
  omega

/-- Writing behind a prefix that is already in place. -/
theorem splice_append {pre rest src : List UInt8} {i : Nat} (h : pre.length = i) :
    splice (pre ++ rest) i src = pre ++ src ++ rest.drop src.length := by
  subst h
  simp [splice, List.drop_append]

end Tperf.Lib

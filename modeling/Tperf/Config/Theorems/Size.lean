import Tperf.Config.Lemmas.Size

/-!
# Which sizes are read exactly
-/

namespace Tperf.Config
open Lib

/-! ## The product on the unit path -/

/-- `num * mul` for a natural `num`, when it is finite. -/
def product (n f : ℕ) : ℕ := F64.rounded (F64.rounded n * f)

theorem u64MaxAsF64_eq : u64MaxAsF64 = .finite (2 ^ 64) := by decide +kernel

theorem checked_finite (s : Str) (r : ℕ) :
    checked s (.finite r) =
      if 2 ^ 64 < r then .err (.outOfRange s) else .ok (UInt64.ofNat (min r (2 ^ 64 - 1))) := by
  have hlt : u64MaxAsF64.lt (.finite r) = true ↔ 2 ^ 64 < r := by
    rw [u64MaxAsF64_eq, F64.lt, decide_eq_true_eq]
    exact_mod_cast Iff.rfl
  rw [checked]
  by_cases hr : 2 ^ 64 < r
  · rw [if_pos (.inr (hlt.mpr hr)), if_pos hr]
  · rw [if_neg, if_neg hr, F64.round_natCast, F64.toU64]
    · by_cases hmax : r < 2 ^ 64
      · rw [if_pos (by exact_mod_cast hmax), Nat.floor_natCast, Nat.min_eq_left (by omega)]
      · rw [if_neg (by exact_mod_cast hmax), Nat.min_eq_right (by omega)]
        rfl
    · rw [hlt]
      exact fun h => h.elim (fun h => by cases h) hr

theorem fits_two_pow (k : ℕ) : F64.Fits (2 ^ k) := ⟨1, k, by decide, by rw [Nat.one_mul]⟩

theorem checked_product (s : Str) (n : ℕ) {f : ℕ} (hf : 0 < f) :
    checked s ((F64.ofRat n).mul (.finite f)) =
      if 2 ^ 64 < product n f then .err (.outOfRange s)
      else .ok (UInt64.ofNat (min (product n f) (2 ^ 64 - 1))) := by
  have hpow : 2 ^ 64 < 2 ^ 1024 := Nat.pow_lt_pow_right (by decide) (by decide)
  have hlarge : ∀ {k : ℕ}, 2 ^ 1024 ≤ k → 2 ^ 64 < F64.rounded k := by
    intro k hk
    have := F64.rounded_mono hk
    rw [(fits_two_pow 1024).rounded] at this
    exact Nat.lt_of_lt_of_le hpow this
  rw [F64.ofRat_natCast]
  by_cases hn : F64.rounded n < 2 ^ 1024
  · have hmul : (F64.finite (F64.rounded n)).mul (.finite f) = F64.ofRat ((F64.rounded n * f : ℕ) : ℚ) := by
      rw [F64.mul]
      push_cast
      rfl
    rw [if_pos hn, hmul, F64.ofRat_natCast]
    by_cases hv : F64.rounded (F64.rounded n * f) < 2 ^ 1024
    · rw [if_pos hv]
      exact checked_finite s _
    · rw [if_neg hv, product, if_pos (Nat.lt_of_lt_of_le hpow (Nat.not_lt.mp hv))]
      rfl
  · have hle : 2 ^ 1024 ≤ F64.rounded n * f := Nat.le_trans (Nat.not_lt.mp hn) (Nat.le_mul_of_pos_right _ hf)
    rw [if_neg hn, product, if_pos (hlarge hle)]
    rfl

/-! ## The factors -/

theorem factor_mem {name : Str} {f : ℕ} (h : (name, f) ∈ units) :
    f ∈ [1, 1000, 1024, 1000 ^ 2, 1024 ^ 2, 1000 ^ 3, 1024 ^ 3] := by
  have hall : ∀ q ∈ units, q.2 ∈ [1, 1000, 1024, 1000 ^ 2, 1024 ^ 2, 1000 ^ 3, 1024 ^ 3] := by decide
  exact hall _ h

theorem factor_pos {name : Str} {f : ℕ} (h : (name, f) ∈ units) : 0 < f := by
  have hall : ∀ f ∈ [1, 1000, 1024, 1000 ^ 2, 1024 ^ 2, 1000 ^ 3, 1024 ^ 3], 0 < f := by decide
  exact hall f (factor_mem h)

/-- The range check stops the numbers from `first` on. -/
structure Threshold (f first : ℕ) : Prop where
  above : 2 ^ 64 + 4096 ≤ F64.rounded first * f
  below : F64.rounded (first - 1) * f ≤ 2 ^ 64 + 2048
  first_iff : ∀ n, first ≤ n ↔ 2 ^ 64 + 2048 < n * f ∧ ¬ (f = 1000 ∧ n = 18446744073709554)

theorem exists_threshold {name : Str} {f : ℕ} (h : (name, f) ∈ units) : ∃ first, Threshold f first := by
  have hf := factor_mem h
  simp only [List.mem_cons, List.not_mem_nil, or_false] at hf
  rcases hf with rfl | rfl | rfl | rfl | rfl | rfl | rfl
  · exact ⟨2 ^ 64 + 2049, by decide +kernel, by decide +kernel, fun n => by omega⟩
  · exact ⟨18446744073709555, by decide +kernel, by decide +kernel, fun n => by omega⟩
  · exact ⟨2 ^ 54 + 3, by decide +kernel, by decide +kernel, fun n => by omega⟩
  · exact ⟨18446744073710, by decide +kernel, by decide +kernel, fun n => by omega⟩
  · exact ⟨2 ^ 44 + 1, by decide +kernel, by decide +kernel, fun n => by omega⟩
  · exact ⟨18446744074, by decide +kernel, by decide +kernel, fun n => by omega⟩
  · exact ⟨2 ^ 34 + 1, by decide +kernel, by decide +kernel, fun n => by omega⟩

theorem Threshold.product {f first : ℕ} (h : Threshold f first) (n : ℕ) :
    2 ^ 64 < product n f ↔ first ≤ n := by
  constructor
  · intro hlt
    by_contra hn
    have hmul : F64.rounded n * f ≤ 2 ^ 64 + 2048 :=
      Nat.le_trans (Nat.mul_le_mul_right f (F64.rounded_mono (by omega))) h.below
    have htie : F64.rounded (2 ^ 64 + 2048) = 2 ^ 64 := by decide +kernel
    have := F64.rounded_mono hmul
    rw [htie] at this
    exact absurd hlt (Nat.not_lt.mpr this)
  · intro hn
    have hmul : 2 ^ 64 + 4096 ≤ F64.rounded n * f :=
      Nat.le_trans h.above (Nat.mul_le_mul_right f (F64.rounded_mono hn))
    have hfits : F64.Fits (2 ^ 64 + 4096) := ⟨2 ^ 52 + 1, 12, by decide, by decide⟩
    have := F64.rounded_mono hmul
    rw [hfits.rounded] at this
    exact Nat.lt_of_lt_of_le (by omega) this

/-- Below the limit, the product comes out when it has 53 significant bits, or saturates. -/
theorem product_exact_iff {name : Str} {n f : ℕ} (hf : (name, f) ∈ units) (hlt : n * f < 2 ^ 64) :
    (product n f ≤ 2 ^ 64 ∧ min (product n f) (2 ^ 64 - 1) = n * f) ↔
      F64.Fits (n * f) ∨ n * f = 2 ^ 64 - 1 := by
  constructor
  · rintro ⟨hle, hmin⟩
    by_cases hsat : product n f < 2 ^ 64
    · left
      rw [← hmin, Nat.min_eq_left (by omega)]
      exact F64.rounded_fits _
    · right
      omega
  · rintro (hfits | hmax)
    · have hn := hfits.of_mul (factor_pos hf).ne'
      have hprod : product n f = n * f := by rw [product, hn.rounded, hfits.rounded]
      omega
    · have hone : f = 1 := by
        have hmem := factor_mem hf
        simp only [List.mem_cons, List.not_mem_nil, or_false] at hmem
        rcases hmem with rfl | rfl | rfl | rfl | rfl | rfl | rfl <;> omega
      subst hone
      obtain rfl : n = 2 ^ 64 - 1 := by omega
      have hprod : product (2 ^ 64 - 1) 1 = 2 ^ 64 := by decide +kernel
      omega

/-! ## When a size is read exactly -/

namespace Size

variable (t : Size)

/-- The bytes come out, or an error when they are over `u64::MAX`. -/
def Exact : Prop :=
  if t.bytes < 2 ^ 64 then parseSize t.text = .ok (UInt64.ofNat t.bytes)
  else ∃ e, parseSize t.text = .err e

/-- A plain number in `u64`; or a product in `u64` with 53 significant bits, or equal to `u64::MAX`; or a
product over `2 ^ 64 + 2048`, but for one number of kilobytes. -/
def Unrounded : Prop :=
  (t.unit = [] ∧ t.number.value < 2 ^ 64) ∨
    (t.bytes < 2 ^ 64 ∧ (F64.Fits t.bytes ∨ t.bytes = 2 ^ 64 - 1)) ∨
    (2 ^ 64 + 2048 < t.bytes ∧ ¬ (t.factor = 1000 ∧ t.number.value = 18446744073709554))

theorem unit_path (h : t.unit ≠ [] ∨ 2 ^ 64 ≤ t.number.value) :
    parseSize t.text =
      if 2 ^ 64 < product t.number.value t.factor then .err (.outOfRange (t.number.val ++ t.tail))
      else .ok (UInt64.ofNat (min (product t.number.value t.factor) (2 ^ 64 - 1))) := by
  rw [parseSize_unit h, checked_product _ _ (factor_pos t.known)]

theorem factor_of_nil (h : t.unit = []) : t.factor = 1 := by
  have hknown := t.known
  rw [h] at hknown
  have hall : ∀ q ∈ units, q.1 = [] → q.2 = 1 := by decide
  exact hall _ hknown rfl

theorem exact_iff_of_unit (h : t.unit ≠ [] ∨ 2 ^ 64 ≤ t.number.value) :
    t.Exact ↔ (t.bytes < 2 ^ 64 ∧ (F64.Fits t.bytes ∨ t.bytes = 2 ^ 64 - 1)) ∨
      (2 ^ 64 + 2048 < t.bytes ∧ ¬ (t.factor = 1000 ∧ t.number.value = 18446744073709554)) := by
  rw [Exact, t.unit_path h]
  by_cases hlt : t.bytes < 2 ^ 64
  · have hprod := product_exact_iff t.known hlt
    have hover : ¬ (2 ^ 64 + 2048 < t.bytes ∧
        ¬ (t.factor = 1000 ∧ t.number.value = 18446744073709554)) := fun h => by omega
    rw [if_pos hlt, or_iff_left hover, and_iff_right hlt, bytes, ← hprod]
    by_cases hbig : 2 ^ 64 < product t.number.value t.factor
    · rw [if_pos hbig]
      constructor
      · intro heq
        cases heq
      · intro hle
        omega
    · have hlt : t.number.value * t.factor < 2 ^ 64 := hlt
      rw [if_neg hbig, Outcome.ok.injEq, ofNat_inj (by omega) hlt, and_iff_right (Nat.not_lt.mp hbig)]
  · obtain ⟨first, hfirst⟩ := exists_threshold t.known
    rw [if_neg hlt]
    constructor
    · rintro ⟨e, he⟩
      right
      by_cases hbig : 2 ^ 64 < product t.number.value t.factor
      · exact (hfirst.first_iff _).mp ((hfirst.product _).mp hbig)
      · rw [if_neg hbig] at he
        cases he
    · rintro (⟨hlt', -⟩ | hover)
      · exact absurd hlt' hlt
      · exact ⟨_, if_pos ((hfirst.product _).mpr ((hfirst.first_iff _).mpr hover))⟩

theorem exact_iff : t.Exact ↔ t.Unrounded := by
  by_cases hnumber : t.unit = [] ∧ t.number.value < 2 ^ 64
  · have hbytes : t.bytes = t.number.value := by rw [bytes, t.factor_of_nil hnumber.1, Nat.mul_one]
    rw [Exact, hbytes, if_pos hnumber.2, parseSize_number hnumber.1 hnumber.2]
    exact ⟨fun _ => .inl hnumber, fun _ => rfl⟩
  · have h : t.unit ≠ [] ∨ 2 ^ 64 ≤ t.number.value := by
      by_cases hu : t.unit = []
      · exact .inr (Nat.not_lt.mp fun hv => hnumber ⟨hu, hv⟩)
      · exact .inl hu
    rw [t.exact_iff_of_unit h, Unrounded, or_iff_right hnumber]

end Size

/-- The plain number `d`, and `d` bytes. -/
def Numeral.plain (d : Numeral) : Size := ⟨d, 0, [], 1, by decide⟩

def Numeral.inBytes (d : Numeral) : Size := ⟨d, 0, ['B'], 1, by decide⟩

/-- The raw path and the unit path read the same. -/
def Numeral.Agrees (d : Numeral) : Prop :=
  ∀ n, parseSize d.plain.text = .ok n ↔ parseSize d.inBytes.text = .ok n

theorem Numeral.agrees_iff (d : Numeral) :
    d.Agrees ↔ F64.Fits d.value ∨ 2 ^ 64 - 1 ≤ d.value := by
  have hunit := d.inBytes.unit_path (.inl (List.cons_ne_nil 'B' []))
  have hbytes : d.inBytes.bytes = d.value := Nat.mul_one _
  by_cases hlt : d.value < 2 ^ 64
  · have hplain : parseSize d.plain.text = .ok (UInt64.ofNat d.value) := parseSize_number rfl hlt
    have hexact := d.inBytes.exact_iff_of_unit (.inl (List.cons_ne_nil 'B' []))
    rw [Size.Exact, hbytes, if_pos hlt, or_iff_left fun h => by omega, and_iff_right hlt] at hexact
    have hmax : d.value = 2 ^ 64 - 1 ↔ 2 ^ 64 - 1 ≤ d.value := by omega
    rw [← hmax, ← hexact, Agrees, hplain]
    constructor
    · intro h
      exact (h _).mp rfl
    · intro h n
      rw [h]
  · have hplain := d.plain.unit_path (.inr (Nat.not_lt.mp hlt))
    refine ⟨fun _ => .inr (by omega), fun _ n => ?_⟩
    rw [hplain, hunit]
    change (if 2 ^ 64 < product d.value 1 then _ else _) = _ ↔ (if 2 ^ 64 < product d.value 1 then _ else _) = _
    by_cases hbig : 2 ^ 64 < product d.value 1
    · rw [if_pos hbig, if_pos hbig]
      constructor <;> intro h <;> cases h
    · rw [if_neg hbig, if_neg hbig]
      exact Iff.rfl

/-- A size is read exactly when nothing is rounded on the unit path, and the range check, which is against
`2 ^ 64`, is not near; the two paths agree on the numbers of 53 significant bits and beyond `u64`. -/
theorem sizes_exact_iff (t : Size) (d : Numeral) :
    (t.Exact ↔ t.Unrounded) ∧ (d.Agrees ↔ F64.Fits d.value ∨ 2 ^ 64 - 1 ≤ d.value) :=
  ⟨t.exact_iff, d.agrees_iff⟩

/-- The first odd number of 54 bits. -/
def odd54 : Numeral := ⟨"9007199254740993".toList, by decide, by decide⟩

def twoPow64 : Numeral := ⟨"18446744073709551616".toList, by decide, by decide⟩

/-- A number of bytes is rounded; and the first number over `u64::MAX` is accepted. -/
theorem sizes_rounded :
    parseSize odd54.plain.text = .ok 9007199254740993 ∧ parseSize odd54.inBytes.text = .ok 9007199254740992 ∧
      parseSize twoPow64.plain.text = .ok 18446744073709551615 ∧
      ¬ odd54.inBytes.Exact ∧ ¬ odd54.Agrees ∧ ¬ twoPow64.plain.Exact := by
  have hplain : parseSize odd54.plain.text = .ok 9007199254740993 := by decide +kernel
  have hbytes : parseSize odd54.inBytes.text = .ok 9007199254740992 := by decide +kernel
  have hover : parseSize twoPow64.plain.text = .ok 18446744073709551615 := by decide +kernel
  refine ⟨hplain, hbytes, hover, fun h => ?_, fun h => ?_, fun h => ?_⟩
  · have hvalue : odd54.inBytes.bytes = 9007199254740993 := by decide +kernel
    rw [Size.Exact, hvalue, if_pos (by decide), hbytes] at h
    revert h
    decide
  · have hsame := (h 9007199254740993).mp hplain
    rw [hbytes] at hsame
    revert hsame
    decide
  · have hvalue : twoPow64.plain.bytes = 18446744073709551616 := by decide +kernel
    rw [Size.Exact, hvalue, if_neg (by decide), hover] at h
    obtain ⟨e, he⟩ := h
    cases he

end Tperf.Config

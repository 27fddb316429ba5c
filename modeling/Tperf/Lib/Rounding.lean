import Mathlib.Algebra.Order.Floor.Semiring
import Mathlib.Data.Nat.Log
import Mathlib.Data.Rat.Floor
import Mathlib.Tactic.FieldSimp
import Mathlib.Tactic.Linarith
import Mathlib.Tactic.NormNum
import Mathlib.Tactic.Positivity
import Mathlib.Tactic.Ring

/-!
# Rounding to nearest, ties to even

Binary floating point numbers with `p` significant bits that are multiples of `2 ^ -l`, as nonnegative
rationals; the exponent has no upper bound.
-/

namespace Tperf.Lib.Rounding

/-! ## To a natural number -/

/-- The nearest natural number of a nonnegative rational, and the even one of two. -/
def halfEven (q : ℚ) : ℕ :=
  let k := ⌊q⌋₊
  if q - k < 1 / 2 then k else if 1 / 2 < q - k then k + 1 else if k % 2 = 0 then k else k + 1

theorem halfEven_natCast (n : ℕ) : halfEven n = n := by simp [halfEven]

theorem floor_le_halfEven (q : ℚ) : ⌊q⌋₊ ≤ halfEven q := by
  simp only [halfEven]
  split_ifs <;> omega

theorem halfEven_le_floor (q : ℚ) : halfEven q ≤ ⌊q⌋₊ + 1 := by
  simp only [halfEven]
  split_ifs <;> omega

theorem halfEven_mono {q q' : ℚ} (h : q ≤ q') : halfEven q ≤ halfEven q' := by
  rcases Nat.lt_or_eq_of_le (Nat.floor_mono h) with hlt | heq
  · calc halfEven q ≤ ⌊q⌋₊ + 1 := halfEven_le_floor q
      _ ≤ ⌊q'⌋₊ := hlt
      _ ≤ halfEven q' := floor_le_halfEven q'
  · have hrest : q - ⌊q⌋₊ ≤ q' - ⌊q⌋₊ := by linarith
    simp only [halfEven, ← heq]
    split_ifs <;> first | omega | linarith

theorem halfEven_le {q : ℚ} {n : ℕ} (h : q ≤ n) : halfEven q ≤ n := by
  have := halfEven_mono h
  rwa [halfEven_natCast] at this

theorem le_halfEven {q : ℚ} {n : ℕ} (h : (n : ℚ) ≤ q) : n ≤ halfEven q := by
  have := halfEven_mono h
  rwa [halfEven_natCast] at this

/-! ## To a floating point number -/

variable (p l : ℕ)

/-- How many units of the last place above `2 ^ -l` the number is. -/
def shift (q : ℚ) : ℕ := ⌊q * 2 ^ l⌋₊.log2 - (p - 1)

/-- The unit in the last place of the number. -/
def unit (q : ℚ) : ℚ := 2 ^ shift p l q / 2 ^ l

def nearest (q : ℚ) : ℚ := halfEven (q / unit p l q) * unit p l q

def Representable (q : ℚ) : Prop := ∃ m s : ℕ, m < 2 ^ p ∧ q = m * 2 ^ s / 2 ^ l

variable {p l} {q q' : ℚ}

theorem unit_pos : 0 < unit p l q := by
  unfold unit
  positivity

theorem div_unit (q : ℚ) : q / unit p l q = q * 2 ^ l / 2 ^ shift p l q := by
  unfold unit
  field_simp

theorem div_unit_lt (hp : 0 < p) (q : ℚ) : q / unit p l q < 2 ^ p := by
  have hfloor : q * 2 ^ l < ⌊q * 2 ^ l⌋₊ + 1 := Nat.lt_floor_add_one _
  have hlog : ⌊q * 2 ^ l⌋₊ + 1 ≤ 2 ^ (⌊q * 2 ^ l⌋₊.log2 + 1) := Nat.lt_log2_self
  have hexp : ⌊q * 2 ^ l⌋₊.log2 + 1 ≤ p + shift p l q := by unfold shift; omega
  have hpow : ⌊q * 2 ^ l⌋₊ + 1 ≤ 2 ^ (p + shift p l q) :=
    hlog.trans (Nat.pow_le_pow_right (by decide) hexp)
  rw [div_unit, div_lt_iff₀ (by positivity), ← pow_add]
  calc q * 2 ^ l < ⌊q * 2 ^ l⌋₊ + 1 := hfloor
    _ ≤ 2 ^ (p + shift p l q) := by exact_mod_cast hpow

theorem le_div_unit (h : 0 < shift p l q) : 2 ^ (p - 1) ≤ q / unit p l q := by
  have hne : ⌊q * 2 ^ l⌋₊ ≠ 0 := by
    intro hzero
    rw [shift, hzero] at h
    simp at h
  have hlog : 2 ^ ⌊q * 2 ^ l⌋₊.log2 ≤ ⌊q * 2 ^ l⌋₊ := Nat.log2_self_le hne
  have hexp : p - 1 + shift p l q = ⌊q * 2 ^ l⌋₊.log2 := by unfold shift at h ⊢; omega
  have hfloor : (⌊q * 2 ^ l⌋₊ : ℚ) ≤ q * 2 ^ l := by
    refine Nat.floor_le ?_
    by_contra hneg
    exact hne (Nat.floor_of_nonpos (le_of_not_ge hneg))
  rw [div_unit, le_div_iff₀ (by positivity), ← pow_add, hexp]
  exact le_trans (by exact_mod_cast hlog) hfloor

theorem nearest_representable (hp : 0 < p) (q : ℚ) : Representable p l (nearest p l q) := by
  have hle : halfEven (q / unit p l q) ≤ 2 ^ p := halfEven_le (by exact_mod_cast (div_unit_lt hp q).le)
  rcases Nat.lt_or_eq_of_le hle with hlt | heq
  · exact ⟨_, shift p l q, hlt, by rw [nearest, unit, mul_div_assoc]⟩
  · refine ⟨2 ^ (p - 1), shift p l q + 1, Nat.pow_lt_pow_right (by decide) (by omega), ?_⟩
    have hpow : (2 : ℚ) ^ p = 2 ^ (p - 1) * 2 := by rw [← pow_succ, Nat.sub_add_cancel hp]
    rw [nearest, heq, unit]
    push_cast
    rw [hpow]
    ring

theorem nearest_of_representable (hp : 0 < p) (h : Representable p l q) : nearest p l q = q := by
  obtain ⟨m, s, hm, rfl⟩ := h
  have hscale : (m * 2 ^ s / 2 ^ l : ℚ) * 2 ^ l = (m * 2 ^ s : ℕ) := by
    push_cast
    field_simp
  have hshift : shift p l (m * 2 ^ s / 2 ^ l) ≤ s := by
    rw [shift, hscale, Nat.floor_natCast]
    by_cases hzero : m = 0
    · simp [hzero]
    · have hlog : m.log2 < p := (Nat.log2_lt hzero).mpr hm
      have hmul : (m * 2 ^ s).log2 = m.log2 + s := by
        rw [Nat.log2_eq_iff (by positivity), pow_add, pow_succ, pow_add]
        have hlo := Nat.log2_self_le hzero
        have hhi := Nat.lt_log2_self (n := m)
        rw [pow_succ] at hhi
        constructor
        · exact Nat.mul_le_mul_right _ hlo
        · nlinarith [Nat.two_pow_pos s]
      omega
  have hdiv : (m * 2 ^ s / 2 ^ l : ℚ) / unit p l (m * 2 ^ s / 2 ^ l) =
      (m * 2 ^ (s - shift p l (m * 2 ^ s / 2 ^ l)) : ℕ) := by
    rw [div_unit, hscale, div_eq_iff (by positivity)]
    push_cast
    rw [mul_assoc, ← pow_add, Nat.sub_add_cancel hshift]
  rw [nearest, hdiv, halfEven_natCast, ← hdiv, div_mul_cancel₀ _ unit_pos.ne']

theorem shift_mono (h : q ≤ q') : shift p l q ≤ shift p l q' := by
  have hfloor : ⌊q * 2 ^ l⌋₊ ≤ ⌊q' * 2 ^ l⌋₊ :=
    Nat.floor_mono (mul_le_mul_of_nonneg_right h (by positivity))
  have hlog : ⌊q * 2 ^ l⌋₊.log2 ≤ ⌊q' * 2 ^ l⌋₊.log2 := by
    rw [Nat.log2_eq_log_two, Nat.log2_eq_log_two]
    exact Nat.log_mono_right hfloor
  unfold shift
  omega

theorem nearest_mono (hp : 0 < p) (h : q ≤ q') : nearest p l q ≤ nearest p l q' := by
  rcases Nat.lt_or_eq_of_le (shift_mono (p := p) (l := l) h) with hlt | heq
  · -- a power of two lies between the numbers
    have hlow : halfEven (q / unit p l q) ≤ 2 ^ p := halfEven_le (by exact_mod_cast (div_unit_lt hp q).le)
    have hhigh : 2 ^ (p - 1) ≤ halfEven (q' / unit p l q') :=
      le_halfEven (by exact_mod_cast le_div_unit (by omega))
    have hunit : 2 ^ p * unit p l q ≤ 2 ^ (p - 1) * unit p l q' := by
      unfold unit
      rw [← mul_div_assoc, ← mul_div_assoc, ← pow_add, ← pow_add]
      have hexp : p + shift p l q ≤ p - 1 + shift p l q' := by omega
      gcongr
      norm_num
    calc nearest p l q ≤ 2 ^ p * unit p l q :=
          mul_le_mul_of_nonneg_right (by exact_mod_cast hlow) unit_pos.le
      _ ≤ 2 ^ (p - 1) * unit p l q' := hunit
      _ ≤ nearest p l q' := mul_le_mul_of_nonneg_right (by exact_mod_cast hhigh) unit_pos.le
  · have hunit : unit p l q = unit p l q' := by rw [unit, unit, heq]
    rw [nearest, nearest, ← hunit]
    refine mul_le_mul_of_nonneg_right ?_ unit_pos.le
    exact_mod_cast halfEven_mono (div_le_div_of_nonneg_right h unit_pos.le)

/-- A representable number that is not above the number is not above what it is rounded to. -/
theorem le_nearest (hp : 0 < p) (hr : Representable p l q) (h : q ≤ q') : q ≤ nearest p l q' := by
  have := nearest_mono (l := l) hp h
  rwa [nearest_of_representable hp hr] at this

end Tperf.Lib.Rounding

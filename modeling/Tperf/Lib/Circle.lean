import Mathlib.Data.List.Rotate
import Mathlib.Data.List.Perm.Basic
import Mathlib.Data.Nat.ModEq
import Mathlib.Data.Nat.Prime.Basic

/-!
# The circle method

Seats in a row, the first fixed, the others turning by one place each round; mirrored seats meet. For
an even number `m + 1` of seats, any two of them meet exactly once in `m` rounds.
-/

namespace Tperf.Lib.Circle

universe u

variable {α : Type u}

/-! ## Turning -/

/-- One turn: the head stays, the last element moves behind it. -/
def turn : List α → List α
  | [] => []
  | a :: t => a :: t.rotate (t.length - 1)

@[simp] theorem turn_length (l : List α) : (turn l).length = l.length := by
  cases l <;> simp [turn]

theorem turn_perm (l : List α) : (turn l).Perm l := by
  cases l with
  | nil => exact .nil
  | cons a t => exact (List.rotate_perm t _).cons a

theorem iterate_turn_length (l : List α) (r : Nat) : (turn^[r] l).length = l.length := by
  induction r with
  | zero => rfl
  | succ r ih => rw [Function.iterate_succ_apply', turn_length, ih]

theorem iterate_turn_perm (l : List α) (r : Nat) : (turn^[r] l).Perm l := by
  induction r with
  | zero => exact .refl _
  | succ r ih => rw [Function.iterate_succ_apply']; exact (turn_perm _).trans ih

/-- The closed form of `r` turns. -/
theorem iterate_turn_cons (a : α) (t : List α) (r : Nat) :
    turn^[r] (a :: t) = a :: t.rotate (r * (t.length - 1)) := by
  induction r with
  | zero => simp
  | succ r ih =>
      rw [Function.iterate_succ_apply', ih]
      simp only [turn, List.length_rotate, List.rotate_rotate, Nat.succ_mul]

/-- Where the element that started at `p` sits after `r` turns of `m + 1` seats. -/
def seat (m r p : Nat) : Nat := if p = 0 then 0 else (p - 1 + r) % m + 1

theorem iterate_turn_getElem? (l : List α) (r : Nat) {m p : Nat} (hl : l.length = m + 1) (hp : p ≤ m) :
    (turn^[r] l)[seat m r p]? = l[p]? := by
  cases l with
  | nil => simp at hl
  | cons a t =>
      have ht : t.length = m := by simpa using hl
      rw [iterate_turn_cons, ht]
      cases p with
      | zero => simp [seat]
      | succ x =>
          have hx : x < m := by omega
          have hlt : (x + r) % m < t.length := by rw [ht]; exact Nat.mod_lt _ (by omega)
          have hback : ((x + r) % m + r * (m - 1)) % m = x := by
            obtain ⟨m, rfl⟩ : ∃ k, m = k + 1 := ⟨m - 1, by omega⟩
            have hturns : x + r + r * (m + 1 - 1) = x + r * (m + 1) := by
              rw [Nat.add_sub_cancel, Nat.mul_add_one]; omega
            rw [Nat.mod_add_mod, hturns, Nat.add_mul_mod_self_right, Nat.mod_eq_of_lt hx]
          simp only [seat, Nat.add_one_ne_zero, ↓reduceIte, Nat.add_sub_cancel, List.getElem?_cons_succ]
          rw [List.getElem?_eq_getElem (by simpa using hlt), List.getElem_rotate,
            List.getElem?_eq_getElem (by omega)]
          simp only [ht, hback]

/-! ## Two seats face each other exactly once -/

theorem mod_eq_zero_of_lt_three_mul {m x : Nat} (hx : x < 3 * m) :
    x % m = 0 ↔ x = 0 ∨ x = m ∨ x = 2 * m := by
  constructor
  · intro h
    obtain ⟨k, rfl⟩ := Nat.dvd_of_mod_eq_zero h
    have hk : k < 3 := by
      rw [Nat.mul_comm 3] at hx
      exact Nat.lt_of_mul_lt_mul_left hx
    obtain rfl | rfl | rfl : k = 0 ∨ k = 1 ∨ k = 2 := by omega
    all_goals omega
  · rintro (rfl | rfl | rfl) <;> simp

/-- `2 r ≡ - c` has exactly one solution modulo an odd `m`. -/
theorem existsUnique_double {m : Nat} (hm : m % 2 = 1) (c : Nat) :
    ∃! r, r < m ∧ (2 * r + c) % m = 0 := by
  have hc := Nat.mod_lt c (show 0 < m by omega)
  have hiff : ∀ r < m, (2 * r + c) % m = 0 ↔
      2 * r + c % m = 0 ∨ 2 * r + c % m = m ∨ 2 * r + c % m = 2 * m := fun r hr => by
    rw [← Nat.add_mod_mod]; exact mod_eq_zero_of_lt_three_mul (by omega)
  generalize c % m = d at hc hiff
  -- the parity of `d` says which multiple of `m` is reached
  refine ⟨if d = 0 then 0 else if d % 2 = 1 then (m - d) / 2 else m - d / 2, ?_, ?_⟩
  · have hlt : (if d = 0 then 0 else if d % 2 = 1 then (m - d) / 2 else m - d / 2) < m := by
      split <;> [omega; split <;> omega]
    refine ⟨hlt, (hiff _ hlt).mpr ?_⟩
    split <;> [omega; split <;> omega]
  · rintro r ⟨hr, h⟩
    have := (hiff r hr).mp h
    split <;> [omega; split <;> omega]

/-- Two seats of `m + 1` face each other in round `r`. -/
def Faces (m r p q : Nat) : Prop := seat m r p + seat m r q = m

theorem Faces.symm {m r p q : Nat} (h : Faces m r p q) : Faces m r q p := by
  unfold Faces at *; omega

theorem faces_zero_iff {m r x : Nat} (hm : m % 2 = 1) :
    Faces m r 0 (x + 1) ↔ (2 * r + 2 * (x + 1)) % m = 0 := by
  have hlt := Nat.mod_lt (x + r) (show 0 < m by omega)
  have hsum : (2 * ((x + r) % m) + 2) % m = (2 * r + 2 * (x + 1)) % m := by
    rw [show 2 * r + 2 * (x + 1) = 2 * (x + r) + 2 by omega]
    exact ((Nat.mod_modEq (x + r) m).mul_left 2).add_right 2
  rw [← hsum, mod_eq_zero_of_lt_three_mul (by omega)]
  simp only [Faces, seat, ↓reduceIte, Nat.add_one_ne_zero, Nat.add_sub_cancel, false_or]
  omega

theorem faces_succ_iff {m r x y : Nat} (hx : x < m) (hy : y < m) (hne : x ≠ y) :
    Faces m r (x + 1) (y + 1) ↔ (2 * r + (x + y + 2)) % m = 0 := by
  have hlx := Nat.mod_lt (x + r) (show 0 < m by omega)
  have hly := Nat.mod_lt (y + r) (show 0 < m by omega)
  have hsum : ((x + r) % m + (y + r) % m + 2) % m = (2 * r + (x + y + 2)) % m := by
    rw [show 2 * r + (x + y + 2) = x + r + (y + r) + 2 by omega]
    exact ((Nat.mod_modEq (x + r) m).add (Nat.mod_modEq (y + r) m)).add_right 2
  have hd : (x + r) % m ≠ (y + r) % m := by
    intro h
    have h' : x % m = y % m := Nat.ModEq.add_right_cancel' r h
    rw [Nat.mod_eq_of_lt hx, Nat.mod_eq_of_lt hy] at h'
    exact hne h'
  rw [← hsum, mod_eq_zero_of_lt_three_mul (by omega)]
  simp only [Faces, seat, Nat.add_one_ne_zero, ↓reduceIte, Nat.add_sub_cancel, false_or]
  omega

/-- Any two of `m + 1` seats, `m` odd, face each other in exactly one of `m` rounds. -/
theorem existsUnique_faces {m p q : Nat} (hm : m % 2 = 1) (hp : p ≤ m) (hq : q ≤ m) (hne : p ≠ q) :
    ∃! r, r < m ∧ Faces m r p q := by
  cases p with
  | zero =>
      obtain ⟨y, rfl⟩ : ∃ y, q = y + 1 := ⟨q - 1, by omega⟩
      simpa only [faces_zero_iff hm] using existsUnique_double hm (2 * (y + 1))
  | succ x =>
      cases q with
      | zero =>
          have hsymm : ∀ r, Faces m r (x + 1) 0 ↔ Faces m r 0 (x + 1) := fun r => ⟨.symm, .symm⟩
          simpa only [hsymm, faces_zero_iff hm] using existsUnique_double hm (2 * (x + 1))
      | succ y =>
          have hxy : x ≠ y := by omega
          simpa only [faces_succ_iff hp hq hxy] using existsUnique_double hm (x + y + 2)

/-! ## Mirrored pairs -/

/-- Element `i` with element `n - 1 - i`, for `i < n / 2`. -/
def mirror (l : List α) : List (α × α) := (l.zip l.reverse).take (l.length / 2)

def players (ps : List (α × α)) : List α := ps.flatMap fun p => [p.1, p.2]

@[simp] theorem players_nil : players ([] : List (α × α)) = [] := rfl

@[simp] theorem players_cons (p : α × α) (ps : List (α × α)) :
    players (p :: ps) = p.1 :: p.2 :: players ps := rfl

theorem players_length (ps : List (α × α)) : (players ps).length = 2 * ps.length := by
  induction ps with
  | nil => rfl
  | cons p ps ih => simp only [players_cons, List.length_cons, ih]; omega

theorem mem_players {ps : List (α × α)} {a : α} :
    a ∈ players ps ↔ ∃ b, (a, b) ∈ ps ∨ (b, a) ∈ ps := by
  induction ps with
  | nil => simp
  | cons p ps ih =>
      obtain ⟨x, y⟩ := p
      simp only [players_cons, List.mem_cons, ih, Prod.mk.injEq]
      grind

@[simp] theorem mirror_length (l : List α) : (mirror l).length = l.length / 2 := by
  simp only [mirror, List.length_take, List.length_zip, List.length_reverse]
  omega

theorem players_zip_perm (as bs : List α) (h : as.length = bs.length) :
    (players (as.zip bs)).Perm (as ++ bs) := by
  induction as generalizing bs with
  | nil => cases bs with
    | nil => exact .nil
    | cons _ _ => simp at h
  | cons a as ih => cases bs with
    | nil => simp at h
    | cons b bs =>
        have ih := ih bs (by simpa using h)
        calc players ((a :: as).zip (b :: bs))
            = a :: b :: players (as.zip bs) := rfl
          _ |>.Perm (a :: b :: (as ++ bs)) := (ih.cons b).cons a
          _ |>.Perm (a :: (as ++ b :: bs)) := List.perm_middle.symm.cons a

/-- Every seat of an even row is in exactly one mirrored pair. -/
theorem mirror_players_perm {l : List α} (hl : l.length % 2 = 0) : (players (mirror l)).Perm l := by
  have hrev : l.reverse.take (l.length / 2) = (l.drop (l.length / 2)).reverse := by
    rw [List.take_reverse]; congr 2; omega
  rw [mirror, List.zip, List.take_zipWith, hrev]
  calc players ((l.take (l.length / 2)).zip (l.drop (l.length / 2)).reverse)
      |>.Perm (l.take (l.length / 2) ++ (l.drop (l.length / 2)).reverse) := players_zip_perm _ _ (by
        simp only [List.length_take, List.length_reverse, List.length_drop]; omega)
    _ |>.Perm (l.take (l.length / 2) ++ l.drop (l.length / 2)) := (List.reverse_perm _).append_left _
    _ = l := List.take_append_drop _ _

theorem mem_mirror {l : List α} {a b : α} :
    (a, b) ∈ mirror l ↔ ∃ i, i < l.length / 2 ∧ l[i]? = some a ∧ l[l.length - 1 - i]? = some b := by
  simp only [List.mem_iff_getElem?, mirror, List.getElem?_take]
  constructor
  · rintro ⟨i, h⟩
    split at h
    · rename_i hi
      rw [List.getElem?_zip_eq_some, List.getElem?_reverse (by omega)] at h
      exact ⟨i, hi, h⟩
    · simp at h
  · rintro ⟨i, hi, ha, hb⟩
    refine ⟨i, ?_⟩
    rw [if_pos hi, List.getElem?_zip_eq_some, List.getElem?_reverse (by omega)]
    exact ⟨ha, hb⟩

/-- In an even row, two elements are a mirrored pair, in some order, exactly when their positions
add up to the last one. -/
theorem mem_mirror_or {l : List α} (hl : l.length % 2 = 0) {a b : α} :
    (a, b) ∈ mirror l ∨ (b, a) ∈ mirror l ↔
      ∃ i j, i + j + 1 = l.length ∧ l[i]? = some a ∧ l[j]? = some b := by
  simp only [mem_mirror]
  constructor
  · rintro (⟨i, hi, ha, hb⟩ | ⟨i, hi, hb, ha⟩)
    · exact ⟨i, l.length - 1 - i, by omega, ha, hb⟩
    · exact ⟨l.length - 1 - i, i, by omega, ha, hb⟩
  · rintro ⟨i, j, hij, ha, hb⟩
    by_cases hi : i < l.length / 2
    · exact .inl ⟨i, hi, ha, by rwa [show l.length - 1 - i = j by omega]⟩
    · exact .inr ⟨j, by omega, hb, by rwa [show l.length - 1 - j = i by omega]⟩

/-! ## Meetings -/

variable [DecidableEq α]

/-- How often a round pairs `a` with `b`, in either order. -/
def meetings (a b : α) (ps : List (α × α)) : Nat := ps.countP fun p => p = (a, b) ∨ p = (b, a)

@[simp] theorem meetings_nil (a b : α) : meetings a b [] = 0 := rfl

theorem meetings_comm (a b : α) (ps : List (α × α)) : meetings a b ps = meetings b a ps := by
  simp only [meetings, or_comm]

theorem meetings_pos {a b : α} {ps : List (α × α)} :
    0 < meetings a b ps ↔ (a, b) ∈ ps ∨ (b, a) ∈ ps := by
  simp only [meetings, List.countP_pos_iff, decide_eq_true_eq]
  grind

/-- Nobody in two pairs: the same two meet at most once. -/
theorem meetings_le_one {ps : List (α × α)} (hnd : (players ps).Nodup) (a b : α) :
    meetings a b ps ≤ 1 := by
  induction ps with
  | nil => simp
  | cons p ps ih =>
      obtain ⟨x, y⟩ := p
      simp only [players_cons, List.nodup_cons, List.mem_cons, not_or, mem_players] at hnd
      have hps := ih hnd.2.2
      simp only [meetings, List.countP_cons] at hps ⊢
      split
      · rename_i hp
        have hzero : meetings a b ps = 0 := by
          have hnot : ¬ 0 < meetings a b ps := by rw [meetings_pos]; grind
          omega
        rw [meetings] at hzero; omega
      · omega

/-- Nobody in two pairs: nobody meets itself. -/
theorem meetings_self {ps : List (α × α)} (hnd : (players ps).Nodup) (a : α) : meetings a a ps = 0 := by
  induction ps with
  | nil => rfl
  | cons p ps ih =>
      obtain ⟨x, y⟩ := p
      simp only [players_cons, List.nodup_cons, List.mem_cons, not_or] at hnd
      have hxy : ¬ ((x, y) = (a, a) ∨ (x, y) = (a, a)) := by
        simp only [Prod.mk.injEq, or_self]
        rintro ⟨rfl, rfl⟩
        exact hnd.1.1 rfl
      have ih := ih hnd.2.2
      simp only [meetings, List.countP_cons] at ih ⊢
      rw [ih, if_neg (by simpa only [decide_eq_true_eq] using hxy)]

/-- Nobody in two pairs: a player has one partner. -/
theorem partner_unique {ps : List (α × α)} (hnd : (players ps).Nodup) {a b c : α}
    (hb : 0 < meetings a b ps) (hc : 0 < meetings a c ps) : b = c := by
  rw [meetings_pos] at hb hc
  induction ps with
  | nil => simp at hb
  | cons p ps ih =>
      obtain ⟨x, y⟩ := p
      simp only [players_cons, List.nodup_cons, List.mem_cons, not_or, mem_players] at hnd
      simp only [List.mem_cons, Prod.mk.injEq] at hb hc
      grind

/-- The circle method: in `m` rounds, `m` odd, two of `m + 1` distinct players meet exactly once. -/
theorem existsUnique_meeting {l : List α} {m : Nat} (hl : l.length = m + 1) (hm : m % 2 = 1)
    (hnd : l.Nodup) {a b : α} (ha : a ∈ l) (hb : b ∈ l) (hab : a ≠ b) :
    ∃! r, r < m ∧ 0 < meetings a b (mirror (turn^[r] l)) := by
  obtain ⟨p, hp, rfl⟩ := List.mem_iff_getElem.mp ha
  obtain ⟨q, hq, rfl⟩ := List.mem_iff_getElem.mp hb
  have hpq : p ≠ q := by rintro rfl; exact hab rfl
  have hiff : ∀ r, 0 < meetings l[p] l[q] (mirror (turn^[r] l)) ↔ Faces m r p q := fun r => by
    have hlen : (turn^[r] l).length = m + 1 := by rw [iterate_turn_length, hl]
    have hndr : (turn^[r] l).Nodup := (iterate_turn_perm l r).nodup_iff.mpr hnd
    -- the turned row holds `l[p]` at the seat of `p` and nowhere else
    have hseat : ∀ {p : Nat} (hp : p < l.length) (i : Nat),
        (turn^[r] l)[i]? = some l[p] ↔ i = seat m r p := fun {p} hp i => by
      have hs := iterate_turn_getElem? l r hl (show p ≤ m by omega)
      rw [List.getElem?_eq_getElem hp] at hs
      constructor
      · intro hi
        exact (List.getElem?_inj (List.getElem?_eq_some_iff.mp hi).1 hndr).mp (hi.trans hs.symm)
      · rintro rfl; exact hs
    rw [meetings_pos, mem_mirror_or (by omega)]
    simp only [hseat hp, hseat hq, hlen]
    constructor
    · rintro ⟨i, j, hij, rfl, rfl⟩; simpa [Faces] using hij
    · intro h; exact ⟨_, _, by simpa [Faces] using h, rfl, rfl⟩
  simpa only [hiff] using existsUnique_faces hm (by omega) (by omega) hpq

end Tperf.Lib.Circle

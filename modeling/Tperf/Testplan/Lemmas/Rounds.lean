import Tperf.Lib.Circle
import Tperf.Testplan.Basic

/-!
# The rounds are the circle method

The array of `round_robin_rounds` turns as the rows of `Lib.Circle` do, and a round is its mirrored
pairs without the bye.
-/

namespace Tperf.Testplan
open Lib Proto Circle

/-! ## The loop -/

/-- Both hosts of a pair of slots, if neither is the bye. -/
def both : Option Str × Option Str → Option (Str × Str)
  | (some a, some b) => some (a, b)
  | _ => none

theorem both_eq_some {p : Option Str × Option Str} {q : Str × Str} :
    both p = some q ↔ p = (some q.1, some q.2) := by
  obtain ⟨x, y⟩ := p
  cases x <;> cases y <;> simp [both, Prod.ext_iff, eq_comm]

theorem insertIdx_one_getLast {α : Type} (a : α) {t : List α} (ht : t ≠ []) :
    ((a :: t).dropLast).insertIdx 1 ((a :: t).getLast (List.cons_ne_nil a t)) = turn (a :: t) := by
  rw [List.dropLast_cons_of_ne_nil ht, List.getLast_cons ht, List.insertIdx_succ_cons,
    List.insertIdx_zero, turn, List.rotate_eq_drop_append_take (Nat.sub_le _ _),
    List.drop_length_sub_one ht, ← List.dropLast_eq_take, List.singleton_append]

theorem Slots.rotate_arr {n : Nat} (s : Slots n) : s.rotate.arr = turn s.arr := by
  obtain ⟨arr, rfl⟩ := s
  unfold Slots.rotate
  match arr with
  | [] => rfl
  | [_] => rfl
  | [_, _] => rfl
  | a :: b :: c :: t =>
      have h : 2 < (a :: b :: c :: t).length := by simp
      rw [dif_pos h]
      exact insertIdx_one_getLast a (List.cons_ne_nil b _)

theorem Slots.pairs_eq {n : Nat} (s : Slots n) : s.pairs = (mirror s.arr).filterMap both := by
  obtain ⟨arr, rfl⟩ := s
  have hmirror : mirror arr = (List.finRange (arr.length / 2)).map fun i =>
      (arr[i.val], arr[arr.length - 1 - i.val]) := by
    apply List.ext_getElem
    · simp
    · intro i h₁ h₂
      simp [mirror, List.getElem_reverse]
  rw [hmirror, List.filterMap_map]
  unfold Slots.pairs Slots.get
  congr 1
  funext i
  simp only [List.get_eq_getElem, Function.comp]
  split <;> simp_all [both]

theorem roundsFrom_eq {n : Nat} (k : Nat) (s : Slots n) :
    roundsFrom k s = (List.range k).map fun r => (mirror (turn^[r] s.arr)).filterMap both := by
  induction k generalizing s with
  | zero => rfl
  | succ k ih =>
      rw [roundsFrom, ih, List.range_succ_eq_map, List.map_cons, List.map_map, Slots.pairs_eq,
        Slots.rotate_arr]
      rfl

/-- The array `round_robin_rounds` starts from: the hosts, and a bye if they are odd in number. -/
def slotsOf (hosts : List Str) : List (Option Str) :=
  if hosts.length % 2 = 1 then hosts.map some ++ [none] else hosts.map some

theorem roundRobinRounds_eq {hosts : List Str} (hn : 2 ≤ hosts.length) :
    roundRobinRounds hosts = (List.range ((slotsOf hosts).length - 1)).map fun r =>
      (mirror (turn^[r] (slotsOf hosts))).filterMap both := by
  unfold roundRobinRounds slotsOf
  rw [if_neg (by omega), roundsFrom_eq]
  simp only [List.length_map]

theorem slotsOf_length (hosts : List Str) :
    (slotsOf hosts).length = 2 * ((hosts.length + 1) / 2) := by
  unfold slotsOf
  split <;> simp <;> omega

theorem slotsOf_nodup {hosts : List Str} (hnd : hosts.Nodup) : (slotsOf hosts).Nodup := by
  have hmap : (hosts.map some).Nodup := hnd.map (Option.some_injective _)
  unfold slotsOf
  split
  · exact List.nodup_append.mpr ⟨hmap, by simp, by simp⟩
  · exact hmap

@[simp] theorem some_mem_slotsOf {hosts : List Str} {a : Str} : some a ∈ slotsOf hosts ↔ a ∈ hosts := by
  unfold slotsOf
  split <;> simp

theorem countP_isNone_slotsOf (hosts : List Str) :
    (slotsOf hosts).countP Option.isNone = hosts.length % 2 := by
  have hmap : (hosts.map some).countP Option.isNone = 0 := List.countP_eq_zero.mpr (by simp)
  unfold slotsOf
  split
  · rw [List.countP_append, hmap]; simp; omega
  · rw [hmap]; omega

/-! ## Leaving out the bye -/

theorem mem_filterMap_both {a b : Str} {ps : List (Option Str × Option Str)} :
    (a, b) ∈ ps.filterMap both ↔ (some a, some b) ∈ ps := by
  simp only [List.mem_filterMap, both_eq_some, exists_eq_right]

theorem meetings_filterMap_both (a b : Str) (ps : List (Option Str × Option Str)) :
    meetings a b (ps.filterMap both) = meetings (some a) (some b) ps := by
  induction ps with
  | nil => rfl
  | cons p ps ih =>
      obtain ⟨x, y⟩ := p
      simp only [meetings, Bool.decide_or] at ih
      cases x <;> cases y <;> simp [meetings, both, List.filterMap_cons, List.countP_cons, ih]

theorem players_filterMap_both_sublist (ps : List (Option Str × Option Str)) :
    ((players (ps.filterMap both)).map some).Sublist (players ps) := by
  induction ps with
  | nil => exact .slnil
  | cons p ps ih =>
      obtain ⟨x, y⟩ := p
      cases x <;> cases y
      · exact (ih.cons none).cons none
      · exact (ih.cons (some _)).cons none
      · exact (ih.cons none).cons (some _)
      · exact (ih.cons_cons (some _)).cons_cons (some _)

/-- Each pair that is left out holds a bye. -/
theorem length_filterMap_both {ps : List (Option Str × Option Str)}
    (h : (players ps).countP Option.isNone ≤ 1) :
    (ps.filterMap both).length + (players ps).countP Option.isNone = ps.length := by
  induction ps with
  | nil => rfl
  | cons p ps ih =>
      obtain ⟨x, y⟩ := p
      have hps : (players ps).countP Option.isNone ≤ 1 :=
        (List.sublist_append_right [x, y] (players ps)).countP_le.trans h
      have ih := ih hps
      cases x <;> cases y <;> simp [both, List.filterMap_cons] at h ih ⊢ <;> omega

/-- A host in some pair of slots is left out exactly when its partner is the bye. -/
theorem not_mem_players_both {ps : List (Option Str × Option Str)} (hnd : (players ps).Nodup) {a : Str}
    (ha : some a ∈ players ps) :
    a ∉ players (ps.filterMap both) ↔ 0 < meetings (some a) none ps := by
  have hmem : a ∈ players (ps.filterMap both) ↔ ∃ b, 0 < meetings (some a) (some b) ps := by
    simp only [mem_players, mem_filterMap_both, meetings_pos]
  rw [hmem]
  constructor
  · intro h
    obtain ⟨x, hx⟩ := mem_players.mp ha
    rw [← meetings_pos] at hx
    cases x with
    | none => exact hx
    | some b => exact absurd ⟨b, hx⟩ h
  · rintro h ⟨b, hb⟩
    cases partner_unique hnd h hb

/-! ## One round, and all of them -/

section Round

variable {hosts : List Str} (hnd : hosts.Nodup) (r : Nat)

/-- The slots of round `r`. -/
def roundSlots (hosts : List Str) (r : Nat) : List (Option Str × Option Str) :=
  mirror (turn^[r] (slotsOf hosts))

theorem roundSlots_perm (hosts : List Str) (r : Nat) :
    (players (roundSlots hosts r)).Perm (slotsOf hosts) :=
  (mirror_players_perm (by rw [iterate_turn_length, slotsOf_length]; omega)).trans
    (iterate_turn_perm _ r)

include hnd in
theorem roundSlots_nodup : (players (roundSlots hosts r)).Nodup :=
  (roundSlots_perm hosts r).nodup_iff.mpr (slotsOf_nodup hnd)

theorem length_round (hosts : List Str) (r : Nat) :
    ((roundSlots hosts r).filterMap both).length = hosts.length / 2 := by
  have hnone : (players (roundSlots hosts r)).countP Option.isNone = hosts.length % 2 := by
    rw [(roundSlots_perm hosts r).countP_eq, countP_isNone_slotsOf]
  have hlen : (roundSlots hosts r).length = (hosts.length + 1) / 2 := by
    rw [roundSlots, mirror_length, iterate_turn_length, slotsOf_length]; omega
  have := @length_filterMap_both (roundSlots hosts r) (by omega)
  omega

include hnd in
theorem players_round_nodup : (players ((roundSlots hosts r).filterMap both)).Nodup :=
  ((players_filterMap_both_sublist _).nodup (roundSlots_nodup hnd r)).of_map _

theorem players_round_subset (hosts : List Str) (r : Nat) :
    players ((roundSlots hosts r).filterMap both) ⊆ hosts := by
  intro a ha
  have hmem := (players_filterMap_both_sublist _).subset (List.mem_map_of_mem (f := some) ha)
  exact some_mem_slotsOf.mp ((roundSlots_perm hosts r).mem_iff.mp hmem)

end Round

theorem getElem?_roundRobinRounds {hosts : List Str} (hn : 2 ≤ hosts.length) {k : Nat}
    {r : List (Str × Str)} : (roundRobinRounds hosts)[k]? = some r ↔
      k < (slotsOf hosts).length - 1 ∧ (roundSlots hosts k).filterMap both = r := by
  rw [roundRobinRounds_eq hn, List.getElem?_map, Option.map_eq_some_iff]
  constructor
  · rintro ⟨j, hj, rfl⟩
    obtain ⟨hlt, rfl⟩ := List.getElem?_eq_some_iff.mp hj
    simp only [List.length_range] at hlt
    exact ⟨hlt, by simp [roundSlots]⟩
  · rintro ⟨hlt, rfl⟩
    exact ⟨k, List.getElem?_range hlt, rfl⟩

end Tperf.Testplan

import Mathlib.Data.Finset.Card
import Mathlib.Order.Interval.Finset.Nat
import Tperf.Dataplane.Lemmas.Recv

/-!
# What `note_seq` counts
-/

namespace Tperf.Dataplane
open Lib Lib.HighWater

/-- Arrivals at one slot: the slot and the drops returned. -/
def noteSeqs (slot : Option UInt64) : List UInt64 → Option UInt64 × List UInt64
  | [] => (slot, [])
  | seq :: l =>
      let (slot, d) := noteSeq slot seq
      let (slot, ds) := noteSeqs slot l
      (slot, d :: ds)

def numbers (l : List UInt64) : List Nat := l.map UInt64.toNat

def drops (l : List UInt64) : Nat := (numbers (noteSeqs none l).2).sum

/-- At some arrival of `x` everything before was smaller. -/
def Leads (l : List UInt64) (x : Nat) : Prop :=
  ∃ pre post, numbers l = pre ++ x :: post ∧ ∀ y ∈ pre, y < x

instance (l : List UInt64) (x : Nat) : Decidable (Leads l x) :=
  decidable_of_iff (x ∈ records none (numbers l)) mem_records

/-- The first arrival of `x` comes after that of a larger number. -/
def Late (l : List UInt64) (x : Nat) : Prop :=
  ∃ pre post, numbers l = pre ++ x :: post ∧ x ∉ pre ∧ ∃ y ∈ pre, x < y

theorem noteSeqs_spec {slot : Option UInt64} {e : Option Nat} (h : AtMark slot e) (l : List UInt64) :
    AtMark (noteSeqs slot l).1 (mark e (numbers l)) ∧
      (numbers (noteSeqs slot l).2).sum = (skips e (numbers l)).length := by
  induction l generalizing slot e with
  | nil => exact ⟨h, rfl⟩
  | cons seq l ih =>
      obtain ⟨hmark, hdrop⟩ := noteSeq_spec seq h
      obtain ⟨hmark, hdrops⟩ := ih hmark
      refine ⟨hmark, ?_⟩
      simp only [noteSeqs, numbers, List.map_cons, List.sum_cons, skips, List.length_append] at hdrops ⊢
      rw [hdrop, hdrops]

/-- A number that has arrived before is below the mark. -/
theorem noteSeq_again {l : List UInt64} {s : UInt64} (hs : s ∈ l) :
    (noteSeq (noteSeqs none l).1 s).2 = 0 := by
  have hmem : s.toNat ∈ numbers l := List.mem_map_of_mem hs
  obtain ⟨k, hk⟩ := mark_isSome (e := none) (l := numbers l) (.inr (List.ne_nil_of_mem hmem))
  have hlt := (lt_mark hk).1 s.toNat hmem
  have hspec := (noteSeq_spec s (noteSeqs_spec AtMark.none l).1).2
  rw [hk, skipped_length] at hspec
  apply UInt64.toNat_inj.mp
  rw [hspec, UInt64.toNat_zero]
  omega

theorem Leads.mem {l : List UInt64} {x : Nat} (h : Leads l x) : x ∈ numbers l := by
  obtain ⟨pre, post, hl, _⟩ := h
  rw [hl]
  simp

/-- A number that arrives leads at its first arrival or is late. -/
theorem leads_or_late {l : List UInt64} {x : Nat} (h : x ∈ numbers l) : Leads l x ∨ Late l x := by
  obtain ⟨pre, post, hl, hx⟩ := List.eq_append_cons_of_mem h
  by_cases hy : ∃ y ∈ pre, x < y
  · exact .inr ⟨pre, post, hl, hx, hy⟩
  · refine .inl ⟨pre, post, hl, fun y hmem => ?_⟩
    have hne : y ≠ x := fun he => hx (he ▸ hmem)
    have hle : ¬ x < y := fun hlt => hy ⟨y, hmem, hlt⟩
    omega

/-- A late number never leads. -/
theorem Late.not_leads {l : List UInt64} {x : Nat} (h : Late l x) : ¬ Leads l x := by
  rintro ⟨pre, post, hl, hlt⟩
  obtain ⟨pre', post', hl', hx, y, hy, hxy⟩ := h
  rw [hl] at hl'
  rcases List.append_eq_append_iff.mp hl' with ⟨m, hm, hpost⟩ | ⟨m, hm, hpost⟩
  · cases m with
    | nil =>
        rw [List.append_nil] at hm
        have := hlt y (hm ▸ hy)
        omega
    | cons z m =>
        obtain ⟨rfl, -⟩ := List.cons.inj hpost
        exact hx (by rw [hm]; simp)
  · have := hlt y (by rw [hm]; exact List.mem_append_left m hy)
    omega

/-- The numbers in `[s, m]` that were never the strictly largest so far when they arrived. -/
def passedOver (l : List UInt64) (s m : Nat) : Finset Nat := (Finset.Icc s m).filter fun x => ¬ Leads l x

/-- The numbers in `[s, m]` that did not arrive. -/
def missing (l : List UInt64) (s m : Nat) : Finset Nat := (Finset.Icc s m).filter fun x => x ∉ numbers l

theorem missing_subset (l : List UInt64) (s m : Nat) : missing l s m ⊆ passedOver l s m := by
  intro x hx
  obtain ⟨hx, hno⟩ := Finset.mem_filter.mp hx
  exact Finset.mem_filter.mpr ⟨hx, fun h => hno h.mem⟩

theorem passedOver_eq_missing (l : List UInt64) (s m : Nat) :
    (passedOver l s m).card = (missing l s m).card ↔ ∀ x, s ≤ x → x ≤ m → ¬ Late l x := by
  constructor
  · intro hcard x hs hm hlate
    have heq := Finset.eq_of_subset_of_card_le (missing_subset l s m) hcard.le
    have hx : x ∈ passedOver l s m :=
      Finset.mem_filter.mpr ⟨Finset.mem_Icc.mpr ⟨hs, hm⟩, hlate.not_leads⟩
    rw [← heq] at hx
    obtain ⟨pre, post, hl, -⟩ := hlate
    exact (Finset.mem_filter.mp hx).2 (by rw [hl]; simp)
  · intro hno
    refine congrArg Finset.card (Finset.Subset.antisymm ?_ (missing_subset l s m))
    intro x hx
    obtain ⟨hIcc, hlead⟩ := Finset.mem_filter.mp hx
    obtain ⟨hs, hm⟩ := Finset.mem_Icc.mp hIcc
    refine Finset.mem_filter.mpr ⟨hIcc, fun hmem => ?_⟩
    exact (leads_or_late hmem).elim hlead (hno x hs hm)

/-- The skipped numbers are those passed over. -/
theorem skips_card {s : UInt64} {l : List UInt64} {m : Nat}
    (hmark : mark none (numbers (s :: l)) = some (m + 1)) :
    (skips none (numbers (s :: l))).length = (passedOver (s :: l) s.toNat m).card := by
  rw [← List.toFinset_card_of_nodup (skips_nodup none _)]
  refine congrArg Finset.card (Finset.ext fun x => ?_)
  have hmark' : mark (some (s.toNat + 1)) (numbers l) = some (m + 1) := by
    simpa [numbers, advance] using hmark
  have hlead : Leads (s :: l) x ↔ x = s.toNat ∨ x ∈ records (some (s.toNat + 1)) (numbers l) := by
    rw [Leads, ← mem_records]
    simp [numbers, records, advance]
  simp only [numbers, List.map_cons, skips_none_cons, List.mem_toFinset, passedOver, Finset.mem_filter,
    Finset.mem_Icc]
  rw [← numbers, mem_skips_iff hmark', hlead]
  grind

/-- The slot ends above the largest arrival `m`. The drops returned are the numbers of `[s₁, m]` passed
over; they are at least those missing, and just those when no number is late. -/
theorem drops_passed_over (s : UInt64) (l : List UInt64) (h : ∀ x ∈ s :: l, x < maxU64) :
    ∃ m ∈ s :: l, (∀ x ∈ s :: l, x ≤ m) ∧
      (noteSeqs none (s :: l)).1 = some (m + 1) ∧
      drops (s :: l) = (passedOver (s :: l) s.toNat m.toNat).card ∧
      (missing (s :: l) s.toNat m.toNat).card ≤ drops (s :: l) ∧
      (drops (s :: l) = (missing (s :: l) s.toNat m.toNat).card ↔
        ∀ x, s.toNat ≤ x → x ≤ m.toNat → ¬ Late (s :: l) x) ∧
      ∀ pre x post, s :: l = pre ++ x :: post → x ∈ pre → (noteSeq (noteSeqs none pre).1 x).2 = 0 := by
  obtain ⟨k, hk⟩ := mark_isSome (e := none) (l := numbers (s :: l)) (.inr (by simp [numbers]))
  obtain ⟨n, hn, rfl⟩ := (mark_attained hk).resolve_left (by simp)
  obtain ⟨m, hm, rfl⟩ := List.mem_map.mp hn
  obtain ⟨hslot, hdrops⟩ := noteSeqs_spec AtMark.none (s :: l)
  have hlt : m.toNat < 2 ^ 64 - 1 := h m hm
  have hpassed : drops (s :: l) = (passedOver (s :: l) s.toNat m.toNat).card :=
    hdrops.trans (skips_card hk)
  refine ⟨m, hm, ?_, ?_, hpassed, ?_, ?_, fun _ _ _ _ => noteSeq_again⟩
  · intro x hx
    have := (lt_mark hk).1 x.toNat (List.mem_map_of_mem hx)
    exact UInt64.le_iff_toNat_le.mpr (by omega)
  · rw [hk] at hslot
    obtain ⟨exp, hexp, hval⟩ : ∃ exp, (noteSeqs none (s :: l)).1 = some exp ∧ exp.toNat = m.toNat + 1 := by
      rcases hslot.cases with ⟨_, h⟩ | ⟨exp, k, hs, hk, hv⟩
      · cases h
      · cases hk
        exact ⟨exp, hs, by omega⟩
    rw [hexp]
    refine congrArg some (UInt64.toNat_inj.mp ?_)
    rw [hval, UInt64.toNat_add, UInt64.toNat_one]
    omega
  · rw [hpassed]
    exact Finset.card_le_card (missing_subset _ _ _)
  · rw [hpassed]
    exact passedOver_eq_missing _ _ _

/-- The arrivals of the repository's test: 2 and 4 are missing, 3 is late. -/
theorem drops_passed_over_test :
    ∃ m ∈ [0, 1, 5, 6, (3 : UInt64)], (noteSeqs none [0, 1, 5, 6, 3]).1 = some (m + 1) ∧
      drops [0, 1, 5, 6, 3] = (passedOver [0, 1, 5, 6, 3] 0 m.toNat).card := by
  obtain ⟨m, hm, -, hslot, hdrops, -⟩ := drops_passed_over 0 [1, 5, 6, 3]
    (by simp [maxU64])
  exact ⟨m, hm, hslot, hdrops⟩

end Tperf.Dataplane

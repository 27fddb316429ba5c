import Tperf.Config.Hostlist
import Tperf.Testplan.Lemmas.Rounds

/-!
# What a round assigns

The name lookups of `assignments_for_pairs` succeed on distinct hosts, and the targets of a host are
its partners in the round.
-/

namespace Tperf.Config
open Lib

/-! ## The expansion rejects duplicates -/

theorem pushHost_nodup {out out' : List Str} {h : Str} (hnd : out.Nodup)
    (hp : pushHost out h = .ok out') : out'.Nodup := by
  unfold pushHost at hp
  split at hp
  · cases hp
  · rename_i hmem
    cases hp
    exact List.nodup_append.mpr ⟨hnd, by simp, by simpa using fun a ha => ne_of_mem_of_not_mem ha hmem⟩

theorem foldlM_pushHost_nodup {hs out out' : List Str} (hnd : out.Nodup)
    (h : hs.foldlM pushHost out = .ok out') : out'.Nodup := by
  induction hs generalizing out with
  | nil => cases h; exact hnd
  | cons a hs ih =>
      rw [List.foldlM_cons, Outcome.bind_eq_ok] at h
      obtain ⟨mid, h₁, h₂⟩ := h
      exact ih (pushHost_nodup hnd h₁) h₂

theorem expandHostlist_nodup {items hosts : List Str} (h : expandHostlist items = .ok hosts) :
    hosts.Nodup := by
  have hgen : ∀ {items out : List Str}, out.Nodup →
      items.foldlM (fun out item => expandPattern item >>= fun hs => hs.foldlM pushHost out) out =
        .ok hosts → hosts.Nodup := by
    intro items
    induction items with
    | nil => intro out hnd h; cases h; exact hnd
    | cons item items ih =>
        intro out hnd h
        rw [List.foldlM_cons, Outcome.bind_eq_ok] at h
        obtain ⟨mid, h₁, h₂⟩ := h
        obtain ⟨hs, -, h₁⟩ := Outcome.bind_eq_ok.mp h₁
        exact ih (foldlM_pushHost_nodup hnd h₁) h₂
  exact hgen .nil h

end Tperf.Config

namespace Tperf.Testplan
open Lib Proto Circle

/-! ## Lookups and pushes -/

variable {hosts : List Str}

theorem position_of_mem {a : Str} (ha : a ∈ hosts) : position hosts a = .ok (hosts.idxOf a) := by
  have hidx : hosts.findIdx? (· == a) = some (hosts.idxOf a) :=
    List.findIdx?_eq_some_iff_findIdx_eq.mpr ⟨List.idxOf_lt_length_of_mem ha, rfl⟩
  rw [position, hidx]
  rfl

/-- The assignments with the targets `f i` for host `i`, addresses still empty. -/
def withTargets (hosts : List Str) (f : Nat → List Target) : List Assignment :=
  hosts.mapIdx fun i name => { blank i name with targets := f i }

theorem pushTarget_withTargets {f : Nat → List Target} {i : Nat} (hi : i < hosts.length) (t : Target) :
    pushTarget i t (withTargets hosts f) =
      .ok (withTargets hosts fun k => f k ++ if k = i then [t] else []) := by
  have hlt : i < (withTargets hosts f).length := by simpa [withTargets] using hi
  rw [pushTarget, Outcome.index_of_lt hlt, Outcome.ok_bind]
  congr 1
  apply List.ext_getElem
  · simp [withTargets]
  · intro k h₁ h₂
    rw [List.getElem_set]
    split
    · rename_i hk; subst hk; simp [withTargets]
    · rename_i hk; simp [withTargets, Ne.symm hk]

/-- The targets one pair of the round gives to host `i`. -/
def pairTargets (hosts : List Str) (i : Nat) (p : Str × Str) : List Target :=
  (if i = hosts.idxOf p.1 then [target (hosts.idxOf p.2) p.2] else []) ++
    if i = hosts.idxOf p.2 then [target (hosts.idxOf p.1) p.1] else []

theorem assignPair_withTargets {f : Nat → List Target} {p : Str × Str} (h₁ : p.1 ∈ hosts)
    (h₂ : p.2 ∈ hosts) : assignPair hosts (withTargets hosts f) p =
      .ok (withTargets hosts fun i => f i ++ pairTargets hosts i p) := by
  simp only [assignPair, position_of_mem h₁, position_of_mem h₂, Outcome.ok_bind,
    pushTarget_withTargets (List.idxOf_lt_length_of_mem h₁),
    pushTarget_withTargets (List.idxOf_lt_length_of_mem h₂), pairTargets, List.append_assoc]

theorem assignmentsForPairs_eq {ps : List (Str × Str)} (h : players ps ⊆ hosts) :
    assignmentsForPairs hosts ps =
      .ok (withTargets hosts fun i => ps.flatMap (pairTargets hosts i)) := by
  have hgen : ∀ {ps : List (Str × Str)} {f : Nat → List Target}, players ps ⊆ hosts →
      ps.foldlM (assignPair hosts) (withTargets hosts f) =
        .ok (withTargets hosts fun i => f i ++ ps.flatMap (pairTargets hosts i)) := by
    intro ps
    induction ps with
    | nil => intro f _; simp
    | cons p ps ih =>
        intro f h
        simp only [players_cons, List.cons_subset] at h
        rw [List.foldlM_cons, assignPair_withTargets h.1 h.2.1, Outcome.ok_bind, ih h.2.2]
        simp only [List.flatMap_cons, List.append_assoc]
  exact hgen (f := fun _ => []) h

/-! ## The targets are the partners -/

/-- The partners of `h` in a round. -/
def partners (h : Str) (ps : List (Str × Str)) : List Str :=
  ps.flatMap fun p => (if h = p.1 then [p.2] else []) ++ if h = p.2 then [p.1] else []

theorem mem_partners {h b : Str} {ps : List (Str × Str)} :
    b ∈ partners h ps ↔ 0 < meetings h b ps := by
  simp only [partners, List.mem_flatMap, List.mem_append, meetings_pos, Prod.exists]
  grind

theorem partners_eq_nil {h : Str} {ps : List (Str × Str)} : partners h ps = [] ↔ h ∉ players ps := by
  rw [List.eq_nil_iff_forall_not_mem, mem_players]
  simp only [mem_partners, meetings_pos, not_exists]

theorem partners_subset {h b : Str} {ps : List (Str × Str)} (hb : b ∈ partners h ps) :
    b ∈ players ps :=
  mem_players.mpr ⟨h, (meetings_pos.mp (mem_partners.mp hb)).symm⟩

theorem partners_length_le {h : Str} {ps : List (Str × Str)} (hnd : (players ps).Nodup) :
    (partners h ps).length ≤ 1 := by
  induction ps with
  | nil => simp [partners]
  | cons p ps ih =>
      obtain ⟨x, y⟩ := p
      simp only [players_cons, List.nodup_cons, List.mem_cons, not_or] at hnd
      have hcons : partners h ((x, y) :: ps) =
          ((if h = x then [y] else []) ++ if h = y then [x] else []) ++ partners h ps := rfl
      have hps := ih hnd.2.2
      rw [hcons]
      by_cases hin : h ∈ players ps
      · have hx : h ≠ x := fun he => hnd.1.2 (he ▸ hin)
        have hy : h ≠ y := fun he => hnd.2.1 (he ▸ hin)
        simpa [hx, hy] using hps
      · rw [partners_eq_nil.mpr hin]
        by_cases hx : h = x
        · have hy : h ≠ y := fun he => hnd.1.1 (hx ▸ he)
          simp [hx, hx ▸ hy]
        · by_cases hy : h = y
          · have hyx : y ≠ x := fun he => hnd.1.1 he.symm
            simp [hy, hyx]
          · simp [hx, hy]

theorem partners_eq_singleton {h b : Str} {ps : List (Str × Str)} (hnd : (players ps).Nodup) :
    partners h ps = [b] ↔ 0 < meetings h b ps := by
  have hle := partners_length_le (h := h) hnd
  rw [← mem_partners]
  constructor
  · intro he; simp [he]
  · intro hmem
    match hp : partners h ps with
    | [] => simp [hp] at hmem
    | [c] => simp [hp] at hmem; rw [hmem]
    | _ :: _ :: _ => simp [hp] at hle

theorem flatMap_pairTargets {ps : List (Str × Str)} (hps : players ps ⊆ hosts)
    {h : Str} (hh : h ∈ hosts) :
    ps.flatMap (pairTargets hosts (hosts.idxOf h)) =
      (partners h ps).map fun b => target (hosts.idxOf b) b := by
  induction ps with
  | nil => rfl
  | cons p ps ih =>
      simp only [players_cons, List.cons_subset] at hps
      have hidx : ∀ {b}, b ∈ hosts → (hosts.idxOf h = hosts.idxOf b ↔ h = b) := fun hb =>
        List.idxOf_inj hh
      simp only [partners, List.flatMap_cons, List.map_append] at ih ⊢
      rw [ih hps.2.2, pairTargets, if_congr (hidx hps.1) rfl rfl, if_congr (hidx hps.2.1) rfl rfl]
      congr 2 <;> split <;> rfl

/-! ## Addresses -/

section Resolved

variable {SocketAddr : Type} (toStr : SocketAddr → Str) (resolved : List SocketAddr)

/-- The address of host `i`, as text. -/
def addrOf (i : Nat) : Str := ((resolved[i]?).map toStr).getD []

theorem resolvedStr_ofNat {i : Nat} (hi : i < resolved.length) (h32 : i < 2 ^ 32) :
    resolvedStr toStr resolved (.ofNat i) = .ok (addrOf toStr resolved i) := by
  have hid : (UInt32.ofNat i).toNat = i := by
    rw [UInt32.toNat_ofNat']; exact Nat.mod_eq_of_lt h32
  simp only [resolvedStr, hid, Outcome.index_of_lt hi, Outcome.ok_bind, addrOf,
    List.getElem?_eq_getElem hi, Option.map_some, Option.getD_some]

/-- A target with its address. -/
def filledTarget (hosts : List Str) (b : Str) : Target :=
  { target (hosts.idxOf b) b with addr := addrOf toStr resolved (hosts.idxOf b) }

/-- What a round sends to host `h` at position `i`. -/
def planOf (hosts : List Str) (ps : List (Str × Str)) (i : Nat) (h : Str) : Assignment :=
  { blank i h with
    bind := addrOf toStr resolved i
    targets := (partners h ps).map (filledTarget toStr resolved hosts) }

variable {toStr resolved}

theorem roundAssignments_eq {hosts : List Str} (hnd : hosts.Nodup) (h32 : hosts.length < 2 ^ 32)
    (hr : resolved.length = hosts.length) {ps : List (Str × Str)} (hps : players ps ⊆ hosts) :
    roundAssignments toStr resolved hosts ps =
      .ok (hosts.mapIdx (planOf toStr resolved hosts ps)) := by
  have htarget : ∀ b ∈ hosts, fillTarget toStr resolved (target (hosts.idxOf b) b) =
      .ok (filledTarget toStr resolved hosts b) := by
    intro b hb
    have hlt := List.idxOf_lt_length_of_mem hb
    have hstr := resolvedStr_ofNat toStr resolved
      (show hosts.idxOf b < resolved.length by omega) (by omega)
    simp only [fillTarget, target, hstr, Outcome.ok_bind, filledTarget]
  have hone : ∀ p ∈ hosts.zipIdx, fillAssignment toStr resolved
      { blank p.2 p.1 with targets := ps.flatMap (pairTargets hosts p.2) } =
        .ok (planOf toStr resolved hosts ps p.2 p.1) := by
    rintro ⟨h, i⟩ hp
    obtain ⟨hi : i < hosts.length, hget : hosts[i] = h⟩ :=
      List.getElem?_eq_some_iff.mp (List.mem_zipIdx_iff_getElem?.mp hp)
    subst hget
    have hself := resolvedStr_ofNat toStr resolved
      (show i < resolved.length by omega) (by omega)
    have htargets := flatMap_pairTargets hps (List.getElem_mem hi)
    rw [hnd.idxOf_getElem i hi] at htargets
    have hfill : (partners hosts[i] ps).mapM
        (fillTarget toStr resolved ∘ fun b => target (hosts.idxOf b) b) =
          .ok ((partners hosts[i] ps).map (filledTarget toStr resolved hosts)) :=
      Outcome.mapM_ok fun b hb => htarget b (hps (partners_subset hb))
    simp only [fillAssignment, blank, hself, Outcome.ok_bind, htargets]
    rw [List.mapM_map, hfill]
    rfl
  simp only [roundAssignments, assignmentsForPairs_eq hps, Outcome.ok_bind, fillResolved, withTargets,
    List.mapIdx_eq_zipIdx_map]
  rw [List.mapM_map]
  exact Outcome.mapM_ok hone

end Resolved

end Tperf.Testplan

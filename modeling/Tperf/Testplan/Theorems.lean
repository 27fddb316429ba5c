import Tperf.Testplan.Lemmas.Assignments

/-!
# Pairs mode and mesh mode
-/

namespace Tperf.Testplan
open Lib Proto Circle

/-! ## The schedule -/

theorem existsUnique_round {hosts : List Str} (hn : 2 ≤ hosts.length) (hnd : hosts.Nodup)
    {x y : Option Str} (hx : x ∈ slotsOf hosts) (hy : y ∈ slotsOf hosts) (hxy : x ≠ y) :
    ∃! k, k < (slotsOf hosts).length - 1 ∧ 0 < meetings x y (roundSlots hosts k) := by
  have hlen := slotsOf_length hosts
  exact existsUnique_meeting (by omega) (by omega) (slotsOf_nodup hnd) hx hy hxy

section Schedule

variable {hosts : List Str} (hn : 2 ≤ hosts.length)
include hn

theorem length_roundRobinRounds : (roundRobinRounds hosts).length =
    if hosts.length % 2 = 0 then hosts.length - 1 else hosts.length := by
  rw [roundRobinRounds_eq hn, List.length_map, List.length_range, slotsOf_length]
  split <;> omega

theorem round_disjoint (hnd : hosts.Nodup) {r : List (Str × Str)} (hr : r ∈ roundRobinRounds hosts) :
    r.length = hosts.length / 2 ∧ players r ⊆ hosts ∧ (players r).Nodup := by
  obtain ⟨k, hk⟩ := List.mem_iff_getElem?.mp hr
  obtain ⟨-, rfl⟩ := (getElem?_roundRobinRounds hn).mp hk
  exact ⟨length_round hosts k, players_round_subset hosts k, players_round_nodup hnd k⟩

theorem exists_only_meeting (hnd : hosts.Nodup) {a b : Str} (ha : a ∈ hosts) (hb : b ∈ hosts)
    (hab : a ≠ b) : ∃ (k : Nat) (r : List (Str × Str)), (roundRobinRounds hosts)[k]? = some r ∧
      meetings a b r = 1 ∧
      ∀ (k' : Nat) r', (roundRobinRounds hosts)[k']? = some r' → 0 < meetings a b r' → k' = k := by
  obtain ⟨k, ⟨hk, hmeet⟩, huniq⟩ := existsUnique_round hn hnd (x := some a) (y := some b)
    (by simpa using ha) (by simpa using hb) (by simpa using hab)
  refine ⟨k, _, (getElem?_roundRobinRounds hn).mpr ⟨hk, rfl⟩, ?_, ?_⟩
  · have hle := meetings_le_one (players_round_nodup hnd k) a b
    rw [← meetings_filterMap_both] at hmeet
    omega
  · intro k' r' hk' hmeet'
    obtain ⟨hlt, rfl⟩ := (getElem?_roundRobinRounds hn).mp hk'
    rw [meetings_filterMap_both] at hmeet'
    exact huniq k' ⟨hlt, hmeet'⟩

theorem existsUnique_bye (hnd : hosts.Nodup) (hodd : hosts.length % 2 = 1) {a : Str}
    (ha : a ∈ hosts) : ∃! k : Nat, ∃ r, (roundRobinRounds hosts)[k]? = some r ∧ a ∉ players r := by
  have hnone : none ∈ slotsOf hosts := by simp [slotsOf, hodd]
  have hout : ∀ k : Nat, (∃ r, (roundRobinRounds hosts)[k]? = some r ∧ a ∉ players r) ↔
      k < (slotsOf hosts).length - 1 ∧ 0 < meetings (some a) none (roundSlots hosts k) := by
    intro k
    have hin : some a ∈ players (roundSlots hosts k) :=
      (roundSlots_perm hosts k).mem_iff.mpr (some_mem_slotsOf.mpr ha)
    rw [← not_mem_players_both (roundSlots_nodup hnd k) hin]
    simp only [getElem?_roundRobinRounds hn]
    grind
  simpa only [hout] using existsUnique_round hn hnd (some_mem_slotsOf.mpr ha) hnone (by simp)

end Schedule

/-- The schedule is a 1-factorization: in `n - 1` rounds (`n` for odd `n`) of `n / 2` disjoint pairs,
any two hosts meet exactly once, and for odd `n` every host sits out exactly one round. -/
theorem round_robin_one_factorization {hosts : List Str} (hn : 2 ≤ hosts.length)
    (hnd : hosts.Nodup) :
    (roundRobinRounds hosts).length =
      (if hosts.length % 2 = 0 then hosts.length - 1 else hosts.length) ∧
    (∀ r ∈ roundRobinRounds hosts,
      r.length = hosts.length / 2 ∧ players r ⊆ hosts ∧ (players r).Nodup) ∧
    (∀ a ∈ hosts, ∀ b ∈ hosts, a ≠ b → ∃ (k : Nat) (r : List (Str × Str)),
      (roundRobinRounds hosts)[k]? = some r ∧ meetings a b r = 1 ∧
      ∀ (k' : Nat) r', (roundRobinRounds hosts)[k']? = some r' → 0 < meetings a b r' → k' = k) ∧
    (hosts.length % 2 = 1 → ∀ a ∈ hosts, ∃! k : Nat, ∃ r, (roundRobinRounds hosts)[k]? = some r ∧
      a ∉ players r) :=
  ⟨length_roundRobinRounds hn, fun _ hr => round_disjoint hn hnd hr,
    fun _ ha _ hb hab => exists_only_meeting hn hnd ha hb hab,
    fun hodd _ ha => existsUnique_bye hn hnd hodd ha⟩

theorem round_robin_one_factorization_abc : 2 ≤ [['a'], ['b'], ['c']].length ∧
    (roundRobinRounds [['a'], ['b'], ['c']]).length = 3 :=
  ⟨by decide, (@round_robin_one_factorization [['a'], ['b'], ['c']] (by decide) (by decide)).1⟩

/-! ## One round of assignments -/

section Round

variable {SocketAddr : Type} {toStr : SocketAddr → Str} {resolved : List SocketAddr}
  {hosts : List Str} {ps : List (Str × Str)}

theorem getElem?_plan {i : Nat} {a : Assignment} :
    (hosts.mapIdx (planOf toStr resolved hosts ps))[i]? = some a ↔
      ∃ h, hosts[i]? = some h ∧ planOf toStr resolved hosts ps i h = a := by
  simp only [List.getElem?_mapIdx, Option.map_eq_some_iff]

/-- The address of an assignment is the resolved one of its host. -/
theorem plan_bind (hr : resolved.length = hosts.length) {i : Nat} {a : Assignment}
    (ha : (hosts.mapIdx (planOf toStr resolved hosts ps))[i]? = some a) :
    (resolved[i]?).map toStr = some a.bind := by
  obtain ⟨h, hi, rfl⟩ := getElem?_plan.mp ha
  have hlt : i < resolved.length := hr ▸ (List.getElem?_eq_some_iff.mp hi).1
  simp only [planOf, addrOf, List.getElem?_eq_getElem hlt, Option.map_some, Option.getD_some]

/-- A target of host `i` names a host whose own and only target is `i`. -/
theorem plan_target (hnd : hosts.Nodup) (h32 : hosts.length < 2 ^ 32) (hps : players ps ⊆ hosts)
    (hpn : (players ps).Nodup) {i : Nat} {a : Assignment} {t : Target}
    (ha : (hosts.mapIdx (planOf toStr resolved hosts ps))[i]? = some a) (ht : t ∈ a.targets) :
    ∃ b, (hosts.mapIdx (planOf toStr resolved hosts ps))[t.id.toNat]? = some b ∧
      hosts[t.id.toNat]? = some t.name ∧ t.addr = b.bind ∧ b.targets.map (·.id) = [a.selfId] := by
  obtain ⟨h, hi, rfl⟩ := getElem?_plan.mp ha
  obtain ⟨c, hc, rfl⟩ := List.mem_map.mp ht
  have hmem : c ∈ hosts := hps (partners_subset hc)
  have hid : (filledTarget toStr resolved hosts c).id.toNat = hosts.idxOf c := by
    have hlt := List.idxOf_lt_length_of_mem hmem
    simp only [filledTarget, target, UInt32.toNat_ofNat']
    exact Nat.mod_eq_of_lt (by omega)
  have hget : hosts[hosts.idxOf c]? = some c := List.getElem?_idxOf hmem
  have hback : partners c ps = [h] :=
    (partners_eq_singleton hpn).mpr (meetings_comm h c ps ▸ mem_partners.mp hc)
  have hidx : hosts.idxOf h = i := by
    obtain ⟨hlt, rfl⟩ := List.getElem?_eq_some_iff.mp hi
    exact hnd.idxOf_getElem i hlt
  refine ⟨_, getElem?_plan.mpr ⟨c, hid ▸ hget, rfl⟩, hid ▸ hget, ?_, ?_⟩
  · rw [hid]; rfl
  · simp only [planOf, hback, List.map_singleton, filledTarget, target, hidx, blank]

variable (toStr resolved) in
/-- Exactly the hosts outside the round have no target. -/
theorem countP_plan_idle (hnd : hosts.Nodup) (hps : players ps ⊆ hosts) (hpn : (players ps).Nodup) :
    (hosts.mapIdx (planOf toStr resolved hosts ps)).countP (·.targets.isEmpty) + 2 * ps.length =
      hosts.length := by
  have hidle : (hosts.mapIdx (planOf toStr resolved hosts ps)).countP (·.targets.isEmpty) =
      hosts.countP (fun h => ¬ h ∈ players ps) := by
    have hfst := List.countP_map (p := fun h => decide (¬ h ∈ players ps)) (f := Prod.fst) (l := hosts.zipIdx)
    rw [List.zipIdx_map_fst] at hfst
    rw [List.mapIdx_eq_zipIdx_map, List.countP_map, hfst]
    congr 1
    funext p
    rw [Bool.eq_iff_iff]
    simp only [Function.comp, planOf, List.isEmpty_map, List.isEmpty_iff, partners_eq_nil,
      decide_eq_true_eq]
  have hbusy : hosts.countP (fun h => h ∈ players ps) = 2 * ps.length := by
    have hperm : (hosts.filter fun h => h ∈ players ps).Perm (players ps) := by
      rw [List.perm_ext_iff_of_nodup (hnd.filter _) hpn]
      intro h
      simp only [List.mem_filter, decide_eq_true_eq, and_iff_right_iff_imp]
      exact fun h' => hps h'
    rw [List.countP_eq_length_filter, hperm.length_eq, players_length]
  have hsplit := List.length_eq_countP_add_countP (fun h => decide (h ∈ players ps)) (l := hosts)
  simp only [decide_eq_true_eq] at hsplit
  omega

end Round

/-! ## A tournament -/

section Tournament

variable {hosts : List Str} (hn : 2 ≤ hosts.length) (hnd : hosts.Nodup)
include hn hnd

/-- Over the rounds, the partners of a host are all the other hosts, each once. -/
theorem flatMap_partners_perm {h : Str} (hh : h ∈ hosts) :
    ((roundRobinRounds hosts).flatMap (partners h)).Perm (hosts.filter fun b => b ≠ h) := by
  have hother : ∀ {r b}, r ∈ roundRobinRounds hosts → b ∈ partners h r → b ∈ hosts ∧ b ≠ h := by
    intro r b hr hb
    refine ⟨(round_disjoint hn hnd hr).2.1 (partners_subset hb), ?_⟩
    rintro rfl
    rw [mem_partners, meetings_self (round_disjoint hn hnd hr).2.2] at hb
    exact Nat.lt_irrefl 0 hb
  have hnodup : ((roundRobinRounds hosts).flatMap (partners h)).Nodup := by
    rw [List.nodup_flatMap]
    refine ⟨fun r hr => ?_, ?_⟩
    · have hle := partners_length_le (h := h) (round_disjoint hn hnd hr).2.2
      match hp : partners h r with
      | [] => exact .nil
      | [b] => exact List.nodup_singleton b
      | _ :: _ :: _ => simp [hp] at hle
    · rw [List.pairwise_iff_getElem]
      intro i j hi hj hij b hb hb'
      obtain ⟨hmem, hne⟩ := hother (List.getElem_mem hi) hb
      -- the only round of `h` and `b` would be both `i` and `j`
      obtain ⟨k, -, -, -, huniq⟩ := exists_only_meeting hn hnd hh hmem hne.symm
      have h₁ := huniq i _ (List.getElem?_eq_getElem hi) (mem_partners.mp hb)
      have h₂ := huniq j _ (List.getElem?_eq_getElem hj) (mem_partners.mp hb')
      omega
  rw [List.perm_ext_iff_of_nodup hnodup (hnd.filter _)]
  intro b
  simp only [List.mem_flatMap, List.mem_filter, decide_eq_true_eq]
  constructor
  · rintro ⟨r, hr, hb⟩
    exact hother hr hb
  · rintro ⟨hb, hne⟩
    obtain ⟨k, r, hk, hmeet, -⟩ := exists_only_meeting hn hnd hh hb hne.symm
    exact ⟨r, List.mem_of_getElem? hk, mem_partners.mpr (by omega)⟩

omit hn in
/-- The mesh targets of host `i`, as ids. -/
theorem mesh_targets {i : Nat} {m : Assignment} (hm : (assignmentsMesh hosts)[i]? = some m) :
    ∃ h, hosts[i]? = some h ∧ m.targets.map (·.id) =
      (hosts.filter fun b => b ≠ h).map fun b => UInt32.ofNat (hosts.idxOf b) := by
  simp only [assignmentsMesh, List.getElem?_mapIdx, Option.map_eq_some_iff] at hm
  obtain ⟨h, hi, rfl⟩ := hm
  obtain ⟨hlt, hget⟩ := List.getElem?_eq_some_iff.mp hi
  refine ⟨h, hi, ?_⟩
  have hpos : ∀ p ∈ hosts.zipIdx, hosts.idxOf p.1 = p.2 := by
    rintro ⟨b, j⟩ hp
    obtain ⟨hj : j < hosts.length, hb : hosts[j] = b⟩ :=
      List.getElem?_eq_some_iff.mp (List.mem_zipIdx_iff_getElem?.mp hp)
    rw [← hb]
    exact hnd.idxOf_getElem j hj
  have hfilter : (hosts.zipIdx.filter fun p => p.2 ≠ i) = hosts.zipIdx.filter fun p => p.1 ≠ h := by
    apply List.filter_congr
    intro p hp
    have hidx := hpos p hp
    have hhi : hosts.idxOf h = i := by rw [← hget]; exact hnd.idxOf_getElem i hlt
    have hmem : h ∈ hosts := List.mem_of_getElem? hi
    rw [← hidx, ← hhi, Bool.eq_iff_iff]
    simp only [decide_eq_true_eq, ne_eq, not_iff_not]
    exact ⟨fun he => ((List.idxOf_inj hmem).mp he.symm).symm, fun he => by rw [he]⟩
  have hzip : (hosts.zipIdx.filter fun p => p.1 ≠ h).map Prod.fst = hosts.filter fun b => b ≠ h := by
    have hmap := List.filter_map (p := fun b => decide (b ≠ h)) (f := Prod.fst) (l := hosts.zipIdx)
    rw [List.zipIdx_map_fst] at hmap
    exact hmap.symm
  rw [hfilter, ← hzip, List.map_map, List.map_map]
  apply List.map_congr_left
  intro p hp
  simp only [Function.comp, target, hpos p (List.mem_of_mem_filter hp)]

end Tournament

/-- The targets a plan gives to server `i`, as ids. -/
def targetIds (plan : List Assignment) (i : Nat) : List UInt32 :=
  ((plan[i]?).map fun a => a.targets.map (·.id)).getD []

/-- Pairs mode and mesh mode cover the same traffic, and the addresses of a round are the resolved ones. -/
theorem pairs_cover_mesh {SocketAddr : Type} (toStr : SocketAddr → Str) {items hosts : List Str}
    (hx : Config.expandHostlist items = .ok hosts) (hn : 2 ≤ hosts.length)
    (h32 : hosts.length < 2 ^ 32) {resolved : List SocketAddr}
    (hr : resolved.length = hosts.length) :
    (∀ r ∈ roundRobinRounds hosts, ∃ plan, roundAssignments toStr resolved hosts r = .ok plan ∧
      plan.length = hosts.length ∧
      (∀ (i : Nat) a, plan[i]? = some a → a.selfId.toNat = i ∧ (resolved[i]?).map toStr = some a.bind ∧
        a.targets.length ≤ 1 ∧
        ∀ t ∈ a.targets, (resolved[t.id.toNat]?).map toStr = some t.addr ∧
          ∃ b, plan[t.id.toNat]? = some b ∧ hosts[t.id.toNat]? = some t.name ∧
            t.addr = b.bind ∧ b.targets.map (·.id) = [a.selfId]) ∧
      plan.countP (·.targets.isEmpty) = hosts.length % 2) ∧
    ∃ plans, tournament toStr resolved hosts = .ok plans ∧ ∀ i < hosts.length,
      (plans.flatMap fun plan => targetIds plan i).Perm (targetIds (assignmentsMesh hosts) i) := by
  have hnd := Config.expandHostlist_nodup hx
  refine ⟨fun r hr' => ?_, ?_⟩
  · obtain ⟨hlen, hsub, hpn⟩ := round_disjoint hn hnd hr'
    refine ⟨_, roundAssignments_eq hnd h32 hr hsub, by simp,
      fun i a ha => ⟨?_, plan_bind hr ha, ?_, fun t ht => ?_⟩, ?_⟩
    · obtain ⟨h, hi, rfl⟩ := getElem?_plan.mp ha
      have hlt := (List.getElem?_eq_some_iff.mp hi).1
      simp only [planOf, blank, UInt32.toNat_ofNat']
      exact Nat.mod_eq_of_lt (by omega)
    · obtain ⟨h, hi, rfl⟩ := getElem?_plan.mp ha
      simpa only [planOf, List.length_map] using partners_length_le hpn
    · obtain ⟨b, hb, hname, haddr, hback⟩ := plan_target hnd h32 hsub hpn ha ht
      exact ⟨haddr ▸ plan_bind hr hb, b, hb, hname, haddr, hback⟩
    · have hidle := countP_plan_idle toStr resolved hnd hsub hpn
      omega
  · refine ⟨_, Outcome.mapM_ok fun r hr' =>
      roundAssignments_eq hnd h32 hr (round_disjoint hn hnd hr').2.1, fun i hi => ?_⟩
    obtain ⟨m, hm⟩ : ∃ m, (assignmentsMesh hosts)[i]? = some m :=
      ⟨_, List.getElem?_eq_getElem (by simpa [assignmentsMesh] using hi)⟩
    obtain ⟨h, hget, hmesh⟩ := mesh_targets hnd hm
    have hround : ∀ r, targetIds (hosts.mapIdx (planOf toStr resolved hosts r)) i =
        (partners h r).map fun b => UInt32.ofNat (hosts.idxOf b) := by
      intro r
      rw [targetIds, getElem?_plan.mpr ⟨h, hget, rfl⟩]
      simp only [Option.map_some, Option.getD_some, planOf, List.map_map]
      rfl
    have hmeshIds : targetIds (assignmentsMesh hosts) i = m.targets.map (·.id) := by
      rw [targetIds, hm]; rfl
    rw [hmeshIds, hmesh, List.flatMap_map]
    simp only [hround]
    rw [← List.map_flatMap]
    exact (flatMap_partners_perm hn hnd (List.mem_of_getElem? hget)).map _

def threeNames : List Str := [['a'], ['b'], ['c']]

theorem threeNames_expand : Config.expandHostlist threeNames = .ok threeNames := by
  have ha := @Config.expandPattern_plain ['a'] (by decide)
  have hb := @Config.expandPattern_plain ['b'] (by decide)
  have hc := @Config.expandPattern_plain ['c'] (by decide)
  simp [threeNames, Config.expandHostlist, ha, hb, hc, Config.pushHost]

theorem pairs_cover_mesh_three :
    (∃ r plan, r ∈ roundRobinRounds threeNames ∧
      roundAssignments id [['1'], ['2'], ['3']] threeNames r = .ok plan ∧
      plan.countP (·.targets.isEmpty) = 1 ∧ plan.map (·.bind) = [['1'], ['2'], ['3']]) ∧
    ∃ plans, tournament id [['1'], ['2'], ['3']] threeNames = .ok plans ∧ ∀ i < 3,
      (plans.flatMap fun plan => targetIds plan i).Perm (targetIds (assignmentsMesh threeNames) i) := by
  obtain ⟨hrounds, hplans⟩ := @pairs_cover_mesh Str id threeNames threeNames threeNames_expand (by decide)
    (by decide) [['1'], ['2'], ['3']] (by decide)
  refine ⟨?_, hplans⟩
  have hr : [(['b'], ['c'])] ∈ roundRobinRounds threeNames := by decide
  obtain ⟨plan, hplan, hlen, hbind, hidle⟩ := hrounds _ hr
  refine ⟨_, plan, hr, hplan, hidle, ?_⟩
  match plan, hlen with
  | [a, b, c], _ =>
      have ha := (hbind 0 a rfl).2.1
      have hb := (hbind 1 b rfl).2.1
      have hc := (hbind 2 c rfl).2.1
      simp only [List.getElem?_cons_zero, List.getElem?_cons_succ, Option.map_some, id,
        Option.some.injEq] at ha hb hc
      rw [List.map_cons, List.map_cons, List.map_cons, ← ha, ← hb, ← hc]
      rfl

end Tperf.Testplan

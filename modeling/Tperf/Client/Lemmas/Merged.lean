import Tperf.Client.Lemmas.Stored
import Tperf.Lib.Merge

/-!
# The windows of all readers, one after the other
-/

namespace Tperf.Client
open Lib Proto Db

variable {cfg : Config} {J : PeersJson} {s t : Run}

theorem Pump.recv_inserted (p : Pump) (m : Msg) : (p.recv m).inserted = p.inserted ++ windows [m] := by
  cases m with
  | ack cmd =>
      simp only [Pump.recv, windows, List.filterMap_cons, List.filterMap_nil, List.append_nil]
      split
      · rfl
      · split <;> rfl
  | metrics window => rfl
  | error message => rw [Pump.recv]; split <;> simp [windows, Pump.finish]
  | start _ _ | stop => simp [Pump.recv, windows]

/-- `run` has returned an error. -/
def Pc.failed : Pc → Bool
  | .returned (.error _) | .exited (.error _) => true
  | _ => false

/-- The windows passed are those that the readers have got, in some order of the readers. -/
structure Run.Merged (s : Run) : Prop where
  late : s.pc.failed = false → s.late = []
  merge : Merge (s.conns.map fun c => c.reader.inserted) (s.passed ++ s.late)

theorem Run.init_merged : Run.init.Merged := ⟨fun _ => rfl, .nil 0⟩

theorem Run.Merged.same (h : s.Merged) (hpc : t.pc.failed = false → s.pc.failed = false)
    (hpassed : t.passed = s.passed) (hlate : t.late = s.late)
    (hconns : (t.conns.map fun c => c.reader.inserted) = s.conns.map fun c => c.reader.inserted) : t.Merged where
  late hf := by rw [hlate]; exact h.late (hpc hf)
  merge := by rw [hpassed, hlate, hconns]; exact h.merge

theorem Moves.failed_of {pc : Pc} (h : Moves s pc) (hf : pc.failed = false) : s.pc.failed = false := by
  cases h with
  | connected hpc | mesh hpc | traffic hpc | stopping hpc | drain hpc | timeout hpc => rw [hpc]; rfl
  | wait hpc | drained hpc | joined hpc => rw [hpc]; rfl
  | stop hpc | next hpc => rcases hpc with hpc | hpc <;> rw [hpc] <;> rfl
  | failed => cases hf
  | @exit r hpc =>
      rw [hpc]
      cases r with
      | ok _ => rfl
      | error _ => cases hf

/-- Before the client shuts down, `run` has returned only if it has failed. -/
theorem Run.returned_eq (hquiet : s.pc.quiet = false) : s.returned = s.pc.failed := by
  rw [Run.returned]
  cases hpc : s.pc with
  | returned r | exited r =>
      cases r with
      | ok _ => rw [hpc] at hquiet; cases hquiet
      | error _ => rfl
  | _ => rfl

/-- A reader reads a message. -/
theorem Run.Merged.read (h : s.Merged) {i : Nat} (hi : i < s.conns.length) (hquiet : s.pc.quiet = false)
    (m : Msg) : ((s.onConn i (.read m)).effect m).Merged := by
  have hmap : ((s.conns.modify i (.read m)).map fun c => c.reader.inserted) =
      (s.conns.map fun c => c.reader.inserted).modify i (· ++ windows [m]) := by
    apply List.ext_getElem?
    intro j
    rw [List.getElem?_map, List.getElem?_modify, List.getElem?_modify, List.getElem?_map]
    cases s.conns[j]? with
    | none => rfl
    | some c => by_cases hij : i = j <;> simp [hij, Conn.read, Pump.recv_inserted]
  have hi' : i < (s.conns.map fun c => c.reader.inserted).length := by rwa [List.length_map]
  have hkeep : windows [m] = [] → (s.onConn i (.read m)).Merged := by
    intro hnone
    simp only [hnone, List.append_nil] at hmap
    exact h.same id rfl rfl (hmap.trans (List.modify_id _ _))
  cases m with
  | metrics w =>
      have hret := Run.returned_eq hquiet
      have hmore := h.merge.snoc i w hi'
      rw [show (fun x => x ++ [w]) = fun x => x ++ windows [.metrics w] from rfl, ← hmap] at hmore
      rw [Run.effect]
      refine ⟨fun hf => ?_, ?_⟩
      · have hf : s.pc.failed = false := hf
        show (if s.returned then s.late ++ [w] else s.late) = []
        rw [hret, hf]
        exact h.late hf
      · have hpassed : ((s.onConn i (.read (.metrics w))).pass w).passed ++
            ((s.onConn i (.read (.metrics w))).pass w).late = s.passed ++ s.late ++ [w] := by
          show (if s.returned then s.passed else s.passed ++ [w]) ++ (if s.returned then s.late ++ [w] else s.late) = _
          rw [hret]
          cases hf : s.pc.failed with
          | true => simp
          | false => simp [h.late hf]
        rw [hpassed]
        exact hmore
  | ack cmd =>
      rw [Run.effect]
      split
      · exact (hkeep rfl).same id rfl rfl rfl
      · exact hkeep rfl
      · intro w; exact nofun
  | error _ | start _ _ | stop => exact hkeep rfl

theorem Run.Merged.step {l : RunLabel} (h : s.Merged) (hs : s.Stored cfg J)
    (hstep : (run cfg J).step s l = some t) : t.Merged := by
  cases steps hstep with
  | idle => exact h
  | move hm => exact h.same hm.failed_of rfl rfl rfl
  | connect hpc =>
      refine ⟨h.late, ?_⟩
      rw [List.map_append]
      exact h.merge.grow
  | begin hpc => exact h.same (fun _ => by rcases hpc with hpc | hpc <;> rw [hpc] <;> rfl) rfl rfl rfl
  | start hpc =>
      exact h.same (fun _ => by rw [hpc]; rfl) rfl rfl (map_modify_eq (f := Conn.start s.round) fun _ _ => rfl)
  | abort hpc =>
      refine h.same (fun _ => by rw [hpc]; rfl) rfl rfl ?_
      show (s.conns.map Conn.abort).map _ = _
      rw [List.map_map]
      rfl
  | shutdown hpc => exact h.same (fun _ => by rw [hpc]; rfl) rfl rfl rfl
  | cancel | db => exact h.same id rfl rfl rfl
  | @serve i c c' hc hserve =>
      refine h.same id rfl rfl (map_modify_eq (f := fun _ => c') fun a ha => ?_)
      obtain rfl := Option.some.inj (hc.symm.trans ha)
      unfold Conn.serve at hserve
      split at hserve <;> cases hserve
      rfl
  | @reply i r c c' hc hreply =>
      refine h.same id rfl rfl (map_modify_eq (f := fun _ => c') fun a ha => ?_)
      obtain rfl := Option.some.inj (hc.symm.trans ha)
      unfold Conn.reply at hreply
      split at hreply
      · cases hreply
      · split at hreply <;> cases hreply <;> rfl
  | @send i m => exact h.same id rfl rfl (map_modify_eq (f := Conn.send m) fun _ _ => rfl)
  | readErr =>
      refine h.same id rfl rfl (map_modify_eq (f := fun c : Conn => if c.live then c.readErr else c) fun c _ => ?_)
      split <;> rfl
  | @read i c m ms hpc hc hlive hm =>
      have hquiet : s.pc.quiet = false := by
        cases hq : s.pc.quiet with
        | false => rfl
        | true => rw [hs.quiet hq c (List.mem_of_getElem? hc)] at hlive; cases hlive
      exact h.read (List.getElem?_eq_some_iff.mp hc).1 hquiet m

end Tperf.Client

import Tperf.Client.Lemmas.Run

/-!
# Where the client is in its rounds
-/

namespace Tperf.Client
open Lib Proto

variable {cfg : Config} {J : Db.PeersJson} {s t : Run} {l : RunLabel}

/-- A round has begun and is not over. -/
def Pc.inRound : Pc → Bool
  | .sending _ | .waiting | .traffic | .mesh => true
  | _ => false

structure Run.Begun (s : Run) : Prop where
  connecting : s.pc = .connecting → s.round = 0
  started : s.pc.inRound = true → 0 < s.round

theorem Run.init_begun : Run.init.Begun := ⟨fun _ => rfl, by simp [Run.init, Pc.inRound]⟩

theorem Moves.inRound {pc : Pc} (h : Moves s pc) (hpc : pc.inRound = true) : s.pc.inRound = true := by
  cases h with
  | wait h | mesh h | traffic h => rw [h]; rfl
  | _ => cases hpc

theorem Run.Begun.step (h : s.Begun) (hs : (run cfg J).step s l = some t) : t.Begun := by
  cases steps hs with
  | idle => exact h
  | move hm =>
      refine ⟨fun hpc => ?_, fun hpc => h.started (hm.inRound hpc)⟩
      obtain rfl : _ = Pc.connecting := hpc
      cases hm
  | connect hpc => exact ⟨h.connecting, fun hround => h.started hround⟩
  | begin _ => exact ⟨by simp [Run.beginRound], fun _ => Nat.succ_pos _⟩
  | start hpc _ => exact ⟨by simp [Run.goto], fun _ => h.started (by rw [hpc]; rfl)⟩
  | abort _ | shutdown _ => exact ⟨by simp [Run.goto], by simp [Run.goto, Pc.inRound]⟩
  | read =>
      refine ⟨fun hpc => ?_, fun hpc => ?_⟩
      · rw [Run.effect_pc] at hpc
        rw [Run.effect_round]
        exact h.connecting hpc
      · rw [Run.effect_pc] at hpc
        rw [Run.effect_round]
        exact h.started hpc
  | cancel | serve | reply | send | readErr | db => exact ⟨h.connecting, h.started⟩

/-- The steps that are not of the main task. -/
def elsewhere : RunLabel → Bool
  | .cancel | .serve _ | .reply _ _ | .send _ _ | .read _ | .readErr _ | .db _ => true
  | _ => false

theorem elsewhere_pc (hl : elsewhere l = true) (hs : (run cfg J).step s l = some t) : t.pc = s.pc := by
  cases l with
  | cancel => simp only [run] at hs; split at hs <;> cases hs; rfl
  | serve i => simp only [run] at hs; split at hs <;> cases hs; rfl
  | reply i r => simp only [run] at hs; split at hs <;> cases hs; rfl
  | send i m => cases hs; rfl
  | readErr i => simp only [run] at hs; split at hs <;> cases hs; rfl
  | read i =>
      simp only [run] at hs
      split at hs
      · cases hs
      · split at hs <;> cases hs
        exact Run.effect_pc _ _
      · cases hs
  | db r =>
      simp only [run] at hs
      split at hs
      · cases hs
      · obtain ⟨db, -, rfl⟩ := Option.map_eq_some_iff.mp hs
        rfl
  | _ => cases hl

end Tperf.Client

import Tperf.Client.Run

/-!
# What a step of the client does
-/

namespace Tperf.Client
open Lib Proto Testplan

variable {cfg : Config} {J : Db.PeersJson}

/-- Where the main task goes without doing anything else. -/
inductive Moves (s : Run) : Pc → Prop
  | connected (h : s.pc = .connecting) : Moves s .nextRound
  | failed (e : Str) (h : s.pc = .connecting ∨ ∃ k, s.pc = .sending k) : Moves s (.returned (.error e))
  | stop (h : s.pc = .nextRound ∨ s.pc = .mesh) : Moves s (.stopping 0)
  | wait {k : Nat} (h : s.pc = .sending k) (hk : s.conns.length ≤ k) : Moves s .waiting
  | mesh {k : Nat} (h : s.pc = .sending k) : Moves s .mesh
  | traffic (h : s.pc = .waiting) : Moves s .traffic
  | next (h : s.pc = .waiting ∨ s.pc = .traffic) : Moves s .nextRound
  | stopping {k : Nat} (h : s.pc = .stopping k) : Moves s (.stopping (k + 1))
  | drain {k : Nat} (h : s.pc = .stopping k) : Moves s .draining
  | drained (h : s.pc = .draining) (hno : s.conns.any Conn.live = false) : Moves s .closing
  | timeout (h : s.pc = .draining) : Moves s .aborting
  | joined {r : Except Str Unit} (h : s.pc = .joining) (hr : s.db.ended = some r) : Moves s (.returned r)
  | exit {r : Except Str Unit} (h : s.pc = .returned r) : Moves s (.exited r)

inductive Steps (cfg : Config) (J : Db.PeersJson) (s : Run) : RunLabel → Run → Prop
  | idle {l : RunLabel} : Steps cfg J s l s
  | move {l : RunLabel} {pc : Pc} (h : Moves s pc) : Steps cfg J s l (s.goto pc)
  | connect {host : Str} (h : s.pc = .connecting) :
      Steps cfg J s .connect { s with conns := s.conns ++ [.connect host] }
  | begin (h : s.pc = .connecting ∨ s.pc = .nextRound) : Steps cfg J s .main s.beginRound
  | start {k : Nat} (h : s.pc = .sending k) (hk : k < s.conns.length) :
      Steps cfg J s .sendStart ((s.onConn k (.start s.round)).goto (.sending (k + 1)))
  | abort (h : s.pc = .aborting) : Steps cfg J s .main (s.abortAll.goto .closing)
  | shutdown (h : s.pc = .closing) :
      Steps cfg J s .main ({ s with db := s.db.send .shutdown }.goto .joining)
  | cancel : Steps cfg J s .cancel { s with cancelled := true }
  | serve {i : Nat} {c c' : Conn} (hc : s.conns[i]? = some c) (h : c.serve = some c') :
      Steps cfg J s (.serve i) (s.onConn i fun _ => c')
  | reply {i : Nat} {r : Except Str Unit} {c c' : Conn} (hc : s.conns[i]? = some c)
      (h : c.reply r = some c') : Steps cfg J s (.reply i r) (s.onConn i fun _ => c')
  | send {i : Nat} {m : Msg} : Steps cfg J s (.send i m) (s.onConn i (.send m))
  | read {i : Nat} {c : Conn} {m : Msg} {ms : List Msg} (hpc : ∀ r, s.pc ≠ .exited r)
      (hc : s.conns[i]? = some c) (hlive : c.live = true) (hm : c.outbox = m :: ms) :
      Steps cfg J s (.read i) ((s.onConn i (.read m)).effect m)
  | readErr {i : Nat} : Steps cfg J s (.readErr i) (s.onConn i fun c => if c.live then c.readErr else c)
  | db {inserted : Except Str Unit} {db : Db} (hpc : ∀ r, s.pc ≠ .exited r)
      (h : s.db.next J cfg.tag inserted = some db) : Steps cfg J s (.db inserted) { s with db := db }

theorem steps_main {s t : Run} (h : s.main cfg = some t) : Steps cfg J s .main t := by
  cases hpc : s.pc with
  | connecting =>
      simp only [Run.main, hpc] at h
      split at h
      · cases h
      · split at h <;> cases h
        · exact .move (.connected hpc)
        · exact .begin (.inl hpc)
  | nextRound =>
      simp only [Run.main, hpc] at h
      split at h
      · cases h; exact .move (.stop (.inl hpc))
      · split at h <;> cases h
        · exact .idle
        · exact .begin (.inr hpc)
  | sending k =>
      simp only [Run.main, hpc] at h
      split at h
      · cases h
      · rename_i hk
        split at h <;> cases h
        · exact .move (.wait hpc (Nat.not_lt.mp hk))
        · exact .move (.mesh hpc)
  | mesh =>
      simp only [Run.main, hpc] at h
      split at h <;> cases h
      exact .move (.stop (.inr hpc))
  | stopping k =>
      simp only [Run.main, hpc] at h
      split at h <;> cases h
      exact .move (.drain hpc)
  | draining =>
      simp only [Run.main, hpc] at h
      split at h
      · cases h
      · rename_i hno
        cases h
        exact .move (.drained hpc (Bool.eq_false_iff.mpr hno))
  | aborting =>
      simp only [Run.main, hpc] at h
      cases h
      exact .abort hpc
  | closing =>
      simp only [Run.main, hpc] at h
      cases h
      exact .shutdown hpc
  | joining =>
      simp only [Run.main, hpc, Option.map_eq_some_iff] at h
      obtain ⟨r, hr, rfl⟩ := h
      exact .move (.joined hpc hr)
  | returned r =>
      simp only [Run.main, hpc] at h
      cases h
      exact .move (.exit hpc)
  | waiting => simp only [Run.main, hpc] at h; cases h
  | traffic => simp only [Run.main, hpc] at h; cases h
  | exited r => simp only [Run.main, hpc] at h; cases h

theorem steps_poll {s : Run} (hpc : s.pc = .waiting) (expired : Bool) :
    Steps cfg J s (.poll expired) (s.poll expired) := by
  unfold Run.poll
  split
  · split
    · exact .move (.next (.inl hpc))
    · split
      · exact .move (.traffic hpc)
      · exact .idle
  · exact .move (.traffic hpc)

theorem steps {s t : Run} {l : RunLabel} (h : (run cfg J).step s l = some t) : Steps cfg J s l t := by
  cases l with
  | connect =>
      simp only [run] at h
      split at h <;> cases h
      rename_i hpc _
      exact .connect hpc
  | connectErr e =>
      simp only [run] at h
      split at h <;> cases h
      rename_i hpc
      exact .move (.failed e (.inl hpc))
  | main => exact steps_main h
  | sendStart =>
      simp only [run] at h
      split at h
      · rename_i k hpc
        split at h <;> cases h
        rename_i hk
        exact .start hpc hk
      · cases h
  | sendStartErr e =>
      simp only [run] at h
      split at h
      · rename_i k hpc
        obtain ⟨c, -, rfl⟩ := Option.map_eq_some_iff.mp h
        exact .move (.failed _ (.inr ⟨k, hpc⟩))
      · cases h
  | poll expired =>
      simp only [run] at h
      split at h <;> cases h
      rename_i hpc
      exact steps_poll hpc expired
  | slept =>
      simp only [run] at h
      split at h <;> cases h
      rename_i hpc
      exact .move (.next (.inr hpc))
  | sendStop =>
      simp only [run] at h
      split at h
      · rename_i k hpc
        split at h <;> cases h
        exact .move (.stopping hpc)
      · cases h
  | drainTimeout =>
      simp only [run] at h
      split at h <;> cases h
      rename_i hpc
      exact .move (.timeout hpc)
  | cancel =>
      simp only [run] at h
      split at h <;> cases h
      exact .cancel
  | serve i =>
      simp only [run] at h
      split at h <;> cases h
      rename_i c' hc'
      obtain ⟨c, hc, hserve⟩ := Option.bind_eq_some_iff.mp hc'
      exact .serve hc hserve
  | reply i r =>
      simp only [run] at h
      split at h <;> cases h
      rename_i c' hc'
      obtain ⟨c, hc, hreply⟩ := Option.bind_eq_some_iff.mp hc'
      exact .reply hc hreply
  | send i m =>
      simp only [run] at h
      cases h
      exact .send
  | read i =>
      simp only [run] at h
      split at h
      · cases h
      · rename_i c hc hpc
        split at h <;> cases h
        rename_i m ms hlive hm
        exact .read (fun r hr => hpc r hr) hc hlive hm
      · cases h
  | readErr i =>
      simp only [run] at h
      split at h <;> cases h
      exact .readErr
  | db inserted =>
      simp only [run] at h
      split at h
      · cases h
      · rename_i hpc
        obtain ⟨db, hdb, rfl⟩ := Option.map_eq_some_iff.mp h
        exact .db (fun r hr => hpc r hr) hdb

/-! ## Fields that a step does not write -/

section

variable (s : Run) (m : Msg)

@[simp] theorem Run.effect_pc : (s.effect m).pc = s.pc := by
  unfold Run.effect
  split
  · rfl
  · split <;> rfl

@[simp] theorem Run.effect_conns : (s.effect m).conns = s.conns := by
  unfold Run.effect
  split
  · rfl
  · split <;> rfl

@[simp] theorem Run.effect_round : (s.effect m).round = s.round := by
  unfold Run.effect
  split
  · rfl
  · split <;> rfl

theorem Run.effect_startAcks :
    (s.effect m).startAcks = s.startAcks + if m = startAck then 1 else 0 := by
  unfold Run.effect
  split
  · rfl
  · split <;> rfl

end

end Tperf.Client

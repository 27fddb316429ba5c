import Tperf.Lib.Wire
import Tperf.Server.Lemmas.Session

/-!
# The socket of a session is a framed stream

As long as the socket has reported no error, every step of a session that tears no frame is a step of
the stream behind the lock, or none.
-/

namespace Tperf.Server
open Lib Proto

/-- The step takes the lock from a metrics task with a piece of its frame on the socket, and
`handle_conn` goes on to write. -/
def Session.tears (s : Session) (l : SessionLabel) : Bool :=
  match l, s.pc, s.lock with
  | .joined, .stopJoin _ k, some (.metrics _ _, n) => n != 0 && k != .finish
  | _, _, _ => false

namespace Session

variable {J : SerdeJson} {s t : Session}

def fits (J : SerdeJson) (x : Sent) : Bool := decide ((J.toVec x.msg).length ≤ maxFrame)

def bytes (J : SerdeJson) (x : Sent) : List UInt8 := frame (J.toVec x.msg)

/-- The stream of a session. -/
def wire (s : Session) : Wire Sent UInt8 := ⟨s.out, s.sent, s.lock, decide (s.pc = .returned)⟩

/-! ## What leaves the socket alone -/

structure Same (s t : Session) : Prop where
  out : t.out = s.out
  sent : t.sent = s.sent
  lock : t.lock = s.lock
  sockErr : t.sockErr = s.sockErr

theorem stopThen_same (s : Session) (k : After) : s.Same (s.stopThen k) := by
  rw [stopThen]
  split <;> exact ⟨rfl, rfl, rfl, rfl⟩

theorem recv_same (s : Session) (m : Msg) : s.Same (s.recv m) := by
  cases m with
  | start config assignment =>
      have h := stopThen_same { s with requests := s.requests ++ [.start config assignment] }
        (.startTest config assignment)
      exact ⟨h.out, h.sent, h.lock, h.sockErr⟩
  | stop =>
      have h := stopThen_same { s with requests := s.requests ++ [.stop] } .ackStop
      exact ⟨h.out, h.sent, h.lock, h.sockErr⟩
  | ack _ => exact ⟨rfl, rfl, rfl, rfl⟩
  | metrics _ => exact ⟨rfl, rfl, rfl, rfl⟩
  | error _ => exact ⟨rfl, rfl, rfl, rfl⟩

theorem wrote_same (s : Session) (ok : Bool) (x : Sent) : s.Same (s.wrote ok x) := by
  cases x with
  | metrics i w => exact ⟨rfl, rfl, rfl, rfl⟩
  | reply r =>
      cases r with
      | started i => cases ok <;> exact ⟨rfl, rfl, rfl, rfl⟩
      | failed message => exact ⟨rfl, rfl, rfl, rfl⟩
      | stopped => exact ⟨rfl, rfl, rfl, rfl⟩

/-- An error of the socket is never forgotten. -/
theorem sockErr_step {l : SessionLabel} (hs : (session J).step s l = some t)
    (ht : t.sockErr = false) : s.sockErr = false := by
  cases steps hs with
  | recv m _ => rwa [(recv_same s m).sockErr] at ht
  | recvErr _ => rwa [(stopThen_same s _).sockErr] at ht
  | lock l x _ _ _ =>
      rw [locked] at ht
      split at ht
      · exact ht
      · rwa [(wrote_same s false x).sockErr] at ht
  | last x n k _ _ _ =>
      rw [(wrote_same _ true x).sockErr] at ht
      exact ht
  | writeErr x n _ =>
      rw [(wrote_same _ false x).sockErr] at ht
      cases ht
  | _ => exact ht

/-! ## Whoever writes still runs -/

theorem Inv.running (h : s.Inv) {i : Nat} {u : RunningTest} (hu : s.tests[i]? = some u)
    (hw : u.metrics ≠ .done) : s.test = some i ∨ s.pc.holds = some i := by
  cases hj : u.joined with
  | false => exact h.held i u hu hj
  | true => exact absurd (h.joined i u hu hj).2.2 hw

theorem Inv.owner_running (h : s.Inv) {x : Sent} (hx : s.Owns x) :
    (∃ r, s.pc = .replying r) ∨ s.test.isSome ∨ s.pc.holds.isSome := by
  cases x with
  | reply r => exact .inl ⟨r, hx⟩
  | metrics i w =>
      obtain ⟨u, hu, hw⟩ := hx
      rcases h.running hu (by simp [hw]) with ht | ht
      · exact .inr (.inl (by rw [ht]; rfl))
      · exact .inr (.inr (by rw [ht]; rfl))

theorem Inv.not_returned (h : s.Inv) {x : Sent} (hx : s.Owns x) : s.pc ≠ .returned := by
  intro hpc
  have hvar := h.var (by simp [hpc])
  rcases h.owner_running hx with ⟨r, hr⟩ | ht | ht
  · rw [hpc] at hr; cases hr
  · rw [hvar] at ht; cases ht
  · rw [hpc] at ht; cases ht

/-- With no test at hand and no reply to write, nobody has the lock. -/
theorem Inv.lock_free (h : s.Inv) (hpc : s.pc = .reading) (ht : s.test = none) : s.lock = none := by
  cases hl : s.lock with
  | none => rfl
  | some o =>
      obtain ⟨x, n⟩ := o
      rcases h.owner_running (h.owner x n hl) with ⟨r, hr⟩ | hs | hs
      · rw [hpc] at hr; cases hr
      · rw [ht] at hs; cases hs
      · rw [hpc] at hs; cases hs

/-! ## The simulation -/

/-- A move of `handle_conn` that leaves the socket alone. -/
theorem sim_same (h : s.Same t) (hs : s.pc ≠ .returned) (ht : t.pc = .returned → s.lock = none) :
    ∃ ks, (Lib.wire (fits J) (bytes J)).run s.wire ks = some t.wire := by
  have hw : s.wire = ⟨s.out, s.sent, s.lock, false⟩ := by rw [wire, decide_eq_false hs]
  by_cases hr : t.pc = .returned
  · refine ⟨[.shut], ?_⟩
    rw [hw, wire, h.out, h.sent, h.lock, decide_eq_true hr, ht hr]
    rfl
  · refine ⟨[], ?_⟩
    rw [hw, wire, h.out, h.sent, h.lock, decide_eq_false hr]
    rfl

theorem sim_eq (h : s.Same t) (hpc : t.pc = s.pc) :
    ∃ ks, (Lib.wire (fits J) (bytes J)).run s.wire ks = some t.wire :=
  ⟨[], by rw [Machine.run_nil, wire, wire, h.out, h.sent, h.lock, hpc]⟩

theorem sim {l : SessionLabel} (h : s.Inv) (hs : (session J).step s l = some t)
    (hl : s.tears l = false) (hok : t.sockErr = false) :
    ∃ ks, (Lib.wire (fits J) (bytes J)).run s.wire ks = some t.wire := by
  cases steps hs with
  | recv m hpc =>
      refine sim_same (recv_same s m) (by simp [hpc]) fun hr => ?_
      have hne : ∀ (k : After), k ≠ .finish →
          ({ s with requests := s.requests ++ [m] }.stopThen k).pc ≠ .returned := by
        intro k hk
        rw [stopThen]
        split
        · cases k with
          | finish => exact absurd rfl hk
          | _ => exact fun h => by cases h
        · exact fun h => by cases h
      cases m with
      | start config assignment => exact absurd hr (hne _ (by simp))
      | stop => exact absurd hr (hne _ (by simp))
      | _ => exact absurd (hpc.symm.trans hr) (by simp)
  | recvErr hpc =>
      refine sim_same (stopThen_same s _) (by simp [hpc]) fun hr => ?_
      refine h.lock_free hpc ?_
      cases ht : s.test with
      | none => rfl
      | some i => rw [stopThen, ht] at hr; cases hr
  | started spawned hpc =>
      exact sim_same ⟨rfl, rfl, rfl, rfl⟩ (by simp [hpc]) fun hr => by cases hr
  | startOp l op ops spawned more hpc _ =>
      exact sim_same ⟨rfl, rfl, rfl, rfl⟩ (by simp [hpc]) fun hr => by cases hr
  | startErr message op ops spawned hpc _ =>
      exact sim_same ⟨rfl, rfl, rfl, rfl⟩ (by simp [hpc]) fun hr => by cases hr
  | lock l x hfree hr hm =>
      have hx : s.Owns x := by
        cases x with
        | reply r => exact (hr r rfl).1
        | metrics i w => exact (hm i w rfl).2
      have hpc := h.not_returned hx
      rw [locked]
      split
      · rename_i bs hw
        refine ⟨[.take x], ?_⟩
        have hfit : fits J x = true := decide_eq_true (writeFrame_eq_ok.mp hw).1
        simp [wire, Lib.wire, hfree, hpc, hfit]
      · exact sim_same (wrote_same s false x) hpc fun _ => hfree
  | write x n k hlock hk hlt =>
      refine ⟨[.put k], ?_⟩
      have h₁ : ¬ (k = 0 ∨ (bytes J x).length < n + k) := by rw [bytes]; omega
      have h₂ : n + k < (bytes J x).length := hlt
      simp only [Machine.run_cons, Machine.run_nil, Lib.wire, wire, hlock, if_neg h₁, if_pos h₂]
      rfl
  | last x n k hlock hk hlen =>
      have hx := h.owner x n hlock
      have hpc := h.not_returned hx
      refine ⟨[.put k], ?_⟩
      have h₁ : ¬ (k = 0 ∨ (bytes J x).length < n + k) := by rw [bytes]; omega
      have h₂ : ¬ n + k < (bytes J x).length := by rw [bytes]; omega
      have hsame := wrote_same { s with
        out := s.out ++ ((frame (J.toVec x.msg)).drop n).take k
        lock := none
        sent := s.sent ++ [x] } true x
      have hret : ({ s with
          out := s.out ++ ((frame (J.toVec x.msg)).drop n).take k
          lock := none
          sent := s.sent ++ [x] }.wrote true x).pc ≠ .returned := by
        cases x with
        | metrics i w => exact hpc
        | reply r => cases r <;> exact fun h => by cases h
      simp only [Machine.run_cons, Machine.run_nil, Lib.wire, wire, hlock, if_neg h₁, if_neg h₂,
        hsame.out, hsame.sent, hsame.lock, decide_eq_false hpc, decide_eq_false hret]
      rfl
  | writeErr x n hlock =>
      rw [(wrote_same _ false x).sockErr] at hok
      cases hok
  | metrics l i u pc hu hw => exact sim_eq ⟨rfl, rfl, rfl, rfl⟩ rfl
  | ioDone i j => exact sim_eq ⟨rfl, rfl, rfl, rfl⟩ rfl
  | stopped l i k hpc => exact sim_same ⟨rfl, rfl, rfl, rfl⟩ (by simp [hpc]) fun hr => by cases hr
  | joined i k hpc =>
      have hne : s.pc ≠ .returned := by simp [hpc]
      cases hlock : s.lock with
      | none =>
          exact sim_same ⟨rfl, rfl, by simp [joined, hlock], rfl⟩ hne fun _ => hlock
      | some o =>
          obtain ⟨x, n⟩ := o
          obtain ⟨j, w, u, rfl, hu, hw⟩ :=
            h.owner_metrics (by simp [hpc]) hlock
          obtain rfl : i = j := by
            rcases h.running hu (by simp [hw]) with ht | ht
            · rw [h.var (by simp [hpc])] at ht; cases ht
            · rw [hpc] at ht; cases ht; rfl
          simp only [tears, hpc, hlock] at hl
          by_cases hk : k = .finish
          · refine ⟨[.shut], ?_⟩
            subst hk
            simp [wire, Lib.wire, hne, joined, After.pc, hlock]
          · refine ⟨[.drop], ?_⟩
            have hn : n = 0 := by simpa [hk] using hl
            have hret : k.pc ≠ .returned := by cases k <;> first | exact absurd rfl hk | simp [After.pc]
            simp [wire, Lib.wire, hne, joined, hlock, hn, hret]

/-- A run that tears no frame, on a socket without errors, is a run of the stream. -/
theorem run_sim {ls : List SessionLabel} (h : s.Inv)
    (hs : ((session J).guard fun s l => s.tears l = false).run s ls = some t)
    (hok : t.sockErr = false) :
    ∃ ks, (Lib.wire (fits J) (bytes J)).run s.wire ks = some t.wire := by
  have := Machine.run_relates (I := Session.Inv)
    (R := fun s t : Session => t.sockErr = false → s.sockErr = false ∧
      ∃ ks, (Lib.wire (fits J) (bytes J)).run s.wire ks = some t.wire)
    (fun hi hst => hi.step (Machine.guard_step.mp hst).2)
    (fun s hs => ⟨hs, [], rfl⟩)
    (fun h₁ h₂ hu => by
      obtain ⟨ht, ks₂, h₂⟩ := h₂ hu
      obtain ⟨hs, ks₁, h₁⟩ := h₁ ht
      exact ⟨hs, ks₁ ++ ks₂, by rw [Machine.run_append, h₁]; exact h₂⟩)
    (fun hi hst hok => by
      obtain ⟨hg, hst⟩ := Machine.guard_step.mp hst
      exact ⟨sockErr_step hst hok, sim hi hst hg hok⟩) hs h hok
  exact this.2

end Session

end Tperf.Server

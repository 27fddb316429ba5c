import Tperf.Server.Lemmas.Replies
import Tperf.Server.Lemmas.Stream

/-!
# What a step adds to the history of a session
-/

namespace Tperf.Server
open Lib Proto

/-- What `read_frame` returns in a step. -/
def asked : SessionLabel → List Msg
  | .recv m => [m]
  | _ => []

namespace Session

variable {J : SerdeJson} {s t : Session}

theorem recv_requests (s : Session) (m : Msg) : (s.recv m).requests = s.requests ++ [m] := by
  cases m with
  | start config assignment => exact (stopThen_fields _ _).1
  | stop => exact (stopThen_fields _ _).1
  | ack _ | metrics _ | error _ => rfl

theorem wrote_requests (s : Session) (ok : Bool) (x : Sent) : (s.wrote ok x).requests = s.requests := by
  cases x with
  | metrics i w => rfl
  | reply r => cases r <;> cases ok <;> rfl

theorem locked_requests (s : Session) (x : Sent) : (s.locked J x).requests = s.requests := by
  rw [locked]
  split
  · rfl
  · exact wrote_requests s false x

theorem requests_step {l : SessionLabel} (hs : (session J).step s l = some t) :
    t.requests = s.requests ++ asked l := by
  have hother : ∀ {l t}, Steps J s l t → (∀ m, l ≠ .recv m) → t.requests = s.requests := by
    intro l t hsteps hl
    cases hsteps with
    | recv m => exact absurd rfl (hl m)
    | recvErr => exact (stopThen_fields s _).1
    | lock l x => exact locked_requests s x
    | last x => exact wrote_requests _ true x
    | writeErr x => exact wrote_requests _ false x
    | _ => rfl
  cases l with
  | recv m =>
      simp only [session] at hs
      split at hs
      · cases hs; exact recv_requests s m
      · cases hs
  | _ => simpa [asked] using hother (steps hs) (by simp)

/-- Only a write puts anything on the socket. -/
theorem step_silent {l : SessionLabel} (hs : (session J).step s l = some t) (hl : ∀ k, l ≠ .write k) :
    t.out = s.out ∧ t.sent = s.sent := by
  have hlocked : ∀ x, (s.locked J x).out = s.out ∧ (s.locked J x).sent = s.sent := by
    intro x
    rw [locked]
    split
    · exact ⟨rfl, rfl⟩
    · exact ⟨(wrote_same s false x).out, (wrote_same s false x).sent⟩
  cases steps hs with
  | recv m => exact ⟨(recv_same s m).out, (recv_same s m).sent⟩
  | recvErr => exact ⟨(stopThen_same s _).out, (stopThen_same s _).sent⟩
  | lock l x => exact hlocked x
  | write x n k => exact absurd rfl (hl k)
  | last x n k => exact absurd rfl (hl k)
  | writeErr x => exact ⟨(wrote_same _ false x).out, (wrote_same _ false x).sent⟩
  | _ => exact ⟨rfl, rfl⟩

theorem write_sockErr {k : Nat} (hs : (session J).step s (.write k) = some t) : t.sockErr = s.sockErr := by
  cases steps hs with
  | last x n => exact (wrote_same _ true x).sockErr
  | lock l x =>
      rw [locked]
      split
      · rfl
      · exact (wrote_same s false x).sockErr
  | _ => rfl

/-- A step sends one message at most. -/
theorem sent_one {l : SessionLabel} (hs : (session J).step s l = some t) :
    t.sent = s.sent ∨ ∃ x, t.sent = s.sent ++ [x] := by
  cases steps hs with
  | last x n => exact .inr ⟨x, (wrote_same _ true x).sent⟩
  | recv m => exact .inl (recv_same s m).sent
  | recvErr => exact .inl (stopThen_same s _).sent
  | lock l x =>
      rw [locked]
      split
      · exact .inl rfl
      · exact .inl (wrote_same s false x).sent
  | writeErr x => exact .inl (wrote_same _ false x).sent
  | _ => exact .inl rfl

theorem sent_step {l : SessionLabel} (hs : (session J).step s l = some t) : s.sent <+: t.sent := by
  rcases sent_one hs with h | ⟨x, h⟩
  · exact h ▸ List.prefix_rfl
  · exact h ▸ List.prefix_append _ _

end Session

end Tperf.Server

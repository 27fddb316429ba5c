import Tperf.Server.Lemmas.History

/-!
# The starts of a session

A start has the number that it has among the starts of its session, from 1 on.
-/

namespace Tperf.Server
open Lib Proto

def AllStarts (ms : List Msg) : Prop := ∀ m ∈ ms, ∃ config assignment, m = .start config assignment

theorem AllStarts.starts_eq {ms : List Msg} (h : AllStarts ms) : starts ms = ms.length := by
  induction ms with
  | nil => rfl
  | cons m ms ih =>
      obtain ⟨config, assignment, rfl⟩ := h m List.mem_cons_self
      rw [starts, List.length_cons, ih fun m hm => h m (List.mem_cons_of_mem _ hm)]

/-- What `start_test` has returned, until it is answered. -/
def MainPc.outcome : MainPc → Option (Except Str Nat)
  | .replying (.started k) => some (.ok k)
  | .replying (.failed message) => some (.error message)
  | _ => none

/-- A start has been read and not been answered. -/
def MainPc.owes (pc : MainPc) : Bool := pc.awaits || pc.outcome.isSome

/-- The numbers of the starts that made a test, from `n` on. -/
def okStarts : Nat → List (Except Str Nat) → List Nat
  | _, [] => []
  | n, .ok _ :: os => n :: okStarts (n + 1) os
  | n, .error _ :: os => okStarts (n + 1) os

theorem okStarts_append (n : Nat) (os os' : List (Except Str Nat)) :
    okStarts n (os ++ os') = okStarts n os ++ okStarts (n + os.length) os' := by
  induction os generalizing n with
  | nil => simp [okStarts]
  | cons o os ih => cases o <;> simp [okStarts, ih, Nat.add_comm, Nat.add_left_comm]

namespace Session

/-- The start that is read and not answered. -/
def busy (s : Session) : Option Nat := if s.pc.owes then some (Server.starts s.requests) else none

/-- The starts that have been acknowledged. -/
def ackedStarts (s : Session) : List Nat :=
  okStarts 1 (if s.pc.outcome.isSome then s.outcomes.dropLast else s.outcomes)

/-- The start whose test is the last one, if it made a test. -/
def running (s : Session) : Option Nat :=
  if s.pc.owes then none
  else match s.outcomes.getLast? with
    | some (.ok _) => some s.outcomes.length
    | _ => none

theorem running_busy {s : Session} {n : Nat} (h : s.busy = some n) : s.running = none := by
  rw [busy] at h
  split at h
  · rename_i ho; rw [running, if_pos ho]
  · cases h

/-- The outcome that is to be answered is the last one. -/
def Due (s : Session) : Prop := ∀ o, s.pc.outcome = some o → s.outcomes.getLast? = some o

variable {J : SerdeJson} {s t : Session}

theorem init_due : init.Due := nofun

theorem After.outcome_none (k : After) : k.pc.outcome = none := by cases k <;> rfl

theorem stopThen_outcome (s : Session) (k : After) : (s.stopThen k).pc.outcome = none := by
  rcases (stopThen_fields s k).2.2.2 with h | ⟨i, h⟩
  · rw [h]; exact After.outcome_none k
  · rw [h]; rfl

theorem Due.of_none (h : t.pc.outcome = none) : t.Due := fun o ho => by rw [h] at ho; cases ho

theorem Due.step {l : SessionLabel} (h : s.Due) (hs : (session J).step s l = some t) : t.Due := by
  cases steps hs with
  | recv m hpc =>
      cases m with
      | start _ _ | stop => exact .of_none (stopThen_outcome _ _)
      | ack _ | metrics _ | error _ => exact h
  | recvErr _ => exact .of_none (stopThen_outcome _ _)
  | started | startErr =>
      rintro o ⟨⟩
      exact List.getLast?_concat
  | startOp | stopped => exact .of_none rfl
  | joined i k => exact .of_none (After.outcome_none k)
  | lock l x =>
      rw [locked]
      split
      · exact h
      · cases x with
        | metrics _ _ => exact h
        | reply r => cases r <;> exact .of_none rfl
  | last x | writeErr x =>
      cases x with
      | metrics _ _ => exact h
      | reply r => cases r <;> exact .of_none rfl
  | write | metrics | ioDone => exact h

/-- No start is read or answered. -/
structure Keeps (s t : Session) : Prop where
  starts : Server.starts t.requests = Server.starts s.requests
  busy : t.busy = s.busy
  acked : t.ackedStarts = s.ackedStarts
  running : t.running = s.running

theorem keeps (hn : Server.starts t.requests = Server.starts s.requests) (ho : t.outcomes = s.outcomes)
    (ha : t.pc.awaits = s.pc.awaits) (hout : t.pc.outcome = s.pc.outcome) : s.Keeps t where
  starts := hn
  busy := by simp [Session.busy, MainPc.owes, hn, ha, hout]
  acked := by simp [ackedStarts, ho, hout]
  running := by simp [Session.running, MainPc.owes, ho, ha, hout]

/-- `start_test` has returned, and the start is still to be answered. -/
theorem keeps_outcome (hn : t.requests = s.requests) {o : Except Str Nat} (ho : t.outcomes = s.outcomes ++ [o])
    (ha : s.pc.awaits = true) (hs : s.pc.outcome = none) (ht : t.pc.outcome = some o) : s.Keeps t where
  starts := by rw [hn]
  busy := by simp [Session.busy, MainPc.owes, hn, ha, ht]
  acked := by simp [ackedStarts, ho, hs, ht]
  running := by simp [Session.running, MainPc.owes, ha, ht]

/-- What a step means for the starts and for the messages sent. -/
inductive Far (s t : Session) : SessionLabel → Prop
  | quiet {l : SessionLabel} (hkeeps : s.Keeps t) (hsent : t.sent = s.sent) : Far s t l
  | send {l : SessionLabel} (x : Sent) (hkeeps : s.Keeps t) (hsent : t.sent = s.sent ++ [x])
      (hx : ∀ k, x ≠ .reply (.started k)) : Far s t l
  | serve (config : Config) (assignment : Assignment) (hs : s.busy = none) (ht : t.busy = some (Server.starts s.requests + 1))
      (hn : Server.starts t.requests = Server.starts s.requests + 1) (hrunning : t.running = none)
      (hacked : t.ackedStarts = s.ackedStarts) (hsent : t.sent = s.sent) : Far s t (.recv (.start config assignment))
  | started {l : SessionLabel} (k n : Nat) (hs : s.busy = some n) (ht : t.busy = none)
      (hn : Server.starts t.requests = Server.starts s.requests) (hrunning : t.running = some n)
      (hacked : t.ackedStarts = s.ackedStarts ++ [n]) (hsent : t.sent = s.sent ++ [.reply (.started k)]) : Far s t l
  | failed {l : SessionLabel} (message : Str) (n : Nat) (hs : s.busy = some n) (ht : t.busy = none)
      (hn : Server.starts t.requests = Server.starts s.requests) (hrunning : t.running = none)
      (hacked : t.ackedStarts = s.ackedStarts) (hsent : t.sent = s.sent ++ [.reply (.failed message)]) : Far s t l

theorem Served.busy_eq (h : s.Served) {o : Except Str Nat} (hout : s.pc.outcome = some o)
    (ha : s.pc.awaits = false) : s.busy = some s.outcomes.length := by
  simp [Session.busy, MainPc.owes, hout, (h.of_ready ha).1]

theorem Due.answered (h : s.Due) {o : Except Str Nat} (hout : s.pc.outcome = some o)
    (ht : t.pc.outcome = none) (ho : t.outcomes = s.outcomes) :
    t.ackedStarts = s.ackedStarts ++ okStarts s.outcomes.length [o] := by
  obtain ⟨os, hos⟩ := List.getLast?_eq_some_iff.mp (h o hout)
  simp [ackedStarts, hout, ht, ho, hos, okStarts_append, Nat.add_comm]

theorem far {l : SessionLabel} (hi : s.Inv) (hv : s.Served) (hd : s.Due) (hw : s.writes J l = true)
    (hs : (session J).step s l = some t) : s.Far t l := by
  cases steps hs with
  | recv m hpc =>
      cases m with
      | start config assignment =>
          obtain ⟨h₁, h₂, h₃, h₄⟩ := stopThen_fields
            { s with requests := s.requests ++ [.start config assignment] } (.startTest config assignment)
          have hpc' : (s.recv (.start config assignment)).pc.awaits = true ∧
              (s.recv (.start config assignment)).pc.outcome = none := by
            rcases h₄ with h₄ | ⟨i, h₄⟩ <;> rw [Session.recv, h₄] <;> exact ⟨rfl, rfl⟩
          have hn : Server.starts (s.recv (.start config assignment)).requests = Server.starts s.requests + 1 := by
            rw [recv_requests, starts_append]; rfl
          refine .serve config assignment ?_ ?_ hn ?_ ?_ h₃
          · simp [Session.busy, MainPc.owes, hpc, MainPc.awaits, MainPc.outcome]
          · simp [Session.busy, MainPc.owes, hpc', hn]
          · simp [Session.running, MainPc.owes, hpc']
          · have ho : (s.recv (.start config assignment)).outcomes = s.outcomes := h₂
            have hnone : s.pc.outcome = none := by rw [hpc]; rfl
            simp only [ackedStarts, hpc'.2, hnone, ho]
      | stop =>
          obtain ⟨h₁, h₂, h₃, h₄⟩ := stopThen_fields { s with requests := s.requests ++ [.stop] } .ackStop
          refine .quiet (keeps ?_ h₂ ?_ ?_) h₃
          · rw [recv_requests, starts_append]; rfl
          · rcases h₄ with h₄ | ⟨i, h₄⟩ <;> rw [Session.recv, h₄, hpc] <;> rfl
          · rcases h₄ with h₄ | ⟨i, h₄⟩ <;> rw [Session.recv, h₄, hpc] <;> rfl
      | ack _ | metrics _ | error _ =>
          exact .quiet (keeps (by rw [recv_requests, starts_append]; rfl) rfl rfl rfl) rfl
  | recvErr hpc =>
      obtain ⟨h₁, h₂, h₃, h₄⟩ := stopThen_fields s .finish
      refine .quiet (keeps (by rw [h₁]) h₂ ?_ ?_) h₃
      · rcases h₄ with h₄ | ⟨i, h₄⟩ <;> rw [h₄, hpc] <;> rfl
      · rcases h₄ with h₄ | ⟨i, h₄⟩ <;> rw [h₄, hpc] <;> rfl
  | started spawned hpc =>
      exact .quiet (keeps_outcome rfl rfl (by rw [hpc]; rfl) (by rw [hpc]; rfl) rfl) rfl
  | startErr message op ops spawned hpc =>
      exact .quiet (keeps_outcome rfl rfl (by rw [hpc]; rfl) (by rw [hpc]; rfl) rfl) rfl
  | startOp l op ops spawned more hpc => exact .quiet (keeps rfl rfl (by rw [hpc]; rfl) (by rw [hpc]; rfl)) rfl
  | lock l x hfree hr hm =>
      rw [locked]
      cases hwf : writeFrame J x.msg with
      | ok bs => exact .quiet (keeps rfl rfl rfl rfl) rfl
      | error e =>
          cases x with
          | reply r =>
              obtain ⟨hpc, rfl⟩ := hr r rfl
              have hwf' : writeFrame J r.msg = .error e := hwf
              simp only [writes, hpc, hwf'] at hw
              cases hw
          | metrics i w => exact .quiet (keeps rfl rfl rfl rfl) rfl
  | write | metrics | ioDone => exact .quiet (keeps rfl rfl rfl rfl) rfl
  | writeErr => cases hw
  | stopped l i k hpc =>
      refine .quiet (keeps rfl rfl ?_ ?_) rfl <;> rw [hpc] <;> cases k <;> rfl
  | joined i k hpc =>
      refine .quiet (keeps rfl rfl ?_ ?_) rfl <;> rw [hpc] <;> cases k <;> rfl
  | last x n k hlock =>
      cases x with
      | metrics i w => exact .send (.metrics i w) (keeps rfl rfl rfl rfl) rfl (by simp)
      | reply r =>
          have hpc : s.pc = .replying r := hi.owner _ n hlock
          cases r with
          | stopped => exact .send (.reply .stopped) (keeps rfl rfl (by rw [hpc]; rfl) (by rw [hpc]; rfl)) rfl (by simp)
          | started k =>
              have hout : s.pc.outcome = some (.ok k) := by rw [hpc]; rfl
              exact .started k s.outcomes.length (hv.busy_eq hout (by rw [hpc]; rfl)) rfl rfl
                (by simp [Session.running, wrote, replied, MainPc.owes, MainPc.awaits, MainPc.outcome, hd _ hout])
                (hd.answered hout rfl rfl) rfl
          | failed message =>
              have hout : s.pc.outcome = some (.error message) := by rw [hpc]; rfl
              have hacked := hd.answered (t := s.goto .reading) hout rfl rfl
              rw [okStarts, okStarts, List.append_nil] at hacked
              exact .failed message s.outcomes.length (hv.busy_eq hout (by rw [hpc]; rfl)) rfl rfl
                (by simp [Session.running, wrote, replied, goto, MainPc.owes, MainPc.awaits, MainPc.outcome,
                  hd _ hout])
                hacked rfl

end Session

end Tperf.Server

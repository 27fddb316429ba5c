import Tperf.Server.Lemmas.Session

/-!
# Which replies a session sends, and what the metrics tasks send between them
-/

namespace Tperf.Server
open Lib Proto

/-! ## The replies to a list of requests -/

/-- The replies that `requests` ask for, when the calls of `start_test` return `outcomes` in turn. A
start whose call has not returned ends the list. -/
def replies : List Msg → List (Except Str Nat) → List Reply
  | [], _ => []
  | .start _ _ :: ms, .ok i :: os => .started i :: replies ms os
  | .start _ _ :: ms, .error message :: os => .failed message :: replies ms os
  | .start _ _ :: _, [] => []
  | .stop :: ms, os => .stopped :: replies ms os
  | .ack _ :: ms, os | .metrics _ :: ms, os | .error _ :: ms, os => replies ms os

/-- How many calls of `start_test` some requests make. -/
def starts : List Msg → Nat
  | [] => 0
  | .start _ _ :: ms => starts ms + 1
  | _ :: ms => starts ms

theorem starts_append (ms ms' : List Msg) : starts (ms ++ ms') = starts ms + starts ms' := by
  induction ms with
  | nil => simp [starts]
  | cons m ms ih =>
      cases m with
      | start _ _ => simp only [List.cons_append, starts, ih]; omega
      | _ => simp only [List.cons_append, starts, ih]

theorem replies_append {ms ms' : List Msg} {os os' : List (Except Str Nat)}
    (h : starts ms = os.length) :
    replies (ms ++ ms') (os ++ os') = replies ms os ++ replies ms' os' := by
  induction ms generalizing os with
  | nil =>
      obtain rfl : os = [] := List.length_eq_zero_iff.mp h.symm
      rfl
  | cons m ms ih =>
      cases m with
      | start _ _ =>
          cases os with
          | nil => cases h
          | cons o os =>
              have h' : starts ms = os.length := Nat.succ.inj h
              cases o with
              | ok i => simp only [List.cons_append, replies, ih h']
              | error message => simp only [List.cons_append, replies, ih h']
      | stop => simp only [List.cons_append, replies, ih (show starts ms = os.length from h)]
      | _ =>
          simp only [List.cons_append]
          rw [replies, replies]
          exact ih h

/-- Requests that ask for more replies change nothing before. -/
theorem replies_more {ms ms' : List Msg} {os : List (Except Str Nat)} (h : starts ms = os.length) :
    replies (ms ++ ms') os = replies ms os ++ replies ms' [] := by
  have h' : replies (ms ++ ms') (os ++ []) = replies ms os ++ replies ms' [] := replies_append h
  rwa [List.append_nil] at h'

def Sent.asReply : Sent → Option Reply
  | .reply r => some r
  | .metrics _ _ => none

/-! ## One reply after the other -/

/-- A start has been read whose `start_test` has not returned. -/
def MainPc.awaits : MainPc → Bool
  | .stopWait _ (.startTest _ _) | .stopJoin _ (.startTest _ _) | .starting _ _ => true
  | _ => false

/-- The reply that is due. -/
def MainPc.pending : MainPc → List Reply
  | .replying r => [r]
  | .stopWait _ .ackStop | .stopJoin _ .ackStop => [.stopped]
  | _ => []

namespace Session

variable {J : SerdeJson} {s t : Session}

/-- The replies that have been sent. -/
def answered (s : Session) : List Reply := s.sent.filterMap Sent.asReply

inductive Served (s : Session) : Prop
  | ready : s.pc.awaits = false → starts s.requests = s.outcomes.length →
      replies s.requests s.outcomes = s.answered ++ s.pc.pending → Served s
  | awaiting (ms : List Msg) (config : Config) (assignment : Assignment) : s.pc.awaits = true →
      s.requests = ms ++ [.start config assignment] → starts ms = s.outcomes.length →
      replies ms s.outcomes = s.answered → Served s

theorem init_served : init.Served := .ready rfl rfl rfl

theorem Served.of_ready (h : s.Served) (ha : s.pc.awaits = false) :
    starts s.requests = s.outcomes.length ∧
      replies s.requests s.outcomes = s.answered ++ s.pc.pending := by
  cases h with
  | ready _ hn hr => exact ⟨hn, hr⟩
  | awaiting _ _ _ ha' => rw [ha] at ha'; cases ha'

theorem Served.congr (h : s.Served) (ha : t.pc.awaits = s.pc.awaits)
    (hp : t.pc.pending = s.pc.pending) (hr : t.requests = s.requests)
    (ho : t.outcomes = s.outcomes) (hs : t.answered = s.answered) : t.Served := by
  cases h with
  | ready ha' hn hr' => exact .ready (ha.trans ha') (by rw [hr, ho, hn]) (by rw [hr, ho, hs, hp, hr'])
  | awaiting ms config assignment ha' hm hn hr' =>
      exact .awaiting ms config assignment (ha.trans ha') (hr.trans hm) (by rw [ho, hn])
        (by rw [ho, hs, hr'])

theorem stopThen_fields (s : Session) (k : After) :
    (s.stopThen k).requests = s.requests ∧ (s.stopThen k).outcomes = s.outcomes ∧
      (s.stopThen k).sent = s.sent ∧
      ((s.stopThen k).pc = k.pc ∨ ∃ i, (s.stopThen k).pc = .stopWait i k) := by
  rw [stopThen]
  split
  · exact ⟨rfl, rfl, rfl, .inl rfl⟩
  · rename_i i _
    exact ⟨rfl, rfl, rfl, .inr ⟨i, rfl⟩⟩

/-- A message that asks for nothing. -/
theorem Served.ignored (h : s.Served) (hpc : s.pc = .reading) {m : Msg} (hm : starts [m] = 0)
    (hr : replies [m] [] = []) : Served { s with requests := s.requests ++ [m] } := by
  obtain ⟨hn, hrep⟩ := h.of_ready (by rw [hpc]; rfl)
  refine .ready (by rw [hpc]; rfl) ?_ ?_
  · rw [starts_append, hm]; exact hn
  · rw [replies_more hn, hr, List.append_nil]; exact hrep

/-- A message has been read in a session that owes no reply. -/
theorem Served.recv (h : s.Served) (hpc : s.pc = .reading) (m : Msg) : (s.recv m).Served := by
  obtain ⟨hn, hr⟩ := h.of_ready (by rw [hpc]; rfl)
  rw [show s.pc.pending = [] by rw [hpc]; rfl, List.append_nil] at hr
  cases m with
  | start config assignment =>
      obtain ⟨h₁, h₂, h₃, h₄⟩ := stopThen_fields
        { s with requests := s.requests ++ [.start config assignment] } (.startTest config assignment)
      refine .awaiting s.requests config assignment ?_ h₁ ?_ ?_
      · rcases h₄ with h₄ | ⟨i, h₄⟩ <;> rw [Session.recv, h₄] <;> rfl
      · rw [Session.recv, h₂]; exact hn
      · rw [Session.recv, h₂, answered, h₃]; exact hr
  | stop =>
      obtain ⟨h₁, h₂, h₃, h₄⟩ := stopThen_fields
        { s with requests := s.requests ++ [.stop] } .ackStop
      refine .ready ?_ ?_ ?_
      · rcases h₄ with h₄ | ⟨i, h₄⟩ <;> rw [Session.recv, h₄] <;> rfl
      · rw [Session.recv, h₁, h₂, starts_append]; exact hn
      · have hp : (Session.recv s .stop).pc.pending = [.stopped] := by
          rcases h₄ with h₄ | ⟨i, h₄⟩ <;> rw [Session.recv, h₄] <;> rfl
        rw [hp, Session.recv, h₁, h₂, answered, h₃, replies_more hn, hr]
        rfl
  | ack cmd => exact h.ignored hpc rfl rfl
  | metrics window => exact h.ignored hpc rfl rfl
  | error message => exact h.ignored hpc rfl rfl

/-- `start_test` has returned `o`, and its reply is due. -/
theorem Served.outcome (h : s.Served) (ha : s.pc.awaits = true) {o : Except Str Nat} {r : Reply}
    (hor : ∀ config assignment, replies [.start config assignment] [o] = [r])
    (hr : t.requests = s.requests) (ho : t.outcomes = s.outcomes ++ [o])
    (hs : t.answered = s.answered) (hpc : t.pc = .replying r) : t.Served := by
  cases h with
  | ready ha' => rw [ha] at ha'; cases ha'
  | awaiting ms config assignment _ hm hn hans =>
      refine .ready (by rw [hpc]; rfl) ?_ ?_
      · rw [hr, hm, ho, starts_append, hn, List.length_append]; rfl
      · rw [hr, hm, ho, replies_append hn, hans, hs, hor, hpc]; rfl

end Session

/-! ## Runs in which every write succeeds -/

/-- The step is not a write that fails. -/
def Session.writes (J : SerdeJson) (s : Session) : SessionLabel → Bool
  | .writeErr => false
  | .lockMain => match s.pc with
      | .replying r => (writeFrame J r.msg).isOk
      | _ => true
  | .lockMetrics i => match s.tests[i]? with
      | some ⟨_, _, .emitting window, _⟩ => (writeFrame J (.metrics window)).isOk
      | _ => true
  | _ => true

namespace Session

variable {J : SerdeJson} {s t : Session}

theorem Served.step {l : SessionLabel} (h : s.Served) (hi : s.Inv) (hw : s.writes J l = true)
    (hs : (session J).step s l = some t) : t.Served := by
  cases steps hs with
  | recv m hpc => exact h.recv hpc m
  | recvErr hpc =>
      obtain ⟨hn, hr⟩ := h.of_ready (by rw [hpc]; rfl)
      obtain ⟨h₁, h₂, h₃, h₄⟩ := stopThen_fields s .finish
      have hp : (s.stopThen .finish).pc.pending = s.pc.pending := by
        rw [hpc]
        rcases h₄ with h₄ | ⟨i, h₄⟩ <;> rw [h₄] <;> rfl
      refine .ready ?_ (by rw [h₁, h₂, hn]) (by rw [h₁, h₂, answered, h₃, hp]; exact hr)
      rcases h₄ with h₄ | ⟨i, h₄⟩ <;> rw [h₄] <;> rfl
  | started spawned hpc =>
      exact h.outcome (by rw [hpc]; rfl) (fun _ _ => rfl) rfl rfl rfl rfl
  | startOp l op ops spawned more hpc _ =>
      exact h.congr (by rw [hpc]; rfl) (by rw [hpc]; rfl) rfl rfl rfl
  | startErr message op ops spawned hpc _ =>
      exact h.outcome (by rw [hpc]; rfl) (fun _ _ => rfl) rfl rfl rfl rfl
  | lock l x hfree hr hm =>
      rw [locked]
      cases hwf : writeFrame J x.msg with
      | ok bs => exact h.congr rfl rfl rfl rfl rfl
      | error e =>
          cases x with
          | reply r =>
              obtain ⟨hpc, rfl⟩ := hr r rfl
              have hwf' : writeFrame J r.msg = .error e := hwf
              simp only [writes, hpc, hwf'] at hw
              cases hw
          | metrics i w => exact h.congr rfl rfl rfl rfl rfl
  | write x n k hlock _ _ => exact h.congr rfl rfl rfl rfl rfl
  | last x n k hlock _ _ =>
      cases x with
      | metrics i w =>
          refine h.congr rfl rfl rfl rfl ?_
          simp [answered, wrote, setMetrics, onTest, List.filterMap_append, Sent.asReply]
      | reply r =>
          have hpc : s.pc = .replying r := hi.owner _ n hlock
          obtain ⟨hn, hrep⟩ := h.of_ready (by rw [hpc]; rfl)
          have hrep' : replies s.requests s.outcomes =
              (s.sent ++ [Sent.reply r]).filterMap Sent.asReply ++ [] := by
            rw [List.append_nil, List.filterMap_append, hrep, hpc]; rfl
          cases r with
          | started i => exact .ready rfl hn hrep'
          | failed message => exact .ready rfl hn hrep'
          | stopped => exact .ready rfl hn hrep'
  | writeErr x n _ => cases hw
  | metrics l i u pc _ _ => exact h.congr rfl rfl rfl rfl rfl
  | ioDone i j => exact h.congr rfl rfl rfl rfl rfl
  | stopped l i k hpc =>
      refine h.congr ?_ ?_ rfl rfl rfl <;> rw [hpc] <;> cases k <;> rfl
  | joined i k hpc =>
      refine h.congr ?_ ?_ rfl rfl rfl <;> rw [hpc] <;> cases k <;> rfl

/-! ## The metrics between the replies -/

/-- The tests that the calls of `start_test` returned. -/
def returnedTests (s : Session) : List Nat := s.outcomes.filterMap Except.toOption

/-- What has been sent, by test: the answer to its start once at most, its metrics before the next
reply. -/
structure Ordered (s : Session) : Prop where
  returned : s.returnedTests = List.range s.tests.length
  replying : ∀ k, s.pc = .replying (.started k) → k < s.tests.length
  answered : ∀ k, .reply (.started k) ∈ s.sent → k < s.tests.length ∧ s.pc ≠ .replying (.started k)
  metrics : ∀ k w, .metrics k w ∈ s.sent → k < s.tests.length
  running : ∀ (k : Nat) (u : RunningTest), s.tests[k]? = some u → u.joined = false →
    ∀ pre r post, s.sent = pre ++ .reply r :: post → .reply (.started k) ∉ pre
  order : ∀ pre r post k w, s.sent = pre ++ .reply r :: post → .reply (.started k) ∈ pre →
    .metrics k w ∉ post

theorem init_ordered : init.Ordered where
  returned := rfl
  replying := nofun
  answered := by simp [init]
  metrics := by simp [init]
  running := by simp [init]
  order := by simp [init]

/-- A step that sends nothing and starts no test. -/
theorem Ordered.congr (h : s.Ordered) (hs : t.sent = s.sent) (ho : t.outcomes = s.outcomes)
    (hl : t.tests.length = s.tests.length)
    (hj : ∀ (k : Nat) (u : RunningTest), t.tests[k]? = some u → u.joined = false →
      ∃ v : RunningTest, s.tests[k]? = some v ∧ v.joined = false)
    (hp : ∀ k, t.pc = .replying (.started k) → s.pc = .replying (.started k)) : t.Ordered where
  returned := by rw [returnedTests, ho, hl]; exact h.returned
  replying k hk := hl ▸ h.replying k (hp k hk)
  answered k hk := by
    obtain ⟨h₁, h₂⟩ := h.answered k (hs ▸ hk)
    exact ⟨hl ▸ h₁, fun hpc => h₂ (hp k hpc)⟩
  metrics k w hk := hl ▸ h.metrics k w (hs ▸ hk)
  running k u hu huj pre r post hsent := by
    obtain ⟨v, hv, hvj⟩ := hj k u hu huj
    exact h.running k v hv hvj pre r post (hs ▸ hsent)
  order pre r post k w hsent := h.order pre r post k w (hs ▸ hsent)

theorem Ordered.onTest (h : s.Ordered) {i : Nat} {f : RunningTest → RunningTest}
    (hf : ∀ u, (f u).joined = false → u.joined = false) : (s.onTest i f).Ordered := by
  refine h.congr rfl rfl (List.length_modify f s.tests i) (fun k u hu hj => ?_) fun _ hpc => hpc
  obtain ⟨v, hv, rfl⟩ := onTest_get hu
  refine ⟨v, hv, ?_⟩
  split at hj
  · exact hf v hj
  · exact hj

theorem Ordered.goto (h : s.Ordered) {pc : MainPc} {test : Option Nat}
    (hpc : ∀ k, pc ≠ .replying (.started k)) : Ordered { s with pc := pc, test := test } :=
  h.congr rfl rfl rfl (fun _ u hu hj => ⟨u, hu, hj⟩) fun k hk => absurd hk (hpc k)

theorem After.pc_ne_started (k : After) (i : Nat) : k.pc ≠ .replying (.started i) := by
  cases k <;> exact nofun

theorem Ordered.stop (h : s.Ordered) (i : Nat) (k : After) : (s.stop i k).Ordered := by
  have hc : (s.onTest i fun u => { u with cancelled := true }).Ordered := h.onTest fun _ hj => hj
  exact hc.goto fun _ hpc => by cases hpc

theorem Ordered.stopThen (h : s.Ordered) (k : After) : (s.stopThen k).Ordered := by
  rw [Session.stopThen]
  split
  · exact h.goto (After.pc_ne_started k)
  · rename_i i _
    have h' : Ordered { s with test := none } := { h with }
    exact h'.stop i k

theorem Ordered.wrote (h : s.Ordered) (ok : Bool) (x : Sent) : (s.wrote ok x).Ordered := by
  cases x with
  | metrics i w => exact h.onTest fun _ hj => hj
  | reply r =>
      cases r with
      | started i =>
          cases ok with
          | true => exact h.goto nofun
          | false => exact h.stop i .finish
      | failed message => exact h.goto nofun
      | stopped => cases ok <;> exact h.goto nofun

theorem append_cons_eq_concat {α : Type} {l pre post : List α} {x y : α}
    (h : l ++ [x] = pre ++ y :: post) :
    (post = [] ∧ y = x ∧ pre = l) ∨ ∃ post', post = post' ++ [x] ∧ l = pre ++ y :: post' := by
  rcases List.eq_nil_or_concat post with rfl | ⟨post', z, rfl⟩
  · obtain ⟨rfl, hx⟩ := List.append_inj' h rfl
    exact .inl ⟨rfl, (List.cons.inj hx).1.symm, rfl⟩
  · rw [List.concat_eq_append, ← List.cons_append, ← List.append_assoc] at h
    obtain ⟨rfl, hx⟩ := List.append_inj' h rfl
    obtain rfl := (List.cons.inj hx).1
    exact .inr ⟨post', List.concat_eq_append, rfl⟩

/-- A metrics task has sent a window. Its test runs, so no reply came after the answer to its
start. -/
theorem Ordered.sendMetrics (h : s.Ordered) {i : Nat} {u : RunningTest} (hu : s.tests[i]? = some u)
    (hj : u.joined = false) (w : MetricWindow) (out : List UInt8) :
    Ordered { s with out := out, lock := none, sent := s.sent ++ [.metrics i w] } where
  returned := h.returned
  replying := h.replying
  answered k hk := h.answered k (by simpa using hk)
  metrics k w' hk := by
    rcases List.mem_append.mp hk with hk | hk
    · exact h.metrics k w' hk
    · cases List.mem_singleton.mp hk
      exact (List.getElem?_eq_some_iff.mp hu).1
  running k v hv hvj pre r post hsent := by
    rcases append_cons_eq_concat hsent with ⟨_, hr, _⟩ | ⟨post', _, hsent'⟩
    · cases hr
    · exact h.running k v hv hvj pre r post' hsent'
  order pre r post k w' hsent hk := by
    rcases append_cons_eq_concat hsent with ⟨_, hr, _⟩ | ⟨post', rfl, hsent'⟩
    · cases hr
    · intro hw
      rcases List.mem_append.mp hw with hw | hw
      · exact h.order pre r post' k w' hsent' hk hw
      · cases List.mem_singleton.mp hw
        exact h.running i u hu hj pre r post' hsent' hk

/-- `handle_conn` has sent a reply. Only the test it answers may run. -/
theorem Ordered.sendReply (h : s.Ordered) {r : Reply}
    (hrun : ∀ (k : Nat) (u : RunningTest), s.tests[k]? = some u → u.joined = false →
      .reply (.started k) ∉ s.sent)
    (hr : ∀ k, r = .started k → k < s.tests.length) (test : Option Nat) (out : List UInt8) :
    Ordered { s with
      pc := .reading
      test := test
      out := out
      lock := none
      sent := s.sent ++ [.reply r] } where
  returned := h.returned
  replying := nofun
  answered k hk := by
    refine ⟨?_, nofun⟩
    rcases List.mem_append.mp hk with hk | hk
    · exact (h.answered k hk).1
    · cases List.mem_singleton.mp hk
      exact hr k rfl
  metrics k w hk := h.metrics k w (by simpa using hk)
  running k u hu hj pre r' post hsent := by
    rcases append_cons_eq_concat hsent with ⟨_, _, rfl⟩ | ⟨post', _, hsent'⟩
    · exact hrun k u hu hj
    · exact h.running k u hu hj pre r' post' hsent'
  order pre r' post k w hsent hk := by
    rcases append_cons_eq_concat hsent with ⟨rfl, _, _⟩ | ⟨post', rfl, hsent'⟩
    · exact nofun
    · intro hw
      rcases List.mem_append.mp hw with hw | hw
      · exact h.order pre r' post' k w hsent' hk hw
      · cases List.mem_singleton.mp hw

/-- The new test has a number that has not been answered. -/
theorem Ordered.started (h : s.Ordered) (spawned : List IoTask) : (s.started spawned).Ordered := by
  have hnew : ∀ (k : Nat) (u : RunningTest), (s.started spawned).tests[k]? = some u →
      s.tests[k]? = some u ∨ k = s.tests.length := by
    intro k u hu
    rw [Session.started, List.getElem?_append] at hu
    split at hu
    · exact .inl hu
    · have hlt := (List.getElem?_eq_some_iff.mp hu).1
      rw [List.length_singleton] at hlt
      exact .inr (by omega)
  have hlen : (s.started spawned).tests.length = s.tests.length + 1 := by simp [Session.started]
  refine ⟨?_, fun k hk => ?_, fun k hk => ?_, fun k w hk => ?_,
    fun k u hu hj pre r post hsent => ?_, h.order⟩
  · have hret := h.returned
    rw [returnedTests] at hret
    rw [returnedTests, hlen, List.range_succ, ← hret, Session.started, List.filterMap_append]
    rfl
  · have hk' : s.tests.length = k := by injection hk with hk; injection hk
    omega
  · have hlt := (h.answered k hk).1
    refine ⟨by omega, fun hpc' => ?_⟩
    have hk' : s.tests.length = k := by injection hpc' with hpc'; injection hpc'
    omega
  · have := h.metrics k w hk
    omega
  · rcases hnew k u hu with hu | rfl
    · exact h.running k u hu hj pre r post hsent
    · intro hk
      have hsent' : s.sent = pre ++ .reply r :: post := hsent
      have hmem : .reply (.started s.tests.length) ∈ s.sent := by
        rw [hsent']; exact List.mem_append_left _ hk
      exact absurd (h.answered _ hmem).1 (Nat.lt_irrefl _)

/-- At a reply only the test that is answered may run, and its start has not been answered yet. -/
theorem Ordered.unanswered (h : s.Ordered) (hi : s.Inv) {r : Reply} (hpc : s.pc = .replying r) {k : Nat}
    {u : RunningTest} (hu : s.tests[k]? = some u) (hj : u.joined = false) :
    .reply (.started k) ∉ s.sent := by
  intro hk
  rcases hi.held k u hu hj with ht | ht
  · rw [hi.var (by simp [hpc])] at ht; cases ht
  · rw [hpc] at ht
    cases r with
    | started i => cases ht; exact (h.answered k hk).2 hpc
    | failed _ => cases ht
    | stopped => cases ht

theorem Ordered.step {l : SessionLabel} (h : s.Ordered) (hi : s.Inv)
    (hs : (session J).step s l = some t) : t.Ordered := by
  cases steps hs with
  | recv m hpc =>
      have h' : Ordered { s with requests := s.requests ++ [m] } := { h with }
      cases m with
      | start _ _ => exact h'.stopThen _
      | stop => exact h'.stopThen _
      | ack _ => exact h'
      | metrics _ => exact h'
      | error _ => exact h'
  | recvErr hpc => exact h.stopThen _
  | started spawned hpc => exact h.started spawned
  | startOp l op ops spawned more hpc _ => exact h.goto (by simp)
  | startErr message op ops spawned hpc _ =>
      have h' : (s.goto (.replying (.failed message))).Ordered := h.goto (by simp)
      refine { h' with returned := ?_ }
      have hret := h.returned
      rw [returnedTests] at hret
      rw [returnedTests, startFailed, List.filterMap_append, hret]
      exact List.append_nil _
  | lock l x hfree _ _ =>
      rw [locked]
      split
      · exact { h with }
      · exact h.wrote false x
  | write x n k hlock _ _ => exact { h with }
  | last x n k hlock _ _ =>
      cases x with
      | metrics i w =>
          obtain ⟨u, hu, hw⟩ := hi.owner _ n hlock
          have hj : u.joined = false := by
            cases hj : u.joined with
            | false => rfl
            | true =>
                have := (hi.joined i u hu hj).2.2
                rw [hw] at this
                cases this
          exact (h.sendMetrics hu hj w _).onTest fun _ hj => hj
      | reply r =>
          have hpc : s.pc = .replying r := hi.owner _ n hlock
          have hrun : ∀ (k : Nat) (u : RunningTest), s.tests[k]? = some u → u.joined = false →
              .reply (.started k) ∉ s.sent := fun _ _ => h.unanswered hi hpc
          cases r with
          | started i =>
              refine h.sendReply hrun (fun k hk => ?_) (some i) _
              cases hk
              exact h.replying i hpc
          | failed message => exact h.sendReply hrun (fun _ hk => by cases hk) s.test _
          | stopped => exact h.sendReply hrun (fun _ hk => by cases hk) s.test _
  | writeErr x n hlock =>
      have h' : Ordered { s with lock := none, sockErr := true } := { h with }
      exact h'.wrote false x
  | metrics l i u pc _ _ => exact h.onTest fun _ hj => hj
  | ioDone i j => exact h.onTest fun _ hj => hj
  | stopped l i k hpc => exact h.goto (by simp)
  | joined i k hpc =>
      have h' : (s.onTest i fun u => { u with io := [], metrics := .done, joined := true }).Ordered :=
        h.onTest fun _ hj => by cases hj
      have h'' : ((s.onTest i fun u => { u with io := [], metrics := .done, joined := true }).goto
          k.pc).Ordered := h'.goto (After.pc_ne_started k)
      exact { h'' with }

end Session

end Tperf.Server

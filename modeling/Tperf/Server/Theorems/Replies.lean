import Tperf.Server.Lemmas.Replies

/-!
# What a session sends, in order
-/

namespace Tperf.Server
open Lib Proto

variable {J : SerdeJson}

def Reply.test : Reply → Option Nat
  | .started k => some k
  | _ => none

/-- The tests whose start has been answered, in order. -/
def acked (sent : List Sent) : List Nat := (sent.filterMap Sent.asReply).filterMap Reply.test

theorem mem_acked {sent : List Sent} {k : Nat} : k ∈ acked sent ↔ .reply (.started k) ∈ sent := by
  rw [acked, List.mem_filterMap]
  constructor
  · rintro ⟨r, hr, hk⟩
    obtain ⟨x, hx, hxr⟩ := List.mem_filterMap.mp hr
    cases r with
    | started i =>
        cases hk
        cases x with
        | reply r => cases hxr; exact hx
        | metrics _ _ => cases hxr
    | failed _ => cases hk
    | stopped => cases hk
  · intro h
    exact ⟨.started k, List.mem_filterMap.mpr ⟨_, h, rfl⟩, rfl⟩

/-- The answers to starts name the tests that `start_test` returned. -/
theorem replies_test {ms : List Msg} {os : List (Except Str Nat)} (h : starts ms = os.length) :
    (replies ms os).filterMap Reply.test = os.filterMap Except.toOption := by
  induction ms generalizing os with
  | nil =>
      obtain rfl : os = [] := List.length_eq_zero_iff.mp h.symm
      rfl
  | cons m ms ih =>
      cases m with
      | start _ _ =>
          cases os with
          | nil => cases h
          | cons o os =>
              have h' : starts ms = os.length := Nat.succ.inj h
              cases o with
              | ok i => simp [replies, Reply.test, Except.toOption, ih h']
              | error message => exact ih h'
      | stop => exact ih h
      | ack _ => exact ih h
      | metrics _ => exact ih h
      | error _ => exact ih h

namespace Session

variable {s : Session}

/-- The replies so far are those asked for, but for one that may be due. -/
theorem Served.answers (h : s.Served) :
    ∃ due, replies s.requests s.outcomes = s.answered ++ due ∧ due.length ≤ 1 ∧
      (s.pc = .reading → due = []) ∧
      (s.answered ++ due).filterMap Reply.test = s.returnedTests := by
  cases h with
  | ready _ hn hr =>
      refine ⟨s.pc.pending, hr, ?_, fun hpc => by rw [hpc]; rfl, ?_⟩
      · simp only [MainPc.pending]
        split <;> simp
      · rw [← hr, replies_test hn, returnedTests]
  | awaiting ms config assignment _ hm hn hr =>
      refine ⟨[], ?_, by simp, fun _ => rfl, ?_⟩
      · rw [hm, replies_more hn, hr]; rfl
      · rw [List.append_nil, ← hr, replies_test hn, returnedTests]

end Session

/-- The replies answer the requests one by one and in order. The metrics belong to tests that
`start_test` returned, and none follows the reply after the one to its start; so behind the answer to a
stop there are only those of tests started later. -/
theorem replies_in_order {s : Session} {ls : List SessionLabel}
    (h : ((session J).guard fun s l => s.writes J l = true).run .init ls = some s) :
    (∃ due, replies s.requests s.outcomes = s.answered ++ due ∧ due.length ≤ 1 ∧
      (s.pc = .reading → due = [])) ∧
    (∀ k w, .metrics k w ∈ s.sent → k ∈ s.returnedTests) ∧
    (∀ pre r post k w, s.sent = pre ++ .reply r :: post → .reply (.started k) ∈ pre →
      .metrics k w ∉ post) ∧
    (∀ pre post k w, s.sent = pre ++ .reply .stopped :: post → .metrics k w ∈ post →
      (acked pre).length ≤ k) := by
  obtain ⟨_, hserved, hord⟩ : s.Inv ∧ s.Served ∧ s.Ordered :=
    Machine.guard_invariant (I := fun s => s.Inv ∧ s.Served ∧ s.Ordered)
      (fun ⟨hi, hv, ho⟩ hg hs => ⟨hi.step hs, hv.step hi hg hs, ho.step hi hs⟩) h
      ⟨Session.init_inv, Session.init_served, Session.init_ordered⟩
  obtain ⟨due, hrep, hlen, hread, htests⟩ := hserved.answers
  refine ⟨⟨due, hrep, hlen, hread⟩, ?_, hord.order, ?_⟩
  · intro k w hk
    rw [hord.returned]
    exact List.mem_range.mpr (hord.metrics k w hk)
  · intro pre post k w hsent hw
    have hpre : acked pre <+: List.range s.tests.length := by
      rw [← hord.returned, ← htests, Session.answered, hsent, List.filterMap_append,
        List.filterMap_append, List.filterMap_append, List.append_assoc]
      exact List.prefix_append _ _
    have hrange : acked pre = List.range (acked pre).length := by
      have := List.prefix_iff_eq_take.mp hpre
      rw [List.take_range, Nat.min_eq_left (by simpa using hpre.length_le)] at this
      exact this
    by_contra hlt
    have hk : k ∈ acked pre := by
      rw [hrange]
      exact List.mem_range.mpr (Nat.not_le.mp hlt)
    exact hord.order pre .stopped post k w hsent (mem_acked.mp hk) hw

/-- Two starts and a stop, with a window of the first test. -/
def roundsRun : List SessionLabel :=
  let start : SessionLabel := .recv (.start sampleConfig ⟨"a".toList, 0, [], []⟩)
  start :: List.replicate 8 .startStep ++
    [.lockMain, .write 30, .emit 0 sampleWindow, .lockMetrics 0, .write 268] ++
    [start, .metricsDone 0, .stopDone, .joined] ++ List.replicate 8 .startStep ++
    [.lockMain, .write 30, .recv .stop, .metricsDone 1, .stopDone, .joined, .lockMain, .write 29]

theorem replies_in_order_rounds :
    ∃ s, ((session sampleJson).guard fun s l => s.writes sampleJson l = true).run .init roundsRun =
        some s ∧
      s.sent = [.reply (.started 0), .metrics 0 sampleWindow, .reply (.started 1), .reply .stopped] ∧
      ∃ due, replies s.requests s.outcomes = s.answered ++ due ∧ due.length ≤ 1 ∧
        (s.pc = .reading → due = []) := by
  have h : (((session sampleJson).guard fun s l => s.writes sampleJson l = true).run .init
      roundsRun).map (fun s => s.sent) = some [.reply (.started 0), .metrics 0 sampleWindow,
        .reply (.started 1), .reply .stopped] := by decide +kernel
  obtain ⟨s, hs, h⟩ := Option.map_eq_some_iff.mp h
  exact ⟨s, hs, h, (replies_in_order hs).1⟩

end Tperf.Server

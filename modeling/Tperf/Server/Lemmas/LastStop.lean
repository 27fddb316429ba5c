import Tperf.Server.Lemmas.Starts
import Tperf.Server.Theorems.Replies

/-!
# A session that is asked for starts and then for one stop
-/

namespace Tperf.Server
open Lib Proto

/-- Starts, and perhaps a stop behind them. -/
def Asks (requests : List Msg) : Prop := ∃ ms, AllStarts ms ∧ (requests = ms ∨ requests = ms ++ [.stop])

theorem asks_prefix {requests written : List Msg} (h : Asks written) (hpre : requests <+: written) :
    Asks requests := by
  obtain ⟨ms, hstarts, rfl | rfl⟩ := h
  · exact ⟨requests, fun m hm => hstarts m (hpre.subset hm), .inl rfl⟩
  · rcases List.prefix_concat_iff.mp hpre with rfl | hpre
    · exact ⟨ms, hstarts, .inr rfl⟩
    · exact ⟨requests, fun m hm => hstarts m (hpre.subset hm), .inl rfl⟩

/-- Starts are not answered like a stop. -/
theorem stopped_not_mem {ms : List Msg} (h : AllStarts ms)
    (os : List (Except Str Nat)) : .stopped ∉ replies ms os := by
  induction ms generalizing os with
  | nil => simp [replies]
  | cons m ms ih =>
      obtain ⟨config, assignment, rfl⟩ := h m List.mem_cons_self
      have ih := ih fun m hm => h m (List.mem_cons_of_mem _ hm)
      rcases os with _ | ⟨o, os⟩
      · simp [replies]
      · cases o <;> simp [replies, ih]

namespace Session

variable {s : Session}

/-- When the stop has been answered, all starts have been. -/
theorem Served.stopped (h : s.Served) (hasks : Asks s.requests) {A B : List Reply}
    (hans : s.answered = A ++ .stopped :: B) : B = [] ∧ A.filterMap Reply.test = s.returnedTests := by
  have hmem : .stopped ∈ s.answered := by rw [hans]; simp
  obtain ⟨ms, hstarts, hreq⟩ := hasks
  cases h with
  | awaiting ms' config assignment _ hm _ hr =>
      -- the last request is a start, so there was no stop
      rcases hreq with hreq | hreq
      · rw [← hr] at hmem
        refine absurd hmem (stopped_not_mem (fun m hm' => hstarts m ?_) _)
        rw [← hreq, hm]
        exact List.mem_append_left _ hm'
      · rw [hm] at hreq
        cases (List.append_inj' hreq rfl).2
  | ready _ hn hr =>
      have hans' : .stopped ∈ replies s.requests s.outcomes := by rw [hr]; exact List.mem_append_left _ hmem
      rcases hreq with hreq | hreq
      · rw [hreq] at hans'
        exact absurd hans' (stopped_not_mem hstarts _)
      · have hn' : Server.starts ms = s.outcomes.length := by
          rw [← hn, hreq, starts_append]
          rfl
        have hrep : replies s.requests s.outcomes = replies ms s.outcomes ++ [.stopped] := by
          rw [hreq, replies_more hn']
          rfl
        have htests := replies_test hn'
        rw [hrep, hans, List.append_assoc, List.cons_append] at hr
        rcases append_cons_eq_concat hr with ⟨hnil, -, hA⟩ | ⟨post, -, hR⟩
        · exact ⟨(List.append_eq_nil_iff.mp hnil).1, by rw [hA]; exact htests⟩
        · exact absurd (by rw [hR]; simp) (stopped_not_mem hstarts s.outcomes)

/-- No window follows the answer to the stop. -/
theorem Ordered.after_stop (h : s.Ordered) (hserved : s.Served) (hasks : Asks s.requests) {pre post : List Sent}
    (hsent : s.sent = pre ++ .reply .stopped :: post) (k : Nat) (w : MetricWindow) : .metrics k w ∉ post := by
  intro hw
  have hans : s.answered = pre.filterMap Sent.asReply ++ .stopped :: post.filterMap Sent.asReply := by
    rw [Session.answered, hsent, List.filterMap_append]
    rfl
  obtain ⟨-, htests⟩ := hserved.stopped hasks hans
  have hlt := h.metrics k w (by rw [hsent]; simp [hw])
  have hk : k ∈ Server.acked pre := by
    rw [Server.acked, htests, h.returned]
    exact List.mem_range.mpr hlt
  exact h.order pre .stopped post k w hsent (mem_acked.mp hk) hw

end Session

end Tperf.Server

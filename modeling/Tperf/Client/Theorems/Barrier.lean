import Tperf.Client.Lemmas.Rounds

/-!
# The barrier between the rounds
-/

namespace Tperf.Client
open Lib Proto

variable {cfg : Config} {J : Db.PeersJson}

theorem sum_le_length {l : List Nat} (h : ∀ x ∈ l, x ≤ 1) : l.sum ≤ l.length := by
  induction l with
  | nil => exact Nat.le_refl 0
  | cons x l ih =>
      rw [List.sum_cons, List.length_cons, Nat.add_comm]
      exact Nat.add_le_add (ih fun y hy => h y (List.mem_cons_of_mem x hy)) (h x List.mem_cons_self)

theorem all_one {l : List Nat} (h : ∀ x ∈ l, x ≤ 1) (hsum : l.length ≤ l.sum) : ∀ x ∈ l, x = 1 := by
  induction l with
  | nil => nofun
  | cons x l ih =>
      have hx := h x List.mem_cons_self
      have hl := sum_le_length fun y hy => h y (List.mem_cons_of_mem x hy)
      rw [List.length_cons, List.sum_cons] at hsum
      intro y hy
      rcases List.mem_cons.mp hy with rfl | hy
      · omega
      · exact ih (fun z hz => h z (List.mem_cons_of_mem x hz)) (by omega) y hy

/-- When no reader has counted the ack of an older start, `start_acks` reaches the number of servers only
when all of them run the assignment of the round. -/
theorem barrier_sound {s t : Run} {ls : List RunLabel} {expired : Bool}
    (h : ((run cfg J).guard fun s l => s.acksFresh l = true).run .init ls = some s)
    (hpoll : (run cfg J).step s (.poll expired) = some t) (hacks : s.conns.length ≤ s.startAcks) :
    t.pc = .traffic ∧ ∀ c ∈ t.conns, t.round ∈ c.acked ∧ c.running = some t.round := by
  have hsync : s.Sync := Machine.guard_invariant (I := Run.Sync) (fun hi hg hs => hi.step hg hs) h
    Run.init_sync
  have ht : t = s.goto .traffic := by
    simp only [run] at hpoll
    split at hpoll <;> cases hpoll
    rw [Run.poll, if_neg (Nat.not_lt.mpr hacks)]
  subst ht
  refine ⟨rfl, fun c hc => ?_⟩
  have hc : c ∈ s.conns := hc
  have hok := hsync.conns c hc
  have hle : ∀ x ∈ s.conns.map (Conn.counted s.round), x ≤ 1 := by
    intro x hx
    obtain ⟨a, ha, rfl⟩ := List.mem_map.mp hx
    exact (hsync.conns a ha).counted_le
  have hone := all_one hle (by rw [List.length_map, ← hsync.startAcks]; exact hacks) _
    (List.mem_map_of_mem hc)
  have hmem : s.round ∈ c.acked := by
    have hpos : 0 < (c.acked.take c.reader.acks).count s.round := by
      rw [Conn.counted] at hone
      omega
    exact List.mem_of_mem_take (List.count_pos_iff.mp hpos)
  exact ⟨hmem, hok.running hmem⟩

/-! ## Runs -/

def pairsConfig : Config := { sampleConfig with testType := .pairs }

def emptyPeers : Db.PeersJson := ⟨fun _ => "[]".toList, fun _ => some []⟩

def connected : List RunLabel := [.connect, .connect, .main]

/-- The next round begins, and its starts are sent to two servers. -/
def starts : List RunLabel := [.main, .sendStart, .sendStart, .main]

def answered (i : Nat) : List RunLabel := [.serve i, .reply i (.ok ()), .read i]

/-- Both servers answer the first start in time. -/
theorem barrier_sound_first :
    ∃ s, ((run pairsConfig emptyPeers).guard fun s l => s.acksFresh l = true).run .init
        (connected ++ starts ++ answered 1 ++ answered 0) = some s ∧
      ∀ c ∈ (s.poll false).conns, (s.poll false).round ∈ c.acked ∧
        c.running = some (s.poll false).round := by
  have h : (((run pairsConfig emptyPeers).guard fun s l => s.acksFresh l = true).run .init
      (connected ++ starts ++ answered 1 ++ answered 0)).map
      (fun s => (s.pc, s.startAcks, s.conns.length)) = some (.waiting, 2, 2) := by decide +kernel
  obtain ⟨s, hs, h⟩ := Option.map_eq_some_iff.mp h
  simp only [Prod.mk.injEq] at h
  have hpoll : (run pairsConfig emptyPeers).step s (.poll false) = some (s.poll false) := by
    simp only [run, h.1]
  exact ⟨s, hs, (barrier_sound hs hpoll (by rw [h.2.1, h.2.2])).2⟩

/-- The second server is slow with the first start: its ack comes after the deadline and is counted in
the second round, whose start it has not read. -/
theorem barrier_stale_ack :
    ∃ s, (run pairsConfig emptyPeers).run .init
        (connected ++ starts ++ answered 0 ++ [.serve 1, .poll true, .slept] ++ starts ++
          [.reply 1 (.ok ()), .read 1] ++ answered 0) = some s ∧
      s.pc = .waiting ∧ s.round = 2 ∧ s.conns.length = 2 ∧ s.startAcks = 2 ∧
      (s.poll false).pc = .traffic ∧
      ∃ c ∈ s.conns, s.round ∉ c.acked ∧ c.running = some 1 := by
  have h : ((run pairsConfig emptyPeers).run .init
      (connected ++ starts ++ answered 0 ++ [.serve 1, .poll true, .slept] ++ starts ++
        [.reply 1 (.ok ()), .read 1] ++ answered 0)).map
      (fun s => ((s.pc, s.round, s.startAcks), s.conns.map fun c => (c.acked, c.running))) =
      some ((.waiting, 2, 2), [([1, 2], some 2), ([1], some 1)]) := by decide +kernel
  obtain ⟨s, hs, h⟩ := Option.map_eq_some_iff.mp h
  simp only [Prod.mk.injEq] at h
  obtain ⟨⟨hpc, hround, hacks⟩, hconns⟩ := h
  have hlen : s.conns.length = 2 := by
    have := congrArg List.length hconns
    rwa [List.length_map] at this
  refine ⟨s, hs, hpc, hround, hlen, hacks, ?_, ?_⟩
  · rw [Run.poll, if_neg (by omega)]
    rfl
  · have hmem : ([1], some 1) ∈ s.conns.map fun c => (c.acked, c.running) := by
      rw [hconns]
      exact List.mem_cons_of_mem _ List.mem_cons_self
    obtain ⟨c, hc, he⟩ := List.mem_map.mp hmem
    simp only [Prod.mk.injEq] at he
    exact ⟨c, hc, by rw [he.1, hround]; decide, he.2⟩

end Tperf.Client

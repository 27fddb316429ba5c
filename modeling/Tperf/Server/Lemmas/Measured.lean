import Tperf.Dataplane.Theorems.TcpFleet
import Tperf.Dataplane.Theorems.UdpFleet
import Tperf.Server.Lemmas.Watch

/-!
# The counters of a fleet grow
-/

namespace Tperf.Dataplane
open Lib Metrics Proto

/-! ## TCP -/

/-- A step of the fleet is a step of one host. -/
theorem tcpFleet_moves {S : TcpSite} {s s' : TcpFleet} {l : TcpFleetLabel}
    (h : (tcpFleet S).step s l = some s') :
    ∃ a k H H', s.hosts[a]? = some H ∧ (S.tcp a).step H k = some H' ∧ s'.hosts = s.hosts.set a H' := by
  have hmove : ∀ {a k hosts}, S.move s a k = some hosts → s'.hosts = hosts →
      ∃ a k H H', s.hosts[a]? = some H ∧ (S.tcp a).step H k = some H' ∧ s'.hosts = s.hosts.set a H' := by
    intro a k hosts hm he
    obtain ⟨H, H', hH, hH', rfl⟩ := TcpSite.move_some hm
    exact ⟨a, k, H, H', hH, hH', he⟩
  cases l with
  | host a l =>
      simp only [tcpFleet, Option.ite_none_right_eq_some, Option.map_eq_some_iff] at h
      obtain ⟨-, hosts, hm, rfl⟩ := h
      exact hmove hm rfl
  | dial a i =>
      simp only [tcpFleet, Option.bind_eq_bind, Option.bind_eq_some_iff, Option.some.injEq] at h
      obtain ⟨_, -, _, -, hosts, hm, rfl⟩ := h
      exact hmove hm rfl
  | write p k =>
      simp only [tcpFleet, Option.bind_eq_bind, Option.bind_eq_some_iff, Option.some.injEq] at h
      obtain ⟨_, -, hosts, hm, rfl⟩ := h
      exact hmove hm rfl
  | accept p =>
      simp only [tcpFleet, Option.bind_eq_bind, Option.bind_eq_some_iff, Option.ite_none_right_eq_some,
        Option.some.injEq] at h
      obtain ⟨_, -, _, -, hosts, hm, -, rfl⟩ := h
      exact hmove hm rfl
  | read p n =>
      simp only [tcpFleet, Option.bind_eq_bind, Option.bind_eq_some_iff, Option.ite_none_right_eq_some,
        Option.some.injEq] at h
      obtain ⟨_, -, _, -, hosts, hm, -, rfl⟩ := h
      exact hmove hm rfl
  | stranger a ip =>
      simp only [tcpFleet, Option.ite_none_right_eq_some, Option.map_eq_some_iff] at h
      obtain ⟨-, hosts, hm, rfl⟩ := h
      exact hmove hm rfl
  | strangerRead a j n =>
      simp only [tcpFleet, Option.bind_eq_bind, Option.bind_eq_some_iff, Option.ite_none_right_eq_some,
        Option.map_eq_some_iff] at h
      obtain ⟨_, -, _, -, -, hosts, hm, rfl⟩ := h
      exact hmove hm rfl

/-- In a step of the fleet every host moves bytes and counts them, or stays as it is. -/
theorem tcpFleet_grows {S : TcpSite} {s s' : TcpFleet} {l : TcpFleetLabel} {id : UInt32} {d : Way} {a : Nat}
    {A' : TcpIo} (hknown : S.Known) (hid : id.toNat < S.hosts) (h : s.Ok S)
    (hl : (tcpFleet S).step s l = some s') (hA' : s'.hosts[a]? = some A') :
    ∃ A, s.hosts[a]? = some A ∧ A.moved id d ≤ A'.moved id d ∧
      (A'.moved id d < 2 ^ 64 → A.showing id d ≤ A'.showing id d) := by
  obtain ⟨x, k, X, X', hX, hX', hhosts⟩ := tcpFleet_moves hl
  have hget := hA'
  rw [hhosts] at hget
  obtain ⟨A, hA, rfl⟩ := get_of_set hX hget
  by_cases hxa : x = a
  · subst hxa
    obtain rfl : X = A := Option.some.inj (hX.symm.trans hA)
    rw [if_pos rfl] at hA' ⊢
    obtain ⟨hok, hbooked⟩ := h.hosts x X hX
    obtain ⟨hok', hbooked'⟩ := (h.step hknown hl).hosts x X' hA'
    have hsteps := tcpIo_steps hX'
    exact ⟨X, hX, (hsteps.moves id d).1,
      hbooked.showing_le hbooked' hsteps (hok.names ▸ hid) (hok'.names ▸ hid)⟩
  · rw [if_neg hxa]
    exact ⟨A, hA, le_rfl, fun _ => le_rfl⟩

/-! ## UDP -/

/-- A step of the fleet is a step of one host, or of the air alone. -/
theorem udpFleet_moves {S : Site} {s s' : UdpFleet} {l : UdpFleetLabel} (h : (udpFleet S).step s l = some s') :
    s'.hosts = s.hosts ∨ ∃ a k H H', s.hosts[a]? = some H ∧ (udpIo S.cfg S.payload).step H k = some H' ∧
      s'.hosts = s.hosts.set a H' := by
  cases l with
  | host a l =>
      simp only [udpFleet, Option.ite_none_right_eq_some, Option.bind_eq_bind, Option.bind_eq_some_iff,
        Option.some.injEq] at h
      obtain ⟨-, H, hH, H', hH', rfl⟩ := h
      exact .inr ⟨a, l, H, H', hH, hH', rfl⟩
  | deliver p =>
      simp only [udpFleet, Option.bind_eq_bind, Option.bind_eq_some_iff, Option.some.injEq] at h
      obtain ⟨q, -, H, hH, H', hH', rfl⟩ := h
      exact .inr ⟨q.dst, _, H, H', hH, hH', rfl⟩
  | lose p | copy p =>
      simp only [udpFleet, Option.bind_eq_bind, Option.bind_eq_some_iff, Option.some.injEq] at h
      obtain ⟨_, -, rfl⟩ := h
      exact .inl rfl
  | stranger a dgram =>
      simp only [udpFleet, Option.bind_eq_bind, Option.bind_eq_some_iff, Option.some.injEq] at h
      obtain ⟨H, hH, H', hH', rfl⟩ := h
      exact .inr ⟨a, _, H, H', hH, hH', rfl⟩

theorem udpFleet_grows {S : Site} {s s' : UdpFleet} {l : UdpFleetLabel} {id : UInt32} {d : Way} {a : Nat}
    {A' : UdpIo} (hid : id.toNat < S.hosts) (hne : id ≠ UInt32.ofNat a) (h : s.Ok S)
    (hl : (udpFleet S).step s l = some s') (hA' : s'.hosts[a]? = some A') :
    ∃ A, s.hosts[a]? = some A ∧ A.moved id d ≤ A'.moved id d ∧
      ((A'.moved id d).1 < 2 ^ 64 ∧ (A'.moved id d).2 < 2 ^ 64 → A.showing id d ≤ A'.showing id d) := by
  rcases udpFleet_moves hl with hsame | ⟨x, k, X, X', hX, hX', hhosts⟩
  · rw [hsame] at hA'
    exact ⟨A', hA', le_rfl, fun _ => le_rfl⟩
  · have hget := hA'
    rw [hhosts] at hget
    obtain ⟨A, hA, rfl⟩ := get_of_set hX hget
    by_cases hxa : x = a
    · subst hxa
      obtain rfl : X = A := Option.some.inj (hX.symm.trans hA)
      rw [if_pos rfl] at hA' ⊢
      obtain ⟨hok, hbooked⟩ := h.hosts x X hX
      obtain ⟨hok', hbooked'⟩ := (h.step hl).hosts x X' hA'
      have hsteps := udpIo_steps hX'
      exact ⟨X, hX, (hsteps.moves hbooked.tasks id d).1,
        hbooked.showing_le hbooked' hsteps (hok.npeers ▸ hid) (hok'.npeers ▸ hid) (hok.self ▸ hne)
          (hok'.self ▸ hne)⟩
    · rw [if_neg hxa]
      exact ⟨A, hA, le_rfl, fun _ => le_rfl⟩

end Tperf.Dataplane

import Tperf.Dataplane.Lemmas.TcpFleet
import Tperf.Dataplane.Theorems.Ledger

/-!
# What two hosts count of the bytes between them
-/

namespace Tperf.Dataplane
open Lib Metrics Proto

variable {S : TcpSite} {s s' : TcpFleet}

theorem TcpSite.move_some {a : Nat} {l : TcpIoLabel} {hosts : List TcpIo} (h : S.move s a l = some hosts) :
    ∃ H H', s.hosts[a]? = some H ∧ (S.tcp a).step H l = some H' ∧ hosts = s.hosts.set a H' := by
  simp only [TcpSite.move, Option.bind_eq_bind, Option.bind_eq_some_iff, Option.some.injEq] at h
  obtain ⟨H, hH, H', hH', rfl⟩ := h
  exact ⟨H, H', hH, hH', rfl⟩

/-- A change of one connection. -/
theorem TcpFleet.unread_set {p : Nat} {q : Pipe} (hq : s.pipes[p]? = some q) (a b : Nat) :
    ∃ r, s.unread a b = (if q.src = a ∧ q.dst = b then q.unread else 0) + r ∧
      ∀ q', TcpFleet.unread ⟨s.hosts, s.pipes.set p q'⟩ a b =
        (if q'.src = a ∧ q'.dst = b then q'.unread else 0) + r :=
  sum_map_set (fun q : Pipe => if q.src = a ∧ q.dst = b then q.unread else 0) hq

theorem TcpFleet.Ok.moved {x : Nat} {H H' : TcpIo} {l : TcpIoLabel} (h : s.Ok S)
    (hx : s.hosts[x]? = some H) (hl : (S.tcp x).step H l = some H') {q : Pipe} (hq : q ∈ s.pipes) :
    q.Joins S (s.hosts.set x H') :=
  (h.pipes q hq).move hx (tcpIo_steps hl).grows

/-- A step that moves no byte to or from a host of the list. -/
theorem TcpFleet.Ok.still {x : Nat} {l : TcpIoLabel} {hosts : List TcpIo} (h : s.Ok S)
    (hmove : S.move s x l = some hosts)
    (hstill : ∀ H, s.hosts[x]? = some H → ∀ id, H.writes id l = 0 ∧ H.reads id l = 0) :
    TcpFleet.Ok S ⟨hosts, s.pipes⟩ := by
  obtain ⟨H, H', hx, hl, rfl⟩ := TcpSite.move_some hmove
  apply h.move hx hl
  · intro q hq
    exact h.moved hx hl hq
  · intro a b _ _
    simp [hstill H hx]

theorem TcpFleet.Ok.step (hknown : S.Known) {l : TcpFleetLabel} (h : s.Ok S)
    (hs : (tcpFleet S).step s l = some s') : s'.Ok S := by
  cases l with
  | host x l =>
      simp only [tcpFleet, Option.ite_none_right_eq_some, Option.map_eq_some_iff] at hs
      obtain ⟨hlocal, hosts, hmove, rfl⟩ := hs
      exact h.still hmove fun H _ => TcpIo.local_still hlocal H
  | dial x i =>
      simp only [tcpFleet, Option.bind_eq_bind, Option.bind_eq_some_iff, Option.some.injEq] at hs
      obtain ⟨H, hH, w, hw, hosts, hmove, rfl⟩ := hs
      obtain ⟨H₁, H', hx, hl, rfl⟩ := TcpSite.move_some hmove
      obtain rfl : H = H₁ := Option.some.inj (hH.symm.trans hx)
      have hlt := (List.getElem?_eq_some_iff.mp hx).1
      have hdest : w.destId.toNat < S.hosts := (h.hosts x H hx).1.senders w (List.mem_of_getElem? hw)
      obtain ⟨w', hw', hd'⟩ := (tcpIo_steps hl).grows.senders i w hw
      apply h.move hx hl
      · intro q hq
        rcases List.mem_append.mp hq with hq | hq
        · exact h.moved hx hl hq
        · obtain rfl := List.mem_singleton.mp hq
          refine ⟨h.size ▸ hlt, hdest, ⟨H', w', by simp [hlt], hw', ?_⟩, fun j hj => by cases hj⟩
          rw [hd', UInt32.ofNat_toNat]
      · intro a b _ _
        simp [TcpFleet.unread, TcpIo.writes, TcpIo.reads]
  | write p k =>
      simp only [tcpFleet, Option.bind_eq_bind, Option.bind_eq_some_iff, Option.some.injEq] at hs
      obtain ⟨q, hq, hosts, hmove, rfl⟩ := hs
      obtain ⟨H, H', hx, hl, rfl⟩ := TcpSite.move_some hmove
      have hmem := List.mem_of_getElem? hq
      have hjoins := h.moved hx hl hmem
      apply h.move hx hl
      · intro q₁ hq₁
        rcases List.mem_or_eq_of_mem_set hq₁ with hq₁ | rfl
        · exact h.moved hx hl hq₁
        · exact ⟨hjoins.src, hjoins.dst, hjoins.task, hjoins.conn⟩
      · intro a b _ hb
        obtain ⟨H₁, w, hH₁, hw, hd⟩ := (h.pipes q hmem).task
        obtain rfl : H = H₁ := Option.some.inj (hx.symm.trans hH₁)
        obtain ⟨r, hr, hset⟩ := TcpFleet.unread_set hq a b
        have hto : w.destId = UInt32.ofNat b ↔ q.dst = b := hd ▸ S.id_inj hjoins.dst hb
        rw [hset, hr]
        simp only [TcpIo.writes, TcpIo.reads, hw, Option.map_some, Option.getD_some, toHost, hto]
        by_cases ha : q.src = a
        · by_cases hd : q.dst = b
          · simp [ha, hd]
            omega
          · simp [hd]
        · simp [ha]
  | accept p =>
      simp only [tcpFleet, Option.bind_eq_bind, Option.bind_eq_some_iff, Option.ite_none_right_eq_some,
        Option.some.injEq] at hs
      obtain ⟨q, hq, H, hH, hosts, hmove, hconn, rfl⟩ := hs
      obtain ⟨H₁, H', hx, hl, rfl⟩ := TcpSite.move_some hmove
      obtain rfl : H = H₁ := Option.some.inj (hH.symm.trans hx)
      have hlt := (List.getElem?_eq_some_iff.mp hx).1
      have hmem := List.mem_of_getElem? hq
      have hjoins := h.moved hx hl hmem
      apply h.move hx hl
      · intro q₁ hq₁
        rcases List.mem_or_eq_of_mem_set hq₁ with hq₁ | rfl
        · exact h.moved hx hl hq₁
        · refine ⟨hjoins.src, hjoins.dst, hjoins.task, ?_⟩
          intro j hj
          obtain rfl := Option.some.inj hj
          have hok := (h.hosts _ H hx).1.step (buildIpMap_below _ _ _ _) hl
          cases tcpIo_steps hl
          -- the map of the host knows the address that the connection comes from
          have hlast := hok.conns _ (List.mem_append_right _ (List.mem_singleton_self _))
          exact ⟨_, _, List.getElem?_set_self hlt, List.getElem?_concat_length,
            hlast.peer.trans (hknown _ _ hjoins.src hjoins.dst)⟩
      · intro a b _ _
        obtain ⟨r, hr, hset⟩ := TcpFleet.unread_set hq a b
        rw [hset, hr]
        simp [TcpIo.writes, TcpIo.reads]
  | read p n =>
      simp only [tcpFleet, Option.bind_eq_bind, Option.bind_eq_some_iff, Option.ite_none_right_eq_some,
        Option.some.injEq] at hs
      obtain ⟨q, hq, j, hj, hosts, hmove, hle, rfl⟩ := hs
      obtain ⟨H, H', hx, hl, rfl⟩ := TcpSite.move_some hmove
      have hmem := List.mem_of_getElem? hq
      have hjoins := h.moved hx hl hmem
      apply h.move hx hl
      · intro q₁ hq₁
        rcases List.mem_or_eq_of_mem_set hq₁ with hq₁ | rfl
        · exact h.moved hx hl hq₁
        · exact ⟨hjoins.src, hjoins.dst, hjoins.task, hjoins.conn⟩
      · intro a b ha _
        obtain ⟨H₁, c, hH₁, hc, hp⟩ := (h.pipes q hmem).conn j hj
        obtain rfl : H = H₁ := Option.some.inj (hx.symm.trans hH₁)
        obtain ⟨r, hr, hset⟩ := TcpFleet.unread_set hq a b
        have hfrom : c.peer = some (UInt32.ofNat a) ↔ q.src = a := by
          rw [hp, Option.some.injEq]
          exact S.id_inj hjoins.src ha
        rw [hset, hr]
        simp only [TcpIo.writes, TcpIo.reads, hc, Option.map_some, Option.getD_some, fromHost, hfrom]
        by_cases ha : q.src = a
        · by_cases hd : q.dst = b
          · simp [ha, hd]
            omega
          · simp [hd]
        · simp [ha]
  | stranger x ip =>
      simp only [tcpFleet, Option.ite_none_right_eq_some, Option.map_eq_some_iff] at hs
      obtain ⟨-, hosts, hmove, rfl⟩ := hs
      exact h.still hmove fun _ _ _ => ⟨rfl, rfl⟩
  | strangerRead x j n =>
      simp only [tcpFleet, Option.bind_eq_bind, Option.bind_eq_some_iff, Option.ite_none_right_eq_some,
        Option.map_eq_some_iff] at hs
      obtain ⟨H, hH, c, hc, hnone, hosts, hmove, rfl⟩ := hs
      apply h.still hmove
      intro H₁ hx id
      obtain rfl : H = H₁ := Option.some.inj (hH.symm.trans hx)
      exact ⟨rfl, by simp [TcpIo.reads, hc, fromHost, hnone]⟩

theorem TcpFleet.run_ok (hknown : S.Known) {ls : List TcpFleetLabel}
    (h : (tcpFleet S).run S.init ls = some s) : s.Ok S :=
  Machine.run_invariant (I := fun s : TcpFleet => s.Ok S) (fun hok hs => hok.step hknown hs) h S.init_ok

/-! ## The counters -/

/-- What `a` counts as sent to `b` and what `b` counts as received from `a` differ by what the tasks of both
have not counted yet and what is on the connections. -/
theorem sent_and_received_agree (hknown : S.Known) {ls : List TcpFleetLabel}
    (h : (tcpFleet S).run S.init ls = some s) {a b : Nat} {A B : TcpIo} {x y : AtomStats}
    (hA : s.hosts[a]? = some A) (hB : s.hosts[b]? = some B)
    (hx : A.counters.peer (UInt32.ofNat b) = some x) (hy : B.counters.peer (UInt32.ofNat a) = some y) :
    x.bytesSent + UInt64.ofNat (A.undoneFor (UInt32.ofNat b)) =
        y.bytesRecv + UInt64.ofNat (B.undoneFrom (UInt32.ofNat a) + s.unread a b) ∧
      A.undoneFor (UInt32.ofNat b) ≤ A.tasksFor (UInt32.ofNat b) * S.payload.length ∧
      (A.acceptedFor (UInt32.ofNat b) < 2 ^ 64 →
        x.bytesSent.toNat + A.undoneFor (UInt32.ofNat b) =
          y.bytesRecv.toNat + (B.undoneFrom (UInt32.ofNat a) + s.unread a b)) := by
  have hok := TcpFleet.run_ok hknown h
  have hbooked := (hok.hosts a A hA).2
  have hbooked' := (hok.hosts b B hB).2
  have hbalance := hok.balance a b A B hA hB
  have hsent := (hbooked.counters hx).1
  have hrecv := (hbooked'.counters hy).2
  have hundone := hbooked.undoneFor_le (UInt32.ofNat b)
  have hundone' := hbooked'.undoneFrom_le (UInt32.ofNat a)
  refine ⟨?_, hbooked.undoneFor_le_tasks _, fun hlt => ?_⟩
  · rw [hsent, hbalance, UInt64.ofNat_add, UInt64.ofNat_add, ← add_assoc, hrecv]
  · have hx' := toNat_add_eq hsent hundone hlt
    have hy' := toNat_add_eq hrecv hundone' (by omega)
    omega

/-- Two hosts, of which the first sends three bytes at a time to the second. -/
def oneWay : TcpSite where
  cfg := sampleConfig
  payload := ⟨[1, 2, 3], by decide, by decide⟩
  port := 9100
  family := none
  assignment a := if a = 0 then toSecond else ⟨"b".toList, 1, [], []⟩
  lookup _ id _ := some [⟨.v4 (BitVec.ofNat 32 (id + 1)), 9100⟩]
  source a _ := .v4 (BitVec.ofNat 32 (a + 1))
  few := by decide
  targets := by
    intro a t ht
    split at ht
    · exact (by decide : ∀ t ∈ toSecond.targets, t.id.toNat < sampleConfig.hostlist.length) t ht
    · cases ht

theorem oneWay_known : oneWay.Known := by
  have hall : ∀ a < 2, ∀ b < 2, oneWay.ipToId b (oneWay.source a b) = some (UInt32.ofNat a) := by
    decide +kernel
  exact fun a b ha hb => hall a ha b hb

/-- One payload in two writes, and two bytes of the next; the second read is not counted yet. -/
def underWay : List TcpFleetLabel :=
  [.host 0 .spawn, .dial 0 0, .accept 0, .host 0 (.task 0 .step), .write 0 2, .read 0 2, .host 1 (.step 0),
    .write 0 1, .host 0 (.task 0 .step), .host 0 (.task 0 .step), .host 0 (.task 0 .step), .write 0 2,
    .read 0 2]

theorem sent_and_received_agree_under_way :
    ∃ s A B x y, (tcpFleet oneWay).run oneWay.init underWay = some s ∧ s.hosts[0]? = some A ∧
      s.hosts[1]? = some B ∧ A.counters.peer (UInt32.ofNat 1) = some x ∧
      B.counters.peer (UInt32.ofNat 0) = some y ∧ x.bytesSent = 3 ∧ y.bytesRecv = 2 ∧
      x.bytesSent.toNat + A.undoneFor (UInt32.ofNat 1) =
        y.bytesRecv.toNat + (B.undoneFrom (UInt32.ofNat 0) + s.unread 0 1) := by
  have h : ((tcpFleet oneWay).run oneWay.init underWay).map (fun s =>
      (s.hosts[0]?.map fun A => (decide (A.acceptedFor (UInt32.ofNat 1) < 2 ^ 64),
        (A.counters.peer (UInt32.ofNat 1)).map (·.bytesSent)),
      s.hosts[1]?.map fun B => (B.counters.peer (UInt32.ofNat 0)).map (·.bytesRecv))) =
      some (some (true, some 3), some (some 2)) := by
    decide +kernel
  obtain ⟨s, hs, h⟩ := Option.map_eq_some_iff.mp h
  obtain ⟨hA, hB⟩ := Prod.mk.inj h
  obtain ⟨A, hA, h⟩ := Option.map_eq_some_iff.mp hA
  obtain ⟨hlt, hx⟩ := Prod.mk.inj h
  obtain ⟨x, hx, hsent⟩ := Option.map_eq_some_iff.mp hx
  obtain ⟨B, hB, hy⟩ := Option.map_eq_some_iff.mp hB
  obtain ⟨y, hy, hrecv⟩ := Option.map_eq_some_iff.mp hy
  exact ⟨s, A, B, x, y, hs, hA, hB, hx, hy, hsent, hrecv,
    (sent_and_received_agree oneWay_known hs hA hB hx hy).2.2 (of_decide_eq_true hlt)⟩

end Tperf.Dataplane

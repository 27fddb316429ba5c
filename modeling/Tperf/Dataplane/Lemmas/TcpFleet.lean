import Tperf.Dataplane.Fleet
import Tperf.Dataplane.Lemmas.TcpBooks

/-!
# What the steps of the hosts do to the network
-/

namespace Tperf.Dataplane
open Lib Metrics Proto

/-! ## One host -/

namespace TcpIo

variable (s : TcpIo) (id : UInt32)

/-- The bytes that a step puts into the sockets for the host `id`. -/
def writes : TcpIoLabel → Nat
  | .task i (.accept k) => ((s.senders[i]?).map (toHost id fun _ => k)).getD 0
  | _ => 0

/-- The bytes that a step reads from the host `id`. -/
def reads : TcpIoLabel → Nat
  | .read i n => ((s.conns[i]?).map (fromHost id fun _ => n)).getD 0
  | _ => 0

/-- The tasks of `s` are tasks of `s'`, for the same hosts. -/
structure Extends (s s' : TcpIo) : Prop where
  senders : ∀ (i : Nat) (w : TcpSend), s.senders[i]? = some w →
    ∃ w', s'.senders[i]? = some w' ∧ w'.destId = w.destId
  conns : ∀ (i : Nat) (c : Conn), s.conns[i]? = some c →
    ∃ c', s'.conns[i]? = some c' ∧ c'.peer = c.peer

end TcpIo

variable {cfg : Config} {payload : Payload} {ipToId : IpAddr → Option UInt32} {s s' : TcpIo}
  {l : TcpIoLabel}

theorem set_get {α β : Type} {f : α → β} {xs : List α} {i : Nat} {x x' : α} (hx : xs[i]? = some x)
    (hf : f x' = f x) (j : Nat) (y : α) (hy : xs[j]? = some y) :
    ∃ y', (xs.set i x')[j]? = some y' ∧ f y' = f y := by
  have hlt := (List.getElem?_eq_some_iff.mp hx).1
  by_cases hij : i = j
  · subst hij
    obtain rfl : x = y := Option.some.inj (hx.symm.trans hy)
    exact ⟨x', by simp [hlt], hf⟩
  · exact ⟨y, by simp [hij, hy], rfl⟩

theorem append_get {α β : Type} {f : α → β} {xs ys : List α} (j : Nat) (y : α) (hy : xs[j]? = some y) :
    ∃ y', (xs ++ ys)[j]? = some y' ∧ f y' = f y :=
  ⟨y, by rw [List.getElem?_append_left (List.getElem?_eq_some_iff.mp hy).1, hy], rfl⟩

theorem TcpIo.Steps.grows (h : s.Steps cfg payload ipToId l s') : s.Extends s' := by
  have hkeep : ∀ {α β : Type} {f : α → β} {xs : List α} (j : Nat) (y : α), xs[j]? = some y →
      ∃ y', xs[j]? = some y' ∧ f y' = f y := fun j y hy => ⟨y, hy, rfl⟩
  cases h with
  | task hw hsteps => exact ⟨set_get hw hsteps.fixed.1, hkeep⟩
  | spawn => exact ⟨append_get, hkeep⟩
  | cancel => exact ⟨hkeep, hkeep⟩
  | accept => exact ⟨hkeep, append_get⟩
  | read hc | step hc | close hc => exact ⟨hkeep, set_get hc rfl⟩

theorem TcpSend.Steps.accepts {w w' : TcpSend} {l : TcpLabel} (h : w.Steps l w') :
    w'.accepted = w.accepted + match l with | .accept k => k | _ => 0 := by
  cases h <;> rfl

theorem TcpIo.Steps.acceptedFor (h : s.Steps cfg payload ipToId l s') (id : UInt32) :
    s'.acceptedFor id = s.acceptedFor id + s.writes id l := by
  cases h with
  | @task i l w w' hw hsteps =>
      obtain ⟨r, hr, hset⟩ := sum_map_set (toHost id TcpSend.accepted) hw
      have haccepts := hsteps.accepts
      have hdest : w'.destId = w.destId := hsteps.fixed.1
      simp only [TcpIo.acceptedFor, hset, hr, writes]
      simp only [toHost, hdest]
      cases l with
      | accept k =>
          simp only [hw, Option.map_some, Option.getD_some, toHost] at haccepts ⊢
          split <;> omega
      | connected | connectErr | step | writeErr | cancel | abort =>
          simp only [Nat.add_zero] at haccepts
          simp only [haccepts, Nat.add_zero]
  | spawn => simp [TcpIo.acceptedFor, writes, toHost, TcpSend.init]
  | cancel | accept | read | step | close => rfl

theorem TcpIo.Steps.gotFrom (h : s.Steps cfg payload ipToId l s') (id : UInt32) :
    s'.gotFrom id = s.gotFrom id + s.reads id l := by
  cases h with
  | task | spawn | cancel => rfl
  | accept => simp [TcpIo.gotFrom, reads, fromHost]
  | @read i n c hc hpc =>
      obtain ⟨r, hr, hset⟩ := sum_map_set (fromHost id Conn.got) hc
      simp only [TcpIo.gotFrom, hset, hr, reads, hc, Option.map_some, Option.getD_some, fromHost]
      split <;> omega
  | @step i c bytes d hc hpc hd =>
      obtain ⟨r, hr, hset⟩ := sum_map_set (fromHost id Conn.got) hc
      simp only [TcpIo.gotFrom, hset, hr, reads, fromHost, Nat.add_zero]
  | @close i c hc hpc =>
      obtain ⟨r, hr, hset⟩ := sum_map_set (fromHost id Conn.got) hc
      simp only [TcpIo.gotFrom, hset, hr, reads, fromHost, Nat.add_zero]

theorem TcpIo.local_still {l : TcpIoLabel} (h : l.isLocal = true) (s : TcpIo) (id : UInt32) :
    s.writes id l = 0 ∧ s.reads id l = 0 := by
  cases l with
  | task i l => cases l <;> first | exact ⟨rfl, rfl⟩ | cases h
  | spawn | cancel | step | close => exact ⟨rfl, rfl⟩
  | accept | read => cases h

/-- What a step leaves open is no more than what was open and what it writes. -/
theorem TcpIo.Steps.undoneFor_le (h : s.Steps cfg payload ipToId l s') (id : UInt32) :
    s'.undoneFor id ≤ s.undoneFor id + s.writes id l := by
  cases h with
  | @task i l w w' hw hsteps =>
      obtain ⟨r, hr, hset⟩ := sum_map_set (toHost id TcpSend.undone) hw
      have hopens : w'.undone + w.posting l + w.accepted = w.undone + w'.accepted := hsteps.opens
      have haccepts := hsteps.accepts
      have hdest : w'.destId = w.destId := hsteps.fixed.1
      simp only [TcpIo.undoneFor, hset, hr, writes]
      simp only [toHost, hdest]
      cases l with
      | accept k =>
          simp only [hw, Option.map_some, Option.getD_some, toHost] at haccepts ⊢
          split <;> omega
      | connected | connectErr | step | writeErr | cancel | abort =>
          simp only [Nat.add_zero] at haccepts ⊢
          split <;> omega
  | spawn =>
      simp [TcpIo.undoneFor, writes, toHost, TcpSend.init, TcpSend.undone, TcpPc.offset, TcpPc.owesPeer]
  | cancel | accept | read | step | close => exact Nat.le_refl _

theorem TcpIo.Steps.undoneFrom_le (h : s.Steps cfg payload ipToId l s') (id : UInt32) :
    s'.undoneFrom id ≤ s.undoneFrom id + s.reads id l := by
  cases h with
  | task | spawn | cancel => exact Nat.le_refl _
  | accept => simp [TcpIo.undoneFrom, fromHost, Conn.undone]
  | @read i n c hc hpc =>
      obtain ⟨r, hr, hset⟩ := sum_map_set (fromHost id Conn.undone) hc
      have hle : (UInt64.ofNat n).toNat ≤ n := by
        rw [UInt64.toNat_ofNat']
        exact Nat.mod_le _ _
      simp only [TcpIo.undoneFrom, hset, hr, reads, hc, Option.map_some, Option.getD_some, fromHost]
      by_cases hid : c.peer = some id
      · simp only [hid, Conn.undone, hpc, Option.isSome_some, if_true]
        omega
      · simp [hid]
  | @step i c bytes d hc hpc hd =>
      obtain ⟨r, hr, hset⟩ := sum_map_set (fromHost id Conn.undone) hc
      simp only [TcpIo.undoneFrom, hset, hr, reads, fromHost, Conn.undone]
      split <;> omega
  | @close i c hc hpc =>
      obtain ⟨r, hr, hset⟩ := sum_map_set (fromHost id Conn.undone) hc
      simp only [TcpIo.undoneFrom, hset, hr, reads, fromHost, Conn.undone]
      split <;> omega

theorem TcpIo.Steps.moves (h : s.Steps cfg payload ipToId l s') (id : UInt32) (d : Way) :
    s.moved id d ≤ s'.moved id d ∧ s'.uncounted id d + s.moved id d ≤ s.uncounted id d + s'.moved id d := by
  cases d with
  | sent =>
      have hmoved := h.acceptedFor id
      have hopen := h.undoneFor_le id
      simp only [TcpIo.moved, TcpIo.uncounted]
      omega
  | received =>
      have hmoved := h.gotFrom id
      have hopen := h.undoneFrom_le id
      simp only [TcpIo.moved, TcpIo.uncounted]
      omega

theorem TcpIo.Booked.showing_le (h : s.Booked payload) (h' : s'.Booked payload)
    (hs : s.Steps cfg payload ipToId l s') {id : UInt32} {d : Way}
    (hid : id.toNat < s.counters.names.length) (hid' : id.toNat < s'.counters.names.length)
    (hlt : s'.moved id d < 2 ^ 64) : s.showing id d ≤ s'.showing id d := by
  obtain ⟨hle, hopen⟩ := hs.moves id d
  have hold := h.showing_add hid (hle.trans_lt hlt)
  have hnew := h'.showing_add hid' hlt
  omega

/-! ## All hosts -/

/-- The ends of a connection: its task sends to `dst`, and the host that accepted it knows where it comes
from. -/
structure Pipe.Joins (S : TcpSite) (hosts : List TcpIo) (q : Pipe) : Prop where
  src : q.src < S.hosts
  dst : q.dst < S.hosts
  task : ∃ h w, hosts[q.src]? = some h ∧ h.senders[q.task]? = some w ∧ w.destId = UInt32.ofNat q.dst
  conn : ∀ j, q.conn = some j → ∃ h c, hosts[q.dst]? = some h ∧ h.conns[j]? = some c ∧
    c.peer = some (UInt32.ofNat q.src)

structure TcpFleet.Ok (S : TcpSite) (s : TcpFleet) : Prop where
  size : s.hosts.length = S.hosts
  hosts : ∀ (a : Nat) (h : TcpIo), s.hosts[a]? = some h → h.Ok S.cfg (S.ipToId a) ∧ h.Booked S.payload
  pipes : ∀ q ∈ s.pipes, q.Joins S s.hosts
  /-- What `a` has put into its sockets for `b`, `b` has read or it is between them. -/
  balance : ∀ a b A B, s.hosts[a]? = some A → s.hosts[b]? = some B →
    A.acceptedFor (UInt32.ofNat b) = B.gotFrom (UInt32.ofNat a) + s.unread a b

theorem TcpSite.init_ok (S : TcpSite) : S.init.Ok S where
  size := by simp [TcpSite.init]
  hosts := by
    intro a h hh
    obtain ⟨-, rfl⟩ : a < S.hosts ∧ TcpIo.init S.cfg (S.assignment a) = h := by
      simpa [TcpSite.init, List.getElem?_eq_some_iff] using hh
    exact ⟨TcpIo.init_ok _ (S.targets a), TcpIo.init_booked _ _ _⟩
  pipes := by simp [TcpSite.init]
  balance := by
    intro a b A B hA hB
    obtain ⟨-, rfl⟩ : a < S.hosts ∧ TcpIo.init S.cfg (S.assignment a) = A := by
      simpa [TcpSite.init, List.getElem?_eq_some_iff] using hA
    obtain ⟨-, rfl⟩ : b < S.hosts ∧ TcpIo.init S.cfg (S.assignment b) = B := by
      simpa [TcpSite.init, List.getElem?_eq_some_iff] using hB
    rfl

theorem Pipe.Joins.move {S : TcpSite} {hosts : List TcpIo} {q : Pipe} {x : Nat} {H H' : TcpIo}
    (h : q.Joins S hosts) (hx : hosts[x]? = some H) (hext : H.Extends H') :
    q.Joins S (hosts.set x H') := by
  have hlt := (List.getElem?_eq_some_iff.mp hx).1
  refine ⟨h.src, h.dst, ?_, fun j hj => ?_⟩
  · obtain ⟨A, w, hA, hw, hd⟩ := h.task
    by_cases hxa : x = q.src
    · subst hxa
      obtain rfl : H = A := Option.some.inj (hx.symm.trans hA)
      obtain ⟨w', hw', hd'⟩ := hext.senders _ w hw
      exact ⟨H', w', by simp [hlt], hw', hd'.trans hd⟩
    · exact ⟨A, w, by simp [hxa, hA], hw, hd⟩
  · obtain ⟨B, c, hB, hc, hp⟩ := h.conn j hj
    by_cases hxb : x = q.dst
    · subst hxb
      obtain rfl : H = B := Option.some.inj (hx.symm.trans hB)
      obtain ⟨c', hc', hp'⟩ := hext.conns _ c hc
      exact ⟨H', c', by simp [hlt], hc', hp'.trans hp⟩
    · exact ⟨B, c, by simp [hxb, hB], hc, hp⟩

/-- A step of the host `x`, and what becomes of the connections. -/
theorem TcpFleet.Ok.move {S : TcpSite} {s : TcpFleet} {x : Nat} {H H' : TcpIo} {l : TcpIoLabel} {pipes : List Pipe}
    (h : s.Ok S) (hx : s.hosts[x]? = some H) (hl : (S.tcp x).step H l = some H')
    (hpipes : ∀ q ∈ pipes, q.Joins S (s.hosts.set x H'))
    (hbalance : ∀ a b, a < S.hosts → b < S.hosts →
      (if x = a then H.writes (UInt32.ofNat b) l else 0) + s.unread a b =
        (if x = b then H.reads (UInt32.ofNat a) l else 0) + TcpFleet.unread ⟨s.hosts, pipes⟩ a b) :
    TcpFleet.Ok S ⟨s.hosts.set x H', pipes⟩ := by
  have hsteps := tcpIo_steps hl
  obtain ⟨hok, hbooked⟩ := h.hosts x H hx
  refine ⟨?_, ?_, hpipes, ?_⟩
  · simpa using h.size
  · intro a A' hA'
    obtain ⟨A, hA, rfl⟩ := get_of_set hx hA'
    by_cases hxa : x = a
    · subst hxa
      rw [if_pos rfl]
      exact ⟨hok.step (buildIpMap_below _ _ _ _) hl, hbooked.step hl⟩
    · rw [if_neg hxa]
      exact h.hosts a A hA
  · intro a b A' B' hA' hB'
    obtain ⟨A, hA, rfl⟩ := get_of_set hx hA'
    obtain ⟨B, hB, rfl⟩ := get_of_set hx hB'
    have ha : a < S.hosts := h.size ▸ (List.getElem?_eq_some_iff.mp hA).1
    have hb : b < S.hosts := h.size ▸ (List.getElem?_eq_some_iff.mp hB).1
    have hold := h.balance a b A B hA hB
    have hnew := hbalance a b ha hb
    have hsent : (if x = a then H' else A).acceptedFor (UInt32.ofNat b) =
        A.acceptedFor (UInt32.ofNat b) + if x = a then H.writes (UInt32.ofNat b) l else 0 := by
      by_cases hxa : x = a
      · subst hxa
        obtain rfl : H = A := Option.some.inj (hx.symm.trans hA)
        simp only [if_true]
        exact hsteps.acceptedFor _
      · simp [hxa]
    have hgot : (if x = b then H' else B).gotFrom (UInt32.ofNat a) =
        B.gotFrom (UInt32.ofNat a) + if x = b then H.reads (UInt32.ofNat a) l else 0 := by
      by_cases hxb : x = b
      · subst hxb
        obtain rfl : H = B := Option.some.inj (hx.symm.trans hB)
        simp only [if_true]
        exact hsteps.gotFrom _
      · simp [hxb]
    change _ = _ + TcpFleet.unread ⟨s.hosts, pipes⟩ a b
    omega

end Tperf.Dataplane

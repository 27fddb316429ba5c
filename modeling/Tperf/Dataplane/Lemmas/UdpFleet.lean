import Tperf.Dataplane.Fleet
import Tperf.Dataplane.Lemmas.UdpBooks

/-!
# What the steps of the hosts put into the air and take from it
-/

namespace Tperf.Dataplane
open Lib Metrics Proto

/-! ## One host -/

def UdpIoLabel.dgrams : UdpIoLabel → List (List UInt8)
  | .recv l => l.dgrams
  | _ => []

variable {cfg : Config} {payload : Payload} {selfId : UInt32} {s s' : UdpIo} {l : UdpIoLabel}

theorem UdpIo.Steps.gotFrom (h : s.Steps cfg payload l s') (id : UInt32) :
    s'.gotFrom id = s.gotFrom id + (l.dgrams.map (gotOf id)).sum := by
  cases h with
  | recv hsteps =>
      rw [UdpIo.gotFrom, List.map_append, List.sum_append]
      rfl
  | cancel | worker | spawn | unresolved => exact (add_zero _).symm

/-- What is new on the wire of the host are packets of its own, for hosts of the list. -/
theorem UdpIo.Steps.wire (h : s.Steps cfg payload l s') (hok : s.Ok cfg selfId) (hbooked : s.Booked) :
    ∃ ds, s'.send.test.wire = s.send.test.wire ++ ds ∧
      (∀ d ∈ ds, d.dest.toNat < cfg.hostlist.length ∧ IsPacket selfId d.bytes) ∧
      (l.isLocal = false → ds = []) := by
  cases h with
  | @worker i e w w' t' hw hsteps =>
      have hmem := List.mem_of_getElem? hw
      obtain ⟨ds, hwire, hds, -⟩ := hsteps.sends (hbooked.tasks w hmem)
      refine ⟨ds, hwire, fun d hd => ?_, fun hl => by cases hl⟩
      rw [(hds d hd).1]
      exact ⟨hok.workers w hmem, hok.self ▸ (hds d hd).2⟩
  | recv hsteps => exact ⟨[], by simpa using hsteps.wire, by simp, fun _ => rfl⟩
  | cancel | spawn | unresolved => exact ⟨[], (List.append_nil _).symm, by simp, fun _ => rfl⟩

theorem UdpIo.dgrams_local (h : l.isLocal = true) : l.dgrams = [] := by
  cases l with
  | recv l =>
      cases l with
      | datagram => cases h
      | step | stop => rfl
  | send | spawn | unresolved => rfl

/-! ## All hosts -/

/-- What some datagrams carry from `a` to `b`. -/
def carried (air : List Packet) (a b : Nat) : Nat × Nat :=
  (air.map fun q => if q.src = a ∧ q.dst = b then dataOf q.bytes else 0).sum

theorem carried_append (air air' : List Packet) (a b : Nat) :
    carried (air ++ air') a b = carried air a b + carried air' a b := by
  simp [carried]

theorem carried_erase {air : List Packet} {p : Nat} {q : Packet} (h : air[p]? = some q) (a b : Nat) :
    carried air a b =
      (if q.src = a ∧ q.dst = b then dataOf q.bytes else 0) + carried (air.eraseIdx p) a b := by
  obtain ⟨hlt, rfl⟩ := List.getElem?_eq_some_iff.mp h
  have hperm := (List.getElem_cons_eraseIdx_perm hlt).map
    fun q : Packet => if q.src = a ∧ q.dst = b then dataOf q.bytes else 0
  rw [carried, ← hperm.sum_eq]
  rfl

/-- What strangers have brought to `b` under the id of `a`. -/
def forged (strange : List (Nat × List UInt8)) (a b : Nat) : Nat × Nat :=
  (strange.map fun q => if q.1 = b then gotOf (UInt32.ofNat a) q.2 else 0).sum

theorem forged_append (strange strange' : List (Nat × List UInt8)) (a b : Nat) :
    forged (strange ++ strange') a b = forged strange a b + forged strange' a b := by
  simp [forged]

/-- A packet of a host, for a host. -/
structure Packet.Sound (S : Site) (q : Packet) : Prop where
  src : q.src < S.hosts
  dst : q.dst < S.hosts
  packet : IsPacket (UInt32.ofNat q.src) q.bytes

/-- Each host knows its own id. -/
def Site.Named (S : Site) : Prop := ∀ a < S.hosts, (S.assignment a).selfId = UInt32.ofNat a

structure UdpFleet.Ok (S : Site) (s : UdpFleet) : Prop where
  size : s.hosts.length = S.hosts
  hosts : ∀ (a : Nat) (h : UdpIo), s.hosts[a]? = some h → h.Ok S.cfg (UInt32.ofNat a) ∧ h.Booked
  air : ∀ q ∈ s.air, q.Sound S
  /-- What `a` has sent to `b`, what the network has doubled of it and what others have sent in its name, `b`
  has received, or it is in the air, or lost. -/
  balance : ∀ a b A B, a ≠ b → s.hosts[a]? = some A → s.hosts[b]? = some B →
    A.send.test.wiredTo (UInt32.ofNat b) + carried s.copied a b + forged s.strange a b =
      B.gotFrom (UInt32.ofNat a) + carried s.air a b + carried s.lost a b

/-- What `b` has received from `a` was sent to it. -/
theorem UdpFleet.Ok.gotFrom_le {S : Site} {s : UdpFleet} (h : s.Ok S) {a b : Nat} {A B : UdpIo} (hab : a ≠ b)
    (hA : s.hosts[a]? = some A) (hB : s.hosts[b]? = some B) :
    B.gotFrom (UInt32.ofNat a) ≤
      A.send.test.wiredTo (UInt32.ofNat b) + carried s.copied a b + forged s.strange a b := by
  rw [h.balance a b A B hab hA hB, add_assoc]
  exact le_self_add

theorem Site.initUdp_ok {S : Site} (hnamed : S.Named) : S.initUdp.Ok S where
  size := by simp [Site.initUdp]
  hosts := by
    intro a h hh
    obtain ⟨ha, rfl⟩ : a < S.hosts ∧ UdpIo.init S.cfg (S.assignment a) = h := by
      simpa [Site.initUdp, List.getElem?_eq_some_iff] using hh
    exact ⟨hnamed a ha ▸ UdpIo.init_ok (S.targets a), UdpIo.init_booked _ _⟩
  air := by simp [Site.initUdp]
  balance := by
    intro a b A B _ hA hB
    obtain ⟨-, rfl⟩ : a < S.hosts ∧ UdpIo.init S.cfg (S.assignment a) = A := by
      simpa [Site.initUdp, List.getElem?_eq_some_iff] using hA
    obtain ⟨-, rfl⟩ : b < S.hosts ∧ UdpIo.init S.cfg (S.assignment b) = B := by
      simpa [Site.initUdp, List.getElem?_eq_some_iff] using hB
    rfl

/-- What `a` puts into the air for `b` is what is new on its wire. -/
theorem sentBy_carried {S : Site} {a b : Nat} {H H' : UdpIo} {ds : List Datagram} (hb : b < S.hosts)
    (hwire : H'.send.test.wire = H.send.test.wire ++ ds)
    (hds : ∀ d ∈ ds, d.dest.toNat < S.hosts) :
    H'.send.test.wiredTo (UInt32.ofNat b) =
      H.send.test.wiredTo (UInt32.ofNat b) + carried (sentBy a H H') a b := by
  rw [UdpTest.wiredTo, hwire, List.map_append, List.sum_append, sentBy, hwire, List.drop_left, carried,
    List.map_map]
  congr 2
  apply List.map_congr_left
  intro d hd
  have hto : d.dest = UInt32.ofNat b ↔ d.dest.toNat = b := by
    rw [← S.id_inj (hds d hd) hb, UInt32.ofNat_toNat]
  simp only [hto, Function.comp, true_and]

theorem sentBy_other {a a' b : Nat} {H H' : UdpIo} (h : a ≠ a') : carried (sentBy a H H') a' b = 0 := by
  apply List.sum_eq_zero
  intro x hx
  obtain ⟨q, hq, rfl⟩ := List.mem_map.mp hx
  obtain ⟨d, -, rfl⟩ := List.mem_map.mp hq
  simp [h]

/-- A step of the host `x`, what becomes of the air, and what it has got from strangers. -/
theorem UdpFleet.Ok.move {S : Site} {s : UdpFleet} {x : Nat} {H H' : UdpIo} {l : UdpIoLabel} (h : s.Ok S)
    (hx : s.hosts[x]? = some H) (hl : (udpIo S.cfg S.payload).step H l = some H') (air : List Packet)
    (strange : List (Nat × List UInt8)) (hair : ∀ q ∈ air, q.Sound S)
    (hbalance : ∀ a b, a < S.hosts → b < S.hosts → a ≠ b →
      carried s.air a b + carried (sentBy x H H') a b + forged strange a b =
        (if x = b then (l.dgrams.map (gotOf (UInt32.ofNat a))).sum else 0) + carried air a b) :
    UdpFleet.Ok S ⟨s.hosts.set x H', air, s.lost, s.copied, s.strange ++ strange⟩ := by
  have hsteps := udpIo_steps hl
  obtain ⟨hok, hbooked⟩ := h.hosts x H hx
  obtain ⟨ds, hwire, hds, -⟩ := hsteps.wire hok hbooked
  refine ⟨?_, ?_, hair, ?_⟩
  · simpa using h.size
  · intro a A' hA'
    obtain ⟨A, hA, rfl⟩ := get_of_set hx hA'
    by_cases hxa : x = a
    · subst hxa
      rw [if_pos rfl]
      exact ⟨hok.step hl, hbooked.step hl⟩
    · rw [if_neg hxa]
      exact h.hosts a A hA
  · intro a b A' B' hab hA' hB'
    obtain ⟨A, hA, rfl⟩ := get_of_set hx hA'
    obtain ⟨B, hB, rfl⟩ := get_of_set hx hB'
    have ha : a < S.hosts := h.size ▸ (List.getElem?_eq_some_iff.mp hA).1
    have hb : b < S.hosts := h.size ▸ (List.getElem?_eq_some_iff.mp hB).1
    have hsent : (if x = a then H' else A).send.test.wiredTo (UInt32.ofNat b) =
        A.send.test.wiredTo (UInt32.ofNat b) + carried (sentBy x H H') a b := by
      by_cases hxa : x = a
      · subst hxa
        obtain rfl : H = A := Option.some.inj (hx.symm.trans hA)
        rw [if_pos rfl]
        exact sentBy_carried hb hwire fun d hd => (hds d hd).1
      · rw [if_neg hxa, sentBy_other hxa, add_zero]
    have hgot : (if x = b then H' else B).gotFrom (UInt32.ofNat a) =
        B.gotFrom (UInt32.ofNat a) +
          if x = b then (l.dgrams.map (gotOf (UInt32.ofNat a))).sum else 0 := by
      by_cases hxb : x = b
      · subst hxb
        obtain rfl : H = B := Option.some.inj (hx.symm.trans hB)
        rw [if_pos rfl, if_pos rfl]
        exact hsteps.gotFrom _
      · rw [if_neg hxb, if_neg hxb, add_zero]
    have hold := h.balance a b A B hab hA hB
    have hnew := hbalance a b ha hb hab
    change _ + carried s.copied a b + forged (s.strange ++ strange) a b = _ + carried air a b + carried s.lost a b
    rw [hsent, hgot, forged_append]
    calc A.send.test.wiredTo (UInt32.ofNat b) + carried (sentBy x H H') a b + carried s.copied a b +
          (forged s.strange a b + forged strange a b)
        = A.send.test.wiredTo (UInt32.ofNat b) + carried s.copied a b + forged s.strange a b +
            (carried (sentBy x H H') a b + forged strange a b) := by abel
      _ = B.gotFrom (UInt32.ofNat a) + carried s.lost a b +
            (carried s.air a b + carried (sentBy x H H') a b + forged strange a b) := by rw [hold]; abel
      _ = _ := by rw [hnew]; abel

end Tperf.Dataplane

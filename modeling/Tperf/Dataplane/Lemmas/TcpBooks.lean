import Mathlib.Algebra.BigOperators.Ring.List
import Mathlib.Algebra.Order.BigOperators.Group.List
import Mathlib.Algebra.Order.Ring.Nat
import Tperf.Dataplane.Lemmas.Books

/-!
# The books of a TCP test, peer by peer
-/

namespace Tperf.Dataplane
open Lib Metrics Proto

/-! ## A send task -/

/-- What the socket accepted and the task has not counted for the peer: payloads cut off, the one being
written, and the one whose update is to come. -/
def TcpSend.undone (w : TcpSend) : Nat :=
  w.cut.sum + w.pc.offset + w.pc.owesPeer * w.payload.length

/-- `f` of the tasks that send to the host `id`. -/
def toHost (id : UInt32) (f : TcpSend → Nat) (w : TcpSend) : Nat := if w.destId = id then f w else 0

theorem TcpSend.Steps.ok {w w' : TcpSend} {l : TcpLabel} (h : w.Steps l w') (hok : w.Ok) : w'.Ok := by
  cases h with
  | connected | connectErr | stop | quit | writeErr | abort | unborn => exact trivial
  | write => exact w.payload.length_pos
  | fail => exact .inr rfl
  | total hpc =>
      simp only [TcpSend.Ok, hpc] at hok
      exact hok
  | @peer op => cases op <;> exact trivial
  | accept hpc hlt => exact hlt
  | whole => exact .inl rfl
  | cancel => exact hok

/-- What a step adds to the counter of the peer. -/
def TcpSend.posting (w : TcpSend) : TcpLabel → Nat
  | .step => match w.pc with
      | .peer op => op.passes * w.payload.length
      | _ => 0
  | _ => 0

theorem TcpSend.Steps.opens {w w' : TcpSend} {l : TcpLabel} (h : w.Steps l w') :
    w'.undone + w.posting l + w.accepted = w.undone + w'.accepted := by
  cases h with
  | connected hpc | connectErr hpc | stop hpc | write hpc | quit hpc | fail hpc | total hpc | unborn hpc =>
      simp only [undone, posting, goto, hpc]
      rfl
  | cancel => rfl
  | accept hpc hlt =>
      simp only [undone, posting, hpc, TcpPc.offset, TcpPc.owesPeer]
      omega
  | whole hpc heq =>
      simp only [undone, posting, hpc, TcpPc.offset, TcpPc.owesPeer, sentOp, AddOp.passes]
      omega
  | writeErr hpc | abort hpc =>
      simp only [undone, posting, giveUp, hpc, TcpPc.offset, TcpPc.owesPeer, List.sum_append,
        List.sum_singleton]
      omega
  | @peer op hpc =>
      have hafter : (after op).offset = 0 ∧ (after op).owesPeer = 0 := by cases op <;> exact ⟨rfl, rfl⟩
      rw [undone, undone, hafter.1, hafter.2, hpc]
      simp only [posting, hpc, TcpPc.offset, TcpPc.owesPeer]
      omega

theorem TcpSend.Steps.posts {w w' : TcpSend} {l : TcpLabel} {id : UInt32} {a : AtomStats}
    (h : w.Steps l w') (hok : w.Ok) (ha : w.counters.peer id = some a) :
    ∃ a', w'.counters.peer id = some a' ∧ a'.bytesRecv = a.bytesRecv ∧
      a'.bytesSent = a.bytesSent + UInt64.ofNat (toHost id (·.posting l) w) := by
  cases h with
  | connected hpc | connectErr hpc | stop hpc | write hpc | quit hpc | fail hpc | total hpc =>
      refine ⟨a, ha, rfl, ?_⟩
      simp [toHost, posting, hpc]
  | unborn | cancel | accept | whole | writeErr | abort =>
      exact ⟨a, ha, rfl, by simp [toHost, posting]⟩
  | @peer op hpc =>
      have hof : op.Of w.payload.length 1 := by simpa only [TcpSend.Ok, hpc] using hok
      refine ⟨_, Counters.onPeer_peer ha, ?_, ?_⟩
      · split
        · exact congrArg Prod.fst (op.apply_amount a).2
        · rfl
      · simp only [toHost, posting, hpc]
        split
        · have hsent := (op.apply_amount a).1
          rw [hof.amount_eq] at hsent
          exact congrArg Prod.fst hsent
        · simp

/-- Nothing is cut off before the task gives up, and then it is less than a payload. -/
def TcpSend.Cuts (w : TcpSend) : Prop :=
  match w.pc with
  | .connecting | .top | .writing _ | .total (.sent _ _) | .peer (.sent _ _) => w.cut = []
  | .failed | .total (.drop _) | .peer (.drop _) | .ended => w.cut.sum < w.payload.length

theorem TcpSend.Steps.cuts {w w' : TcpSend} {l : TcpLabel} (h : w.Steps l w') (hok : w.Ok)
    (hcut : w.Cuts) : w'.Cuts := by
  have hpos := w.payload.length_pos
  cases h with
  | connected hpc | write hpc =>
      simp only [Cuts, hpc] at hcut
      exact hcut
  | connectErr hpc | stop hpc | unborn hpc =>
      simp only [Cuts, hpc] at hcut
      simp only [Cuts, goto, hcut]
      exact hpos
  | quit hpc | fail hpc =>
      simp only [Cuts, hpc] at hcut
      exact hcut
  | @total op hpc =>
      simp only [Cuts, hpc] at hcut ⊢
      cases op <;> exact hcut
  | @peer op hpc =>
      simp only [Cuts, hpc] at hcut ⊢
      cases op <;> exact hcut
  | accept hpc | whole hpc =>
      simp only [Cuts, hpc] at hcut
      exact hcut
  | writeErr hpc | abort hpc =>
      simp only [Cuts, TcpSend.Ok, hpc] at hcut hok
      simpa [Cuts, giveUp, hcut] using hok
  | cancel => exact hcut

/-- The program points of a task, and what it has open at each. -/
structure TcpSend.Sound (payload : Payload) (w : TcpSend) : Prop where
  ok : w.Ok
  payload : w.payload = payload
  cuts : w.Cuts
  open_le : w.undone ≤ w.accepted

theorem TcpSend.init_sound (counters : Counters) (destId : UInt32) (payload : Payload) :
    (TcpSend.init counters destId payload).Sound payload where
  ok := trivial
  payload := rfl
  cuts := rfl
  open_le := by simp [init, undone, TcpPc.offset, TcpPc.owesPeer]

theorem TcpSend.Sound.step {payload : Payload} {w w' : TcpSend} {l : TcpLabel} (h : w.Sound payload)
    (hs : w.Steps l w') : w'.Sound payload where
  ok := hs.ok h.ok
  payload := hs.fixed.2.trans h.payload
  cuts := hs.cuts h.ok h.cuts
  open_le := by
    have hopens := hs.opens
    have hle := h.open_le
    omega

/-- No task is more than one payload behind. -/
theorem TcpSend.Sound.undone_le {payload : Payload} {w : TcpSend} (h : w.Sound payload) :
    w.undone ≤ payload.length := by
  have hok := h.ok
  have hcuts := h.cuts
  rw [← h.payload]
  simp only [TcpSend.Ok, Cuts, undone] at *
  cases hpc : w.pc with
  | connecting | top | failed | ended =>
      simp only [hpc] at hcuts
      simp [TcpPc.offset, TcpPc.owesPeer, hcuts, Nat.le_of_lt]
  | writing offset =>
      simp only [hpc] at hok hcuts
      simp [TcpPc.offset, TcpPc.owesPeer, hcuts, Nat.le_of_lt hok]
  | total op | peer op =>
      simp only [hpc] at hcuts
      cases op with
      | sent => simp [TcpPc.offset, TcpPc.owesPeer, AddOp.passes, hcuts]
      | drop => simp [TcpPc.offset, TcpPc.owesPeer, AddOp.passes, Nat.le_of_lt hcuts]

/-! ## A receive task -/

/-- What was read and is not counted for the peer. -/
def Conn.undone (c : Conn) : Nat :=
  match c.pc with
  | .peer bytes => bytes.toNat
  | _ => 0

/-- `f` of the connections from the host `id`. -/
def fromHost (id : UInt32) (f : Conn → Nat) (c : Conn) : Nat := if c.peer = some id then f c else 0

/-! ## The test -/

namespace TcpIo

variable (s : TcpIo) (id : UInt32)

/-- The bytes that the sockets accepted for the host `id`. -/
def acceptedFor : Nat := (s.senders.map (toHost id TcpSend.accepted)).sum

/-- Those of them that are not counted. -/
def undoneFor : Nat := (s.senders.map (toHost id TcpSend.undone)).sum

/-- The bytes that were read from the host `id`. -/
def gotFrom : Nat := (s.conns.map (fromHost id Conn.got)).sum

/-- Those of them that are not counted. -/
def undoneFrom : Nat := (s.conns.map (fromHost id Conn.undone)).sum

/-- The number of tasks that send to the host `id`. -/
def tasksFor : Nat := (s.senders.map (toHost id fun _ => 1)).sum

/-- What the counters of the peer `id` say, and what the tasks for it have still to add. -/
def Books (a : AtomStats) : Prop :=
  Posted a.bytesSent (UInt64.ofNat ∘ toHost id TcpSend.undone) s.senders
      (s.senders.map (UInt64.ofNat ∘ toHost id TcpSend.accepted)).sum ∧
    Posted a.bytesRecv (UInt64.ofNat ∘ fromHost id Conn.undone) s.conns
      (s.conns.map (UInt64.ofNat ∘ fromHost id Conn.got)).sum

/-- Every peer has its books. -/
structure Booked (payload : Payload) : Prop where
  tasks : ∀ w ∈ s.senders, w.Sound payload
  conns : ∀ c ∈ s.conns, c.undone ≤ c.got
  peers : ∀ id, id.toNat < s.counters.names.length → ∃ a, s.counters.peer id = some a ∧ s.Books id a

end TcpIo

variable {cfg : Config} {payload : Payload} {ipToId : IpAddr → Option UInt32} {s s' : TcpIo}

theorem TcpIo.init_booked (cfg : Config) (assignment : Assignment) (payload : Payload) :
    (TcpIo.init cfg assignment).Booked payload where
  tasks := by simp [TcpIo.init]
  conns := by simp [TcpIo.init]
  peers := by
    intro id hid
    refine ⟨.default, ?_, rfl, rfl⟩
    have hid : id.toNat < cfg.hostlist.length := hid
    simp [TcpIo.init, Counters.new, Counters.peer, hid]

/-- A move of the task of one connection. -/
theorem TcpIo.Booked.conn {counters : Counters} {i : Nat} {c c' : Conn} (h : s.Booked payload)
    (hc : s.conns[i]? = some c) (hle : c'.undone ≤ c'.got) (hnames : counters.names = s.counters.names)
    (hs : ∀ id a, s.counters.peer id = some a → ∃ a', counters.peer id = some a' ∧
      a'.bytesSent = a.bytesSent ∧
      a'.bytesRecv + UInt64.ofNat (fromHost id Conn.undone c') + UInt64.ofNat (fromHost id Conn.got c) =
        a.bytesRecv + UInt64.ofNat (fromHost id Conn.undone c) + UInt64.ofNat (fromHost id Conn.got c')) :
    TcpIo.Booked { s with counters := counters, conns := s.conns.set i c' } payload where
  tasks := h.tasks
  conns := by
    intro c₁ hc₁
    rcases List.mem_or_eq_of_mem_set hc₁ with hmem | rfl
    · exact h.conns c₁ hmem
    · exact hle
  peers := by
    intro id hid
    obtain ⟨a, ha, hsent, hrecv⟩ := h.peers id (hnames ▸ hid)
    obtain ⟨a', ha', hsame, hmove⟩ := hs id a ha
    exact ⟨a', ha', hsame ▸ hsent, hrecv.set_sum hc hmove⟩

theorem TcpIo.Booked.step {l : TcpIoLabel} (h : s.Booked payload)
    (hs : (tcpIo cfg payload ipToId).step s l = some s') : s'.Booked payload := by
  have hzero : UInt64.ofNat 0 = 0 := rfl
  cases tcpIo_steps hs with
  | @task i l w w' hw hsteps =>
      have hsound : TcpSend.Sound payload { w with counters := s.counters, cancelled := s.cancelled } :=
        have hw := h.tasks w (List.mem_of_getElem? hw)
        ⟨hw.ok, hw.payload, hw.cuts, hw.open_le⟩
      refine ⟨?_, h.conns, ?_⟩
      · intro w₁ hw₁
        rcases List.mem_or_eq_of_mem_set hw₁ with hmem | rfl
        · exact h.tasks w₁ hmem
        · exact hsound.step hsteps
      · intro id hid
        have hid : id.toNat < s.counters.names.length := hsteps.names ▸ hid
        obtain ⟨a, ha, hsent, hrecv⟩ := h.peers id hid
        obtain ⟨a', ha', hsame, hadd⟩ := hsteps.posts hsound.ok ha
        have hopens : w'.undone + w.posting l + w.accepted = w.undone + w'.accepted := hsteps.opens
        refine ⟨a', ha', hsent.set_sum hw ?_, hsame ▸ hrecv⟩
        have hdest : w'.destId = w.destId := hsteps.fixed.1
        have hadd : a'.bytesSent = a.bytesSent + UInt64.ofNat (toHost id (·.posting l) w) := hadd
        simp only [Function.comp, toHost, hdest, hadd]
        split
        · simp only [← UInt64.ofNat_add, add_assoc]
          congr 2
          omega
        · simp
  | @spawn t targets ht =>
      refine ⟨?_, h.conns, ?_⟩
      · intro w hw
        rcases List.mem_append.mp hw with hw | hw
        · exact h.tasks w hw
        · obtain rfl := List.eq_of_mem_replicate hw
          exact TcpSend.init_sound _ _ _
      · intro id hid
        obtain ⟨a, ha, hsent, hrecv⟩ := h.peers id hid
        refine ⟨a, ha, hsent.append_sum ?_ ?_, hrecv⟩
        · intro w hw
          obtain rfl := List.eq_of_mem_replicate hw
          simp [toHost, TcpSend.undone, TcpSend.init, TcpPc.offset, TcpPc.owesPeer]
        · intro w hw
          obtain rfl := List.eq_of_mem_replicate hw
          simp [toHost, TcpSend.init]
  | cancel => exact ⟨h.tasks, h.conns, h.peers⟩
  | accept =>
      refine ⟨h.tasks, ?_, ?_⟩
      · intro c hc
        rcases List.mem_append.mp hc with hc | hc
        · exact h.conns c hc
        · obtain rfl := List.mem_singleton.mp hc
          exact Nat.le_refl 0
      · intro id hid
        obtain ⟨a, ha, hsent, hrecv⟩ := h.peers id hid
        exact ⟨a, ha, hsent, hrecv.append_sum (by simp [fromHost, Conn.undone]) (by simp [fromHost])⟩
  | @read i n c hc hpc =>
      refine h.conn hc ?_ rfl ?_
      · cases c.peer with
        | none => exact Nat.zero_le _
        | some => exact (Nat.mod_le n (2 ^ 64)).trans (Nat.le_add_left _ _)
      · intro id a ha
        refine ⟨a, ha, rfl, ?_⟩
        by_cases hid : c.peer = some id
        · simp only [fromHost, Conn.undone, hid, hpc, Option.isSome_some, if_true, UInt64.ofNat_toNat,
            UInt64.ofNat_add, hzero, UInt64.add_zero]
          abel
        · simp [fromHost, hid]
  | @step i c bytes d hc hpc hd =>
      refine h.conn hc (Nat.zero_le _) rfl ?_
      intro id a ha
      refine ⟨_, Counters.onPeer_peer ha, ?_, ?_⟩
      · split
        · simp [AtomStats.addRecv_eq]
        · rfl
      · by_cases hid : d = id
        · simp only [fromHost, Conn.undone, hd, hpc, hid, if_true, AtomStats.addRecv_eq, UInt64.ofNat_toNat,
            hzero, UInt64.add_zero]
        · simp [fromHost, hd, hid]
  | @close i c hc hpc =>
      refine h.conn hc (Nat.zero_le _) rfl ?_
      intro id a ha
      exact ⟨a, ha, rfl, by simp [fromHost, Conn.undone, hpc]⟩

theorem TcpIo.Booked.counters (h : s.Booked payload) {id : UInt32} {a : AtomStats}
    (ha : s.counters.peer id = some a) :
    a.bytesSent + UInt64.ofNat (s.undoneFor id) = UInt64.ofNat (s.acceptedFor id) ∧
      a.bytesRecv + UInt64.ofNat (s.undoneFrom id) = UInt64.ofNat (s.gotFrom id) := by
  have hid : id.toNat < s.counters.names.length :=
    s.counters.aligned ▸ (List.getElem?_eq_some_iff.mp ha).1
  obtain ⟨a', ha', hsent, hrecv⟩ := h.peers id hid
  obtain rfl : a = a' := Option.some.inj (ha.symm.trans ha')
  simp only [Posted, sum_ofNat] at hsent hrecv
  exact ⟨hsent, hrecv⟩

theorem TcpIo.Booked.undoneFor_le (h : s.Booked payload) (id : UInt32) :
    s.undoneFor id ≤ s.acceptedFor id := by
  apply List.sum_le_sum
  intro w hw
  have hle := (h.tasks w hw).open_le
  unfold toHost
  split <;> omega

theorem TcpIo.Booked.undoneFrom_le (h : s.Booked payload) (id : UInt32) :
    s.undoneFrom id ≤ s.gotFrom id := by
  apply List.sum_le_sum
  intro c hc
  have hle := h.conns c hc
  unfold fromHost
  split <;> omega

theorem TcpIo.Booked.undoneFor_le_tasks (h : s.Booked payload) (id : UInt32) :
    s.undoneFor id ≤ s.tasksFor id * payload.length := by
  rw [TcpIo.tasksFor, ← List.sum_map_mul_right]
  apply List.sum_le_sum
  intro w hw
  have hle := (h.tasks w hw).undone_le
  unfold toHost
  split
  · rw [Nat.one_mul]
    exact hle
  · exact Nat.zero_le _

/-! ## What the counters show -/

namespace TcpIo

/-- What was moved to or from the host `id`. -/
def moved (s : TcpIo) (id : UInt32) : Way → Nat
  | .sent => s.acceptedFor id
  | .received => s.gotFrom id

/-- What of it is not counted. -/
def uncounted (s : TcpIo) (id : UInt32) : Way → Nat
  | .sent => s.undoneFor id
  | .received => s.undoneFrom id

/-- What the counter of the host `id` shows. -/
def showing (s : TcpIo) (id : UInt32) (d : Way) : Nat := d.bytes.ofHost id.toNat s.counters.snapshotAll.2

end TcpIo

/-- While nothing wraps, a counter and what is not counted are what was moved. -/
theorem TcpIo.Booked.showing_add (h : s.Booked payload) {id : UInt32} {d : Way}
    (hid : id.toNat < s.counters.names.length) (hlt : s.moved id d < 2 ^ 64) :
    s.showing id d + s.uncounted id d = s.moved id d := by
  obtain ⟨a, ha, -⟩ := h.peers id hid
  obtain ⟨hsent, hrecv⟩ := h.counters ha
  rw [TcpIo.showing, Field.ofHost_snapshotAll _ ha]
  cases d with
  | sent => exact toNat_add_eq hsent (h.undoneFor_le id) hlt
  | received => exact toNat_add_eq hrecv (h.undoneFrom_le id) hlt

end Tperf.Dataplane

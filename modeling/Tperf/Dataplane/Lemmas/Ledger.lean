import Tperf.Dataplane.Lemmas.Io

/-!
# The books of a test
-/

namespace Tperf.Dataplane
open Lib Metrics Proto

/-! ## A UDP test -/

structure UdpIo.Ok (cfg : Config) (selfId : UInt32) (s : UdpIo) : Prop where
  names : s.send.test.counters.names = cfg.hostlist
  self : s.send.test.selfId = selfId
  workers : ∀ w ∈ s.send.workers, w.destId.toNat < cfg.hostlist.length
  targets : ∀ t ∈ s.targets, t.id.toNat < cfg.hostlist.length
  recv : s.recv.Known cfg.hostlist.length
  books : s.send.test.counters.ledger.Exceeds ((s.send.workers.map fun w => w.pc.owes).sum +
    (s.recv.owes + strayStats (strays selfId cfg.hostlist.length s.received)))

theorem UdpIo.Ok.npeers {cfg : Config} {selfId : UInt32} {s : UdpIo} (h : s.Ok cfg selfId) :
    s.send.test.npeers = cfg.hostlist.length := congrArg List.length h.names

theorem UdpIo.init_ok {cfg : Config} {assignment : Assignment}
    (h : ∀ t ∈ assignment.targets, t.id.toNat < cfg.hostlist.length) :
    (UdpIo.init cfg assignment).Ok cfg assignment.selfId where
  names := rfl
  self := rfl
  workers := by simp [UdpIo.init]
  targets := h
  recv := trivial
  books := Counters.ledger_new cfg.hostlist

theorem UdpIo.Ok.step {cfg : Config} {selfId : UInt32} {payload : Payload} {s s' : UdpIo} {l : UdpIoLabel}
    (h : s.Ok cfg selfId) (hs : (udpIo cfg payload).step s l = some s') : s'.Ok cfg selfId := by
  cases udpIo_steps hs with
  | cancel => exact ⟨h.names, h.self, h.workers, h.targets, h.recv, h.books⟩
  | @worker i e w w' t' hw hsteps =>
      have hid := h.workers w (List.mem_of_getElem? hw)
      obtain ⟨hdest, -, hself, hnames⟩ := hsteps.fixed
      refine ⟨hnames.trans h.names, hself.trans h.self, ?_, h.targets, h.recv, ?_⟩
      · intro w₁ hw₁
        rcases List.mem_or_eq_of_mem_set hw₁ with hmem | rfl
        · exact h.workers w₁ hmem
        · rw [hdest]
          exact hid
      · exact h.books.pool hw (hsteps.hands (by rw [h.npeers]; exact hid))
  | recv hsteps =>
      obtain ⟨hself, hnames⟩ := hsteps.fixed
      have hknown : s.recv.Known s.send.test.npeers := h.npeers ▸ h.recv
      have hhands := hsteps.hands hknown
      rw [h.npeers, h.self] at hhands
      refine ⟨hnames.trans h.names, hself.trans h.self, h.workers, h.targets,
        h.npeers ▸ hsteps.known_of hknown, ?_⟩
      have hbooks := h.books
      rw [add_left_comm] at hbooks
      have hbooks := hhands _ hbooks
      -- the strays of the label join those received before
      rw [add_assoc, add_left_comm, add_comm (strayStats _), add_assoc, ← strays_append,
        add_left_comm] at hbooks
      exact hbooks
  | @spawn t targets ht =>
      obtain ⟨hid, htargets⟩ := List.forall_mem_cons.mp (ht ▸ h.targets)
      refine ⟨h.names, h.self, ?_, htargets, h.recv, ?_⟩
      · intro w hw
        rcases List.mem_append.mp hw with hw | hw
        · exact h.workers w hw
        · obtain rfl := List.eq_of_mem_replicate hw
          exact hid
      · have hsum : ((s.send.workers ++ List.replicate cfg.workers.toNat
            (UdpWorker.init t.id payload)).map fun w => w.pc.owes).sum =
            (s.send.workers.map fun w => w.pc.owes).sum := by
          simp [UdpWorker.init, UdpPc.owes]
        have hbooks := h.books
        rw [← hsum] at hbooks
        exact hbooks
  | unresolved ht =>
      obtain ⟨-, htargets⟩ := List.forall_mem_cons.mp (ht ▸ h.targets)
      exact ⟨h.names, h.self, h.workers, htargets, h.recv, h.books⟩

/-! ## A TCP test -/

/-- Every id of the map is one of `n`. -/
def Below (n : Nat) (map : IpAddr → Option UInt32) : Prop := ∀ ip id, map ip = some id → id.toNat < n

theorem Below.update {n i : Nat} {map : IpAddr → Option UInt32} (h : Below n map) (hi : i < n)
    (ip : IpAddr) : Below n (Function.update map ip (some (UInt32.ofNat i))) := by
  intro ip' id hid
  rcases eq_or_ne ip' ip with rfl | hne
  · rw [Function.update_self] at hid
    obtain rfl := Option.some.inj hid
    rw [UInt32.toNat_ofNat']
    exact (Nat.mod_le _ _).trans_lt hi
  · rw [Function.update_of_ne hne] at hid
    exact h ip' id hid

theorem buildIpMap_below (lookup : Nat → Str → Option (List SocketAddr)) (hosts : List Str)
    (port : UInt16) (family : Option AddrFamily) :
    Below hosts.length (buildIpMap lookup hosts port family) := by
  refine List.foldlRecOn hosts.zipIdx _ (fun _ _ h => by cases h) ?_
  rintro map hmap ⟨host, i⟩ hmem
  have hi : i < hosts.length := by simpa using List.snd_lt_of_mem_zipIdx hmem
  dsimp only
  cases lookup i (joinHostPort host port) with
  | none => exact hmap
  | some addrs =>
      refine List.foldlRecOn addrs _ hmap ?_
      intro map hmap addr _
      split
      · exact hmap.update hi addr.ip
      · exact hmap

/-- What the total has and the peer has not, or will not have. -/
def Conn.owes (c : Conn) : AtomStats :=
  (match c.pc with
    | .peer bytes => .ofRecv bytes 0
    | _ => 0) + if c.peer.isSome then 0 else .ofRecv (UInt64.ofNat c.got) 0

structure Conn.Ok (n : Nat) (ipToId : IpAddr → Option UInt32) (c : Conn) : Prop where
  peer : c.peer = ipToId c.ip
  known : ∀ id, c.peer = some id → id.toNat < n

/-- The bytes read from connections whose address is not in the map. -/
def strayBytes (ipToId : IpAddr → Option UInt32) (conns : List Conn) : Nat :=
  ((conns.filter fun c => (ipToId c.ip).isNone).map (·.got)).sum

structure TcpIo.Ok (cfg : Config) (ipToId : IpAddr → Option UInt32) (s : TcpIo) : Prop where
  names : s.counters.names = cfg.hostlist
  senders : ∀ w ∈ s.senders, w.destId.toNat < cfg.hostlist.length
  conns : ∀ c ∈ s.conns, c.Ok cfg.hostlist.length ipToId
  targets : ∀ t ∈ s.targets, t.id.toNat < cfg.hostlist.length
  books : s.counters.ledger.Exceeds
    ((s.senders.map fun w => w.pc.owes).sum + (s.conns.map Conn.owes).sum)

theorem TcpIo.init_ok {cfg : Config} {assignment : Assignment} (ipToId : IpAddr → Option UInt32)
    (h : ∀ t ∈ assignment.targets, t.id.toNat < cfg.hostlist.length) :
    (TcpIo.init cfg assignment).Ok cfg ipToId where
  names := rfl
  senders := by simp [TcpIo.init]
  conns := by simp [TcpIo.init]
  targets := h
  books := Counters.ledger_new cfg.hostlist

theorem Conn.hands_read {c : Conn} (hpc : c.pc = .reading) (counters : Counters) (n : Nat) :
    counters.ledger.Hands c.owes (counters.onTotal (·.addRecv (UInt64.ofNat n) 0)).ledger
      (Conn.owes { c with
        pc := if c.peer.isSome then .peer (UInt64.ofNat n) else .reading
        got := c.got + n }) := by
  cases hpeer : c.peer with
  | none =>
      simp only [owes, hpc, hpeer, Option.isSome_none, Bool.false_eq_true, if_false, zero_add]
      have hadd : AtomStats.ofRecv (UInt64.ofNat (c.got + n)) 0 =
          .ofRecv (UInt64.ofNat c.got) 0 + .ofRecv (UInt64.ofNat n) 0 := by
        rw [AtomStats.ofRecv_add, UInt64.ofNat_add, UInt64.add_zero]
      rw [hadd]
      exact Counters.hands_onTotal (fun a => a.addRecv_eq_add _ 0) _
  | some id =>
      simp only [owes, hpc, hpeer, Option.isSome_some, if_true, add_zero]
      exact Counters.hands_onTotal_zero fun a => a.addRecv_eq_add _ 0

/-- A move of the task of one connection. -/
theorem TcpIo.Ok.conn {cfg : Config} {ipToId : IpAddr → Option UInt32} {s : TcpIo} {i : Nat} {c c' : Conn}
    {counters : Counters} (h : s.Ok cfg ipToId) (hc : s.conns[i]? = some c)
    (hnames : counters.names = s.counters.names) (hok : c'.Ok cfg.hostlist.length ipToId)
    (hs : s.counters.ledger.Hands c.owes counters.ledger c'.owes) :
    TcpIo.Ok cfg ipToId { s with counters := counters, conns := s.conns.set i c' } := by
  refine ⟨hnames.trans h.names, h.senders, ?_, h.targets, ?_⟩
  · intro c₁ hc₁
    rcases List.mem_or_eq_of_mem_set hc₁ with hmem | rfl
    · exact h.conns c₁ hmem
    · exact hok
  · have hbooks := h.books
    rw [add_comm] at hbooks
    have hbooks := hbooks.pool hc hs
    rw [add_comm] at hbooks
    exact hbooks

theorem TcpIo.Ok.step {cfg : Config} {ipToId : IpAddr → Option UInt32}
    (hmap : Below cfg.hostlist.length ipToId) {payload : Payload}
    {s s' : TcpIo} {l : TcpIoLabel} (h : s.Ok cfg ipToId)
    (hs : (tcpIo cfg payload ipToId).step s l = some s') : s'.Ok cfg ipToId := by
  cases tcpIo_steps hs with
  | @task i l w w' hw hsteps =>
      have hid := h.senders w (List.mem_of_getElem? hw)
      refine ⟨hsteps.names.trans h.names, ?_, h.conns, h.targets, ?_⟩
      · intro w₁ hw₁
        rcases List.mem_or_eq_of_mem_set hw₁ with hmem | rfl
        · exact h.senders w₁ hmem
        · rw [hsteps.fixed.1]
          exact hid
      · exact h.books.pool hw (hsteps.hands (by
          change w.destId.toNat < s.counters.names.length
          rw [h.names]
          exact hid))
  | @spawn t targets ht =>
      obtain ⟨hid, htargets⟩ := List.forall_mem_cons.mp (ht ▸ h.targets)
      refine ⟨h.names, ?_, h.conns, htargets, ?_⟩
      · intro w hw
        rcases List.mem_append.mp hw with hw | hw
        · exact h.senders w hw
        · obtain rfl := List.eq_of_mem_replicate hw
          exact hid
      · have hsum : ((s.senders ++ List.replicate cfg.workers.toNat
            (TcpSend.init s.counters t.id payload)).map fun w => w.pc.owes).sum =
            (s.senders.map fun w => w.pc.owes).sum := by
          simp [TcpSend.init, TcpPc.owes]
        have hbooks := h.books
        rw [← hsum] at hbooks
        exact hbooks
  | cancel => exact ⟨h.names, h.senders, h.conns, h.targets, h.books⟩
  | @accept ip =>
      have hpeer : (ipToId ip).filter (fun id => (s.counters.peer id).isSome) = ipToId ip := by
        cases hid : ipToId ip with
        | none => rfl
        | some id =>
            have hlt : id.toNat < s.counters.peers.length := by
              rw [s.counters.aligned, h.names]
              exact hmap ip id hid
            simp [Counters.peer, hlt]
      rw [hpeer]
      refine ⟨h.names, h.senders, ?_, h.targets, ?_⟩
      · intro c hc
        rcases List.mem_append.mp hc with hc | hc
        · exact h.conns c hc
        · obtain rfl := List.mem_singleton.mp hc
          exact ⟨rfl, hmap ip⟩
      · have hnew : Conn.owes ⟨ip, ipToId ip, .reading, 0⟩ = 0 := by
          cases hid : ipToId ip with
          | none => rfl
          | some id => rfl
        have hbooks := h.books
        simp only [List.map_append, List.sum_append, List.map_singleton, List.sum_singleton, hnew, add_zero]
        exact hbooks
  | @read i n c hc hpc =>
      have hok := h.conns c (List.mem_of_getElem? hc)
      exact h.conn hc rfl ⟨hok.peer, hok.known⟩ (Conn.hands_read hpc s.counters n)
  | @step i c bytes id hc hpc hid =>
      have hok := h.conns c (List.mem_of_getElem? hc)
      refine h.conn hc rfl ⟨hok.peer, hok.known⟩ ?_
      have hlt : id.toNat < s.counters.names.length := h.names ▸ hok.known id hid
      simp only [Conn.owes, hpc, hid, Option.isSome_some, if_true, add_zero]
      exact Counters.hands_onPeer (fun a => a.addRecv_eq_add bytes 0) hlt
  | @close i c hc hpc =>
      have hok := h.conns c (List.mem_of_getElem? hc)
      refine h.conn hc rfl ⟨hok.peer, hok.known⟩ ?_
      rw [Conn.owes, hpc]
      exact .refl _ _

/-! ## Where no task is between its two updates -/

def UdpPc.between : UdpPc → Bool
  | .peer _ => true
  | _ => false

def TcpPc.between : TcpPc → Bool
  | .peer _ => true
  | _ => false

def RecvPc.between : RecvPc → Bool
  | .peerRecv _ _ _ | .peerDrop _ _ => true
  | _ => false

def ConnPc.between : ConnPc → Bool
  | .peer _ => true
  | _ => false

def UdpIo.Settled (s : UdpIo) : Prop :=
  (∀ w ∈ s.send.workers, w.pc.between = false) ∧ s.recv.between = false

def TcpIo.Settled (s : TcpIo) : Prop :=
  (∀ w ∈ s.senders, w.pc.between = false) ∧ ∀ c ∈ s.conns, c.pc.between = false

instance (s : UdpIo) : Decidable s.Settled := inferInstanceAs (Decidable (_ ∧ _))

instance (s : TcpIo) : Decidable s.Settled := inferInstanceAs (Decidable (_ ∧ _))

theorem UdpIo.Ok.settled {cfg : Config} {selfId : UInt32} {s : UdpIo} (h : s.Ok cfg selfId)
    (hs : s.Settled) :
    s.send.test.counters.TotalsExceed
      ((strays selfId cfg.hostlist.length s.received).map UInt64.toNat).sum
      (strays selfId cfg.hostlist.length s.received).length := by
  have hworkers : (s.send.workers.map fun w => w.pc.owes).sum = 0 := by
    refine List.sum_eq_zero fun a ha => ?_
    obtain ⟨w, hw, rfl⟩ := List.mem_map.mp ha
    have hpc := hs.1 w hw
    cases hw : w.pc <;> simp_all [UdpPc.owes, UdpPc.between]
  have hrecv : s.recv.owes = 0 := by
    have hpc := hs.2
    cases hw : s.recv <;> simp_all [RecvPc.owes, RecvPc.between]
  have hbooks := h.books
  rw [hworkers, hrecv, zero_add, zero_add, strayStats_eq] at hbooks
  exact Counters.totalsExceed hbooks

theorem strayBytes_cons (ipToId : IpAddr → Option UInt32) (c : Conn) (l : List Conn) :
    strayBytes ipToId (c :: l) = (if (ipToId c.ip).isNone then c.got else 0) + strayBytes ipToId l := by
  cases h : (ipToId c.ip).isNone <;> simp [strayBytes, h]

theorem Conn.owes_sum {n : Nat} {ipToId : IpAddr → Option UInt32} {conns : List Conn}
    (h : ∀ c ∈ conns, c.Ok n ipToId) (hs : ∀ c ∈ conns, c.pc.between = false) :
    (conns.map Conn.owes).sum = .ofRecv (UInt64.ofNat (strayBytes ipToId conns)) 0 := by
  induction conns with
  | nil => rfl
  | cons c l ih =>
      have hc := hs c List.mem_cons_self
      have howes : c.owes = .ofRecv (UInt64.ofNat (if (ipToId c.ip).isNone then c.got else 0)) 0 := by
        rw [← (h c List.mem_cons_self).peer]
        cases hpc : c.pc <;> cases hpeer : c.peer <;> simp_all [owes, ConnPc.between]
        all_goals rfl
      rw [List.map_cons, List.sum_cons, ih (fun c' h' => h c' (List.mem_cons_of_mem c h'))
        (fun c' h' => hs c' (List.mem_cons_of_mem c h')), howes, AtomStats.ofRecv_add, strayBytes_cons,
        UInt64.ofNat_add, UInt64.add_zero]

theorem TcpIo.Ok.settled {cfg : Config} {ipToId : IpAddr → Option UInt32} {s : TcpIo}
    (h : s.Ok cfg ipToId) (hs : s.Settled) :
    s.counters.TotalsExceed (strayBytes ipToId s.conns) 0 := by
  have hsenders : (s.senders.map fun w => w.pc.owes).sum = 0 := by
    refine List.sum_eq_zero fun a ha => ?_
    obtain ⟨w, hw, rfl⟩ := List.mem_map.mp ha
    have hpc := hs.1 w hw
    cases hw : w.pc <;> simp_all [TcpPc.owes, TcpPc.between]
  have hbooks := h.books
  rw [hsenders, zero_add, Conn.owes_sum h.conns hs.2] at hbooks
  exact Counters.totalsExceed hbooks

end Tperf.Dataplane

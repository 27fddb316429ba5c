import Tperf.Dataplane.Lemmas.Owed

/-!
# The steps of a test
-/

namespace Tperf.Dataplane
open Lib Metrics Proto

variable {cfg : Config} {payload : Payload}

/-! ## A UDP test -/

inductive UdpIo.Steps (cfg : Config) (payload : Payload) (s : UdpIo) : UdpIoLabel → UdpIo → Prop
  | cancel : Steps cfg payload s (.send .cancel) { s with send := { s.send with test := s.send.test.cancel } }
  | worker {i : Nat} {e : UdpEvent} {w w' : UdpWorker} {t' : UdpTest} (hw : s.send.workers[i]? = some w)
      (hsteps : w.Steps s.send.test e t' w') :
      Steps cfg payload s (.send (.worker i e)) { s with send := ⟨t', s.send.workers.set i w'⟩ }
  | recv {l : RecvLabel} {t' : UdpTest} {pc' : RecvPc} (hsteps : s.send.test.RecvSteps s.recv l t' pc') :
      Steps cfg payload s (.recv l)
        { s with send := ⟨t', s.send.workers⟩, recv := pc', received := s.received ++ l.dgrams }
  | spawn {t : Target} {targets : List Target} (ht : s.targets = t :: targets) :
      Steps cfg payload s .spawn
        { s with
          send := ⟨s.send.test, s.send.workers ++ List.replicate cfg.workers.toNat (UdpWorker.init t.id payload)⟩
          targets := targets }
  | unresolved {t : Target} {targets : List Target} (ht : s.targets = t :: targets) :
      Steps cfg payload s .unresolved { s with targets := targets }

theorem udpIo_steps {s s' : UdpIo} {l : UdpIoLabel} (h : (udpIo cfg payload).step s l = some s') :
    s.Steps cfg payload l s' := by
  cases l with
  | send l =>
      simp only [udpIo, Option.bind_eq_bind, Option.bind_eq_some_iff, Option.some.injEq] at h
      obtain ⟨send, hsend, rfl⟩ := h
      rcases sender_steps hsend with ⟨rfl, rfl⟩ | ⟨i, e, w, t', w', rfl, hw, hsteps, rfl⟩
      · exact .cancel
      · exact .worker hw hsteps
  | recv l =>
      simp only [udpIo, Option.bind_eq_bind, Option.bind_eq_some_iff, Option.some.injEq] at h
      obtain ⟨⟨t', pc'⟩, hrecv, rfl⟩ := h
      exact .recv (recv_steps hrecv)
  | spawn =>
      simp only [udpIo] at h
      cases ht : s.targets with
      | nil => simp [ht] at h
      | cons t targets =>
          simp only [ht, Option.some.injEq] at h
          subst h
          exact .spawn ht
  | unresolved =>
      simp only [udpIo] at h
      cases ht : s.targets with
      | nil => simp [ht] at h
      | cons t targets =>
          simp only [ht, Option.some.injEq] at h
          subst h
          exact .unresolved ht

/-! ## A TCP test -/

inductive TcpIo.Steps (cfg : Config) (payload : Payload) (ipToId : IpAddr → Option UInt32) (s : TcpIo) :
    TcpIoLabel → TcpIo → Prop
  | task {i : Nat} {l : TcpLabel} {w w' : TcpSend} (hw : s.senders[i]? = some w)
      (hsteps : TcpSend.Steps { w with counters := s.counters, cancelled := s.cancelled } l w') :
      Steps cfg payload ipToId s (.task i l)
        { s with counters := w'.counters, cancelled := w'.cancelled, senders := s.senders.set i w' }
  | spawn {t : Target} {targets : List Target} (ht : s.targets = t :: targets) :
      Steps cfg payload ipToId s .spawn
        { s with
          senders := s.senders ++ List.replicate cfg.workers.toNat (TcpSend.init s.counters t.id payload)
          targets := targets }
  | cancel : Steps cfg payload ipToId s .cancel { s with cancelled := true }
  | accept {ip : IpAddr} :
      Steps cfg payload ipToId s (.accept ip)
        { s with conns := s.conns ++ [⟨ip, (ipToId ip).filter fun id => (s.counters.peer id).isSome, .reading, 0⟩] }
  | read {i n : Nat} {c : Conn} (hc : s.conns[i]? = some c) (hpc : c.pc = .reading) :
      Steps cfg payload ipToId s (.read i n)
        { s with
          counters := s.counters.onTotal (·.addRecv (UInt64.ofNat n) 0)
          conns := s.conns.set i { c with
            pc := if c.peer.isSome then .peer (UInt64.ofNat n) else .reading
            got := c.got + n } }
  | step {i : Nat} {c : Conn} {bytes : UInt64} {id : UInt32} (hc : s.conns[i]? = some c)
      (hpc : c.pc = .peer bytes) (hid : c.peer = some id) :
      Steps cfg payload ipToId s (.step i)
        { s with
          counters := s.counters.onPeer id (·.addRecv bytes 0)
          conns := s.conns.set i { c with pc := .reading } }
  | close {i : Nat} {c : Conn} (hc : s.conns[i]? = some c) (hpc : c.pc = .reading) :
      Steps cfg payload ipToId s (.close i) { s with conns := s.conns.set i { c with pc := .ended } }

theorem tcpIo_steps {ipToId : IpAddr → Option UInt32} {s s' : TcpIo} {l : TcpIoLabel}
    (h : (tcpIo cfg payload ipToId).step s l = some s') : s.Steps cfg payload ipToId l s' := by
  cases l with
  | task i l =>
      simp only [tcpIo, Option.bind_eq_bind, Option.bind_eq_some_iff, Option.some.injEq] at h
      obtain ⟨w, hw, w', hstep, rfl⟩ := h
      exact .task hw (tcp_steps hstep)
  | spawn =>
      simp only [tcpIo] at h
      cases ht : s.targets with
      | nil => simp [ht] at h
      | cons t targets =>
          simp only [ht, Option.some.injEq] at h
          subst h
          exact .spawn ht
  | cancel =>
      cases h
      exact .cancel
  | accept ip =>
      cases h
      exact .accept
  | read i n =>
      simp only [tcpIo, Option.bind_eq_bind, Option.bind_eq_some_iff, Option.ite_none_right_eq_some,
        Option.some.injEq] at h
      obtain ⟨c, hc, ⟨hpc, -⟩, rfl⟩ := h
      exact .read hc hpc
  | step i =>
      simp only [tcpIo, Option.bind_eq_bind, Option.bind_eq_some_iff] at h
      obtain ⟨c, hc, h⟩ := h
      cases hpc : c.pc with
      | reading | ended => simp [hpc] at h
      | peer bytes =>
          cases hid : c.peer with
          | none => simp [hpc, hid] at h
          | some id =>
              simp only [hpc, hid, Option.some.injEq] at h
              subst h
              rw [← hid]
              exact .step hc hpc hid
  | close i =>
      simp only [tcpIo, Option.bind_eq_bind, Option.bind_eq_some_iff, Option.ite_none_right_eq_some,
        Option.some.injEq] at h
      obtain ⟨c, hc, hpc, rfl⟩ := h
      exact .close hc hpc

end Tperf.Dataplane

import Tperf.Config.Lemmas.Validate
import Tperf.Dataplane.Lemmas.Checked
import Tperf.Server.Launch

/-!
# The steps of a launch
-/

namespace Tperf.Server
open Lib Proto Config Net Dataplane

variable {cfg : Config} {assignment : Assignment}

/-! ## The payload -/

theorem makePayload_ne_panic {size : UInt64} (h : size.toNat < 2 ^ 63) : makePayload size ≠ .panic := by
  unfold makePayload
  simp only
  by_cases h₀ : size.toNat = 0
  · rw [dif_pos h₀]
    exact fun h => by cases h
  · rw [dif_neg h₀, dif_pos h]
    exact fun h => by cases h

theorem makePayload_panic {size : UInt64} (h : 2 ^ 63 ≤ size.toNat) : makePayload size = .panic := by
  have h₀ : size.toNat ≠ 0 := by omega
  unfold makePayload
  simp only
  rw [dif_neg h₀, dif_neg (Nat.not_lt.mpr h)]

/-! ## Everything a step can do -/

open Launch in
/-- The branches of the step function. -/
inductive Launch.Steps (cfg : Config) (assignment : Assignment) : Launch → LaunchLabel → Launch → Prop
  | turn {port : UInt16} {family : Option AddrFamily} {delay : Nat} {t : Turn} {locals : List IpAddr} :
      Steps cfg assignment (.resolving port family delay) (.turn t locals)
        (turn assignment port family delay t locals)
  | refused {port : UInt16} {family : Option AddrFamily} {a : SocketAddr} {message : Str} :
      Steps cfg assignment (.binding port family a) (.socket (.error message)) (.failed (.socket message))
  | listening {port : UInt16} {family : Option AddrFamily} {a : SocketAddr} (hnet : cfg.network = .tcp) :
      Steps cfg assignment (.binding port family a) (.socket (.ok ())) (.mapping port family)
  | bound {port : UInt16} {family : Option AddrFamily} {a : SocketAddr} (hnet : cfg.network = .udp) :
      Steps cfg assignment (.binding port family a) (.socket (.ok ())) (spawnUdp cfg assignment family)
  | mapped {port : UInt16} {family : Option AddrFamily} {lookup : Nat → Str → Option (List SocketAddr)} :
      Steps cfg assignment (.mapping port family) (.map lookup)
        (spawnTcp cfg assignment (buildIpMap lookup cfg.hostlist port family))
  | spawned {family : Option AddrFamily} {payload : Payload} {buf : List UInt8} {io io' : UdpIo} {delay : Nat}
      {t : Turn} (hio : (udpIo cfg payload).step io .spawn = some io') :
      Steps cfg assignment (.udp family payload buf io delay) (.target t) (.udp family payload buf io' firstDelay)
  | unresolved {family : Option AddrFamily} {payload : Payload} {buf : List UInt8} {io io' : UdpIo}
      {delay : Nat} {t : Turn} (hio : (udpIo cfg payload).step io .unresolved = some io') :
      Steps cfg assignment (.udp family payload buf io delay) (.target t) (.udp family payload buf io' firstDelay)
  | again {family : Option AddrFamily} {payload : Payload} {buf : List UInt8} {io : UdpIo} {delay delay' : Nat}
      {t : Turn} (ht : resolveTurn family delay t = .ok (.again delay')) :
      Steps cfg assignment (.udp family payload buf io delay) (.target t) (.udp family payload buf io delay')
  | targetPanics {family : Option AddrFamily} {payload : Payload} {buf : List UInt8} {io : UdpIo} {delay : Nat}
      {t : Turn} (ht : resolveTurn family delay t = .panic) :
      Steps cfg assignment (.udp family payload buf io delay) (.target t) .panicked
  | sent {family : Option AddrFamily} {payload : Payload} {buf : List UInt8} {io : UdpIo} {delay : Nat}
      {l : SenderLabel} {send : Sender} (hsend : Checked.send (ε := Empty) io.send l = .ok (some send)) :
      Steps cfg assignment (.udp family payload buf io delay) (.send l)
        (.udp family payload buf { io with send := send } delay)
  | sendPanics {family : Option AddrFamily} {payload : Payload} {buf : List UInt8} {io : UdpIo} {delay : Nat}
      {l : SenderLabel} (hsend : Checked.send (ε := Empty) io.send l = .panic) :
      Steps cfg assignment (.udp family payload buf io delay) (.send l) .panicked
  | received {family : Option AddrFamily} {payload : Payload} {buf : List UInt8} {io io' : UdpIo} {delay : Nat}
      {l : RecvLabel} {out : List UInt8 × Option (UdpTest × RecvPc)}
      (hrecv : Checked.recv (ε := Empty) buf io.send.test io.recv l = .ok out)
      (hio : (udpIo cfg payload).step io (.recv l) = some io') :
      Steps cfg assignment (.udp family payload buf io delay) (.recv l) (.udp family payload out.1 io' delay)
  | recvPanics {family : Option AddrFamily} {payload : Payload} {buf : List UInt8} {io : UdpIo} {delay : Nat}
      {l : RecvLabel} (hrecv : Checked.recv (ε := Empty) buf io.send.test io.recv l = .panic) :
      Steps cfg assignment (.udp family payload buf io delay) (.recv l) .panicked
  | tcp {payload : Payload} {ipToId : IpAddr → Option UInt32} {io io' : TcpIo} {delays : Nat → Nat}
      {l : TcpIoLabel} (hio : (tcpIo cfg payload ipToId).step io l = some io') :
      Steps cfg assignment (.tcp payload ipToId io delays) (.tcp l) (.tcp payload ipToId io' delays)
  | allocPanics {payload : Payload} {ipToId : IpAddr → Option UInt32} {io : TcpIo} {delays : Nat → Nat}
      {l : TcpIoLabel} (hbuf : Checked.alloc (ε := Empty) l = .panic) :
      Steps cfg assignment (.tcp payload ipToId io delays) (.tcp l) .panicked
  | slept {payload : Payload} {ipToId : IpAddr → Option UInt32} {io : TcpIo} {delays : Nat → Nat} {i delay : Nat}
      (hdelay : nextDelay (ε := Empty) (delays i) = .ok delay) :
      Steps cfg assignment (.tcp payload ipToId io delays) (.sleep i)
        (.tcp payload ipToId io (Function.update delays i delay))
  | sleepPanics {payload : Payload} {ipToId : IpAddr → Option UInt32} {io : TcpIo} {delays : Nat → Nat}
      {i : Nat} (hdelay : nextDelay (ε := Empty) (delays i) = .panic) :
      Steps cfg assignment (.tcp payload ipToId io delays) (.sleep i) .panicked

/-- The check of a task passes, or the launch panics. -/
theorem Launch.ofTask_some {α : Type} {f : α → Option Launch} {o : Outcome Empty α} {s : Launch}
    (h : ofTask f o = some s) : (∃ a, o = .ok a ∧ f a = some s) ∨ (o = .panic ∧ s = .panicked) := by
  cases o with
  | ok a => exact .inl ⟨a, rfl, h⟩
  | err e => exact e.elim
  | panic =>
      cases h
      exact .inr ⟨rfl, rfl⟩

theorem Launch.target_steps {family : Option AddrFamily} {payload : Payload} {buf : List UInt8} {io : UdpIo}
    {delay : Nat} {t : Turn} {s : Launch} (h : target cfg family payload buf io delay t = some s) :
    Steps cfg assignment (.udp family payload buf io delay) (.target t) s := by
  have hspawned : ∀ {s}, (((udpIo cfg payload).step io .spawn).map fun io =>
      ofOutcome (fun _ => .udp family payload buf io firstDelay) (zeroed udpPkt)) = some s →
      Steps cfg assignment (.udp family payload buf io delay) (.target t) s := by
    intro s hs
    obtain ⟨io', hio, rfl⟩ := Option.map_eq_some_iff.mp hs
    rw [zeroed_ok (by decide)]
    exact .spawned hio
  unfold target at h
  split at h
  · cases h
  · simp only at h
    split at h
    · exact hspawned h
    · split at h
      · exact hspawned h
      · rename_i delay' ht
        cases h
        exact .again ht
      · obtain ⟨io', hio, rfl⟩ := Option.map_eq_some_iff.mp h
        exact .unresolved hio
      · rename_i ht
        cases h
        exact .targetPanics ht

theorem launch_steps {s s' : Launch} {l : LaunchLabel} (h : (launch cfg assignment).step s l = some s') :
    Launch.Steps cfg assignment s l s' := by
  cases s with
  | resolving port family delay =>
      cases l <;> simp only [launch, reduceCtorEq, Option.some.injEq] at h
      subst h
      exact .turn
  | binding port family a =>
      cases l with
      | socket result =>
          cases result with
          | error message =>
              cases h
              exact .refused
          | ok _ =>
              cases hnet : cfg.network with
              | tcp =>
                  simp only [launch, hnet, Option.some.injEq] at h
                  subst h
                  exact .listening hnet
              | udp =>
                  simp only [launch, hnet, Option.some.injEq] at h
                  subst h
                  exact .bound hnet
      | turn | map | target | send | recv | tcp | sleep => cases h
  | mapping port family =>
      cases l <;> simp only [launch, reduceCtorEq, Option.some.injEq] at h
      subst h
      exact .mapped
  | udp family payload buf io delay =>
      cases l with
      | target t => exact Launch.target_steps h
      | send l =>
          rcases Launch.ofTask_some h with ⟨o, hsend, h⟩ | ⟨hsend, rfl⟩
          · obtain ⟨send, rfl, rfl⟩ := Option.map_eq_some_iff.mp h
            exact .sent hsend
          · exact .sendPanics hsend
      | recv l =>
          rcases Launch.ofTask_some h with ⟨out, hrecv, h⟩ | ⟨hrecv, rfl⟩
          · obtain ⟨io', hio, rfl⟩ := Option.map_eq_some_iff.mp h
            exact .received hrecv hio
          · exact .recvPanics hrecv
      | turn | socket | map | tcp | sleep => cases h
  | tcp payload ipToId io delays =>
      cases l with
      | tcp l =>
          rcases Launch.ofTask_some h with ⟨_, -, h⟩ | ⟨hbuf, rfl⟩
          · obtain ⟨io', hio, rfl⟩ := Option.map_eq_some_iff.mp h
            exact .tcp hio
          · exact .allocPanics hbuf
      | sleep i =>
          simp only [launch] at h
          split at h
          · rcases Launch.ofTask_some h with ⟨delay, hdelay, h⟩ | ⟨hdelay, rfl⟩
            · cases h
              exact .slept hdelay
            · exact .sleepPanics hdelay
          · cases h
      | turn | socket | map | target | send | recv => cases h
  | failed e => cases l <;> cases h
  | panicked => cases l <;> cases h

/-! ## The invariant -/

namespace Launch

/-- What holds of a launch whose payload can be allocated. -/
def Inv : Launch → Prop
  | .resolving _ _ delay => delay ≤ 400
  | .udp _ _ buf io delay => buf.length = udpRecvBuf ∧ io.TasksOk ∧ delay ≤ 400
  | .tcp _ _ _ delays => ∀ i, delays i ≤ 400
  | .panicked => False
  | .binding .. | .mapping .. | .failed _ => True

theorem ofOutcome_inv {α : Type} {f : α → Launch} {o : Outcome StartError α} (ho : o ≠ .panic)
    (hf : ∀ a, o = .ok a → (f a).Inv) : (ofOutcome f o).Inv := by
  cases o with
  | ok a => exact hf a rfl
  | err e => exact trivial
  | panic => exact absurd rfl ho

theorem mapErr_ne_panic {ε ε' α : Type} {f : ε → ε'} {x : Outcome ε α} (h : x ≠ .panic) :
    x.mapErr f ≠ .panic := by
  cases x with
  | ok a => exact fun h => by cases h
  | err e => exact fun h => by cases h
  | panic => exact absurd rfl h

/-- A config that passed the checks leads to the bind address, at once or by lookups. -/
theorem init_valid (h : Valid cfg) (assignment : Assignment) :
    ∃ port family, (∃ a, init cfg assignment = .binding port family a) ∨
      init cfg assignment = .resolving port family firstDelay := by
  obtain ⟨family, hfamily⟩ := h.testFamily
  obtain ⟨port, hport⟩ := h.testPort
  refine ⟨port, family, ?_⟩
  rw [init, (validate_iff cfg).mpr h, hfamily, hport]
  simp only [Outcome.mapErr, Outcome.ok_bind, ofOutcome]
  split
  · exact .inl ⟨_, rfl⟩
  · exact .inr rfl

theorem init_inv (h : Valid cfg) (assignment : Assignment) : (init cfg assignment).Inv := by
  obtain ⟨port, family, ⟨a, heq⟩ | heq⟩ := init_valid h assignment
  · rw [heq]
    exact trivial
  · rw [heq]
    exact (by decide : firstDelay ≤ 400)

theorem bound_inv (assignment : Assignment) (port : UInt16) (family : Option AddrFamily)
    (locals : List IpAddr) (resolved : Option SocketAddr) :
    (bound assignment port family locals resolved).Inv := by
  unfold bound
  split
  · exact trivial
  · exact ofOutcome_inv (mapErr_ne_panic (pickAddr_ne_panic _ _)) fun _ _ => trivial

theorem turn_inv {port : UInt16} {family : Option AddrFamily} {delay : Nat} (h : delay ≤ 400) (t : Turn)
    (locals : List IpAddr) : (turn assignment port family delay t locals).Inv := by
  obtain ⟨hpanic, hdelay⟩ := resolveTurn_bounded family h t
  unfold turn
  split
  · rename_i delay' heq
    exact hdelay delay' heq
  · exact bound_inv _ _ _ _ _
  · exact bound_inv _ _ _ _ _
  · contradiction

theorem init_tasksOk (cfg : Config) (assignment : Assignment) : (UdpIo.init cfg assignment).TasksOk :=
  fun _ hw => absurd hw List.not_mem_nil

theorem spawnUdp_inv (hsize : cfg.payloadSize.toNat < 2 ^ 63) (family : Option AddrFamily) :
    (spawnUdp cfg assignment family).Inv := by
  have hne := makePayload_ne_panic hsize
  unfold spawnUdp
  rw [zeroed_ok (by decide)]
  cases hp : makePayload cfg.payloadSize with
  | ok payload => exact ⟨List.length_replicate, init_tasksOk cfg assignment, (by decide : firstDelay ≤ 400)⟩
  | err e => exact trivial
  | panic => exact absurd hp hne

theorem spawnTcp_inv (hsize : cfg.payloadSize.toNat < 2 ^ 63) (ipToId : IpAddr → Option UInt32) :
    (spawnTcp cfg assignment ipToId).Inv :=
  ofOutcome_inv (mapErr_ne_panic (makePayload_ne_panic hsize)) fun _ _ _ => (by decide : firstDelay ≤ 400)

end Launch

open Launch in
theorem launch_inv (hsize : cfg.payloadSize.toNat < 2 ^ 63) {s s' : Launch} {l : LaunchLabel} (h : s.Inv)
    (hs : (launch cfg assignment).step s l = some s') : s'.Inv := by
  have hfirst : firstDelay ≤ 400 := by decide
  cases launch_steps hs with
  | turn => exact turn_inv h _ _
  | refused | listening => exact trivial
  | bound => exact spawnUdp_inv hsize _
  | mapped => exact spawnTcp_inv hsize _
  | spawned hio | unresolved hio => exact ⟨h.1, h.2.1.step hio, hfirst⟩
  | again ht => exact ⟨h.1, h.2.1, (resolveTurn_bounded _ h.2.2 _).2 _ ht⟩
  | targetPanics ht => exact absurd ht (resolveTurn_bounded _ h.2.2 _).1
  | @sent family payload _ io _ l send hsend =>
      rw [checked_send h.2.1, Outcome.ok.injEq] at hsend
      have hio : (udpIo cfg payload).step io (.send l) = some { io with send := send } := by
        simp only [udpIo, hsend]
        rfl
      exact ⟨h.1, h.2.1.step hio, h.2.2⟩
  | sendPanics hsend =>
      rw [checked_send h.2.1] at hsend
      cases hsend
  | received hrecv hio =>
      obtain ⟨buf', hok, hbuf'⟩ := checked_recv (ε := Empty) h.1 _ _ _
      rw [hok] at hrecv
      cases hrecv
      exact ⟨hbuf', h.2.1.step hio, h.2.2⟩
  | recvPanics hrecv =>
      obtain ⟨buf', hok, -⟩ := checked_recv (ε := Empty) h.1 _ _ _
      rw [hok] at hrecv
      cases hrecv
  | tcp => exact h
  | allocPanics hbuf =>
      obtain ⟨buf, hok⟩ := checked_alloc (ε := Empty) _
      rw [hok] at hbuf
      cases hbuf
  | @slept _ _ _ delays i delay hdelay =>
      rw [nextDelay_ok (h i), Outcome.ok.injEq] at hdelay
      intro j
      by_cases hj : j = i
      · rw [hj, Function.update_self, ← hdelay]
        exact Nat.min_le_right _ _
      · rw [Function.update_of_ne hj]
        exact h j
  | sleepPanics hdelay =>
      rw [nextDelay_ok (h _)] at hdelay
      cases hdelay

end Tperf.Server

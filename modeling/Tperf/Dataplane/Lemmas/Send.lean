import Tperf.Dataplane.Lemmas.Packet

/-!
# The steps of a UDP send task
-/

namespace Tperf.Dataplane
open Lib Metrics

/-! ## Everything an event can do -/

/-- The branches of `UdpWorker.step`. -/
inductive UdpWorker.Steps (t : UdpTest) (w : UdpWorker) : UdpEvent → UdpTest → UdpWorker → Prop
  | stop (hpc : w.pc = .top) (hc : t.cancelled = true) : Steps t w .step t (w.goto .ended)
  | pass (hpc : w.pc = .top) (hc : t.cancelled = false) : Steps t w .step t (w.goto (.chunk 0))
  | cut {offset : Nat} (hpc : w.pc = .chunk offset) (hlt : offset < w.payload.length)
      (hc : t.cancelled = true) : Steps t w .step t (w.giveUp offset .top)
  | next {offset : Nat} (hpc : w.pc = .chunk offset) (hlt : offset < w.payload.length)
      (hc : t.cancelled = false) : Steps t w .step t (w.goto (.take offset))
  | done {offset : Nat} (hpc : w.pc = .chunk offset) (heq : offset = w.payload.length) :
      Steps t w .step t (w.goto (.total w.payload.sentOp))
  | beyond {offset : Nat} (hpc : w.pc = .chunk offset) (hgt : w.payload.length < offset) :
      Steps t w .step t (w.goto .top)
  | take {offset : Nat} {seq : UInt64} (hpc : w.pc = .take offset)
      (hseq : seq = (t.seqs[w.destId.toNat]?).getD 0) :
      Steps t w .step (t.takeSeq w.destId)
        { w with pkt := w.pkt.fill t.selfId seq w.payload offset, pc := .sending offset seq }
  | total {op : AddOp} (hpc : w.pc = .total op) :
      Steps t w .step (t.onTotal op.apply) (w.goto (.peer op))
  | peer {op : AddOp} (hpc : w.pc = .peer op) :
      Steps t w .step (t.onPeer w.destId op.apply) (w.goto .top)
  | sendOk {offset : Nat} {seq : UInt64} (hpc : w.pc = .sending offset seq) :
      Steps t w .sendOk (t.send (w.dgram offset))
        (w.goto (.chunk (offset + min (w.payload.length - offset) chunk)))
  | sendErr {offset : Nat} {seq : UInt64} (hpc : w.pc = .sending offset seq) :
      Steps t w .sendErr t (w.giveUp offset (.total (.drop 1)))
  | abort {offset : Nat} {seq : UInt64} (hpc : w.pc = .sending offset seq) :
      Steps t w .abort t (w.giveUp offset .ended)
  | unborn (hpc : w.pc = .top) : Steps t w .abort t (w.goto .ended)

theorem UdpWorker.steps {t t' : UdpTest} {w w' : UdpWorker} {e : UdpEvent}
    (h : w.step t e = some (t', w')) : Steps t w e t' w' := by
  cases e with
  | step =>
      simp only [UdpWorker.step] at h
      cases hpc : w.pc with
      | top =>
          simp only [hpc, Option.some.injEq, Prod.mk.injEq] at h
          obtain ⟨rfl, rfl⟩ := h
          cases hc : t.cancelled with
          | true => exact .stop hpc hc
          | false => exact .pass hpc hc
      | chunk offset =>
          simp only [hpc] at h
          rcases Nat.lt_trichotomy offset w.payload.length with hlt | heq | hgt
          · simp only [hlt, if_true, Option.some.injEq, Prod.mk.injEq] at h
            obtain ⟨rfl, rfl⟩ := h
            cases hc : t.cancelled with
            | true => exact .cut hpc hlt hc
            | false => exact .next hpc hlt hc
          · simp only [heq, Nat.lt_irrefl, if_false, if_true, Option.some.injEq, Prod.mk.injEq] at h
            obtain ⟨rfl, rfl⟩ := h
            exact .done hpc heq
          · have h₁ : ¬ offset < w.payload.length := by omega
            have h₂ : offset ≠ w.payload.length := by omega
            simp only [h₁, h₂, if_false, Option.some.injEq, Prod.mk.injEq] at h
            obtain ⟨rfl, rfl⟩ := h
            exact .beyond hpc hgt
      | take offset =>
          simp only [hpc, Option.some.injEq, Prod.mk.injEq] at h
          obtain ⟨rfl, rfl⟩ := h
          exact .take hpc rfl
      | total op =>
          simp only [hpc, Option.some.injEq, Prod.mk.injEq] at h
          obtain ⟨rfl, rfl⟩ := h
          exact .total hpc
      | peer op =>
          simp only [hpc, Option.some.injEq, Prod.mk.injEq] at h
          obtain ⟨rfl, rfl⟩ := h
          exact .peer hpc
      | sending offset seq => simp [hpc] at h
      | ended => simp [hpc] at h
  | sendOk =>
      simp only [UdpWorker.step] at h
      cases hpc : w.pc <;> simp only [hpc, reduceCtorEq, Option.some.injEq, Prod.mk.injEq] at h
      obtain ⟨rfl, rfl⟩ := h
      exact .sendOk hpc
  | sendErr =>
      simp only [UdpWorker.step] at h
      cases hpc : w.pc <;> simp only [hpc, reduceCtorEq, Option.some.injEq, Prod.mk.injEq] at h
      obtain ⟨rfl, rfl⟩ := h
      exact .sendErr hpc
  | abort =>
      simp only [UdpWorker.step] at h
      cases hpc : w.pc <;> simp only [hpc, reduceCtorEq, Option.some.injEq, Prod.mk.injEq] at h <;>
        obtain ⟨rfl, rfl⟩ := h
      · exact .unborn hpc
      · exact .abort hpc

theorem sender_steps {s s' : Sender} {l : SenderLabel} (h : sender.step s l = some s') :
    (l = .cancel ∧ s' = { s with test := s.test.cancel }) ∨
    ∃ i e w t' w', l = .worker i e ∧ s.workers[i]? = some w ∧ w.Steps s.test e t' w' ∧
      s' = ⟨t', s.workers.set i w'⟩ := by
  cases l with
  | cancel => exact .inl ⟨rfl, (Option.some.inj h).symm⟩
  | worker i e =>
      simp only [sender, Option.bind_eq_bind, Option.bind_eq_some_iff, Option.some.injEq] at h
      obtain ⟨w, hw, ⟨t', w'⟩, hs, rfl⟩ := h
      exact .inr ⟨i, e, w, t', w', rfl, hw, UdpWorker.steps hs, rfl⟩

/-! ## Where a pass stands -/

/-- `offset` is where a packet starts, or the end. -/
def Payload.Boundary (p : Payload) (offset : Nat) : Prop :=
  offset ≤ p.length ∧ (offset = p.length ∨ offset % chunk = 0)

/-- What holds of a task wherever it stands. -/
def UdpWorker.Ok (selfId : UInt32) (w : UdpWorker) : Prop :=
  match w.pc with
  | .chunk offset => w.payload.Boundary offset
  | .take offset => offset < w.payload.length ∧ w.payload.Boundary offset
  | .sending offset seq =>
      offset < w.payload.length ∧ w.payload.Boundary offset ∧
        w.dgram offset = ⟨w.destId, packet selfId seq (w.payload.piece offset)⟩
  | .total op | .peer op => op = w.payload.sentOp ∨ op = .drop 1
  | .top | .ended => True

theorem Payload.boundary_zero (p : Payload) : p.Boundary 0 := ⟨Nat.zero_le _, .inr rfl⟩

theorem Payload.Boundary.next {p : Payload} {offset : Nat} (h : p.Boundary offset)
    (hlt : offset < p.length) : p.Boundary (offset + min (p.length - offset) chunk) := by
  obtain ⟨_, h | h⟩ := h
  · omega
  · refine ⟨by omega, ?_⟩
    rcases Nat.le_total (p.length - offset) chunk with hle | hle
    · exact .inl (by omega)
    · exact .inr (by rw [Nat.min_eq_right hle, Nat.add_mod_right, h])

theorem UdpWorker.Steps.ok {t t' : UdpTest} {w w' : UdpWorker} {e : UdpEvent}
    (h : Steps t w e t' w') (hw : w.Ok t.selfId) : w'.Ok t'.selfId := by
  cases h with
  | stop => exact trivial
  | pass => exact w.payload.boundary_zero
  | cut => exact trivial
  | next hpc hlt hc =>
      simp only [Ok, hpc] at hw
      exact ⟨hlt, hw⟩
  | done => exact .inl rfl
  | beyond => exact trivial
  | take hpc hseq =>
      simp only [Ok, hpc] at hw
      exact ⟨hw.1, hw.2, congrArg _ (take_fill w.pkt _ _ w.payload _)⟩
  | total hpc =>
      simp only [Ok, hpc] at hw
      exact hw
  | peer => exact trivial
  | sendOk hpc =>
      simp only [Ok, hpc] at hw
      exact hw.2.1.next hw.1
  | sendErr => exact .inr rfl
  | abort => exact trivial
  | unborn => exact trivial

/-- A task keeps its destination and its payload. -/
theorem UdpWorker.Steps.fixed {t t' : UdpTest} {w w' : UdpWorker} {e : UdpEvent}
    (h : Steps t w e t' w') :
    w'.destId = w.destId ∧ w'.payload = w.payload ∧ t'.selfId = t.selfId ∧
      t'.counters.names = t.counters.names := by
  cases h <;> exact ⟨rfl, rfl, rfl, rfl⟩

end Tperf.Dataplane

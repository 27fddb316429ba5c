import Tperf.Dataplane.Link
import Tperf.Dataplane.Lemmas.Recv
import Tperf.Dataplane.Lemmas.Send

/-!
# Runs of a sender and a receiver
-/

namespace Tperf.Dataplane
open Lib Lib.HighWater

variable {c : Pairing}

/-! ## The sender -/

structure Sender.Inv (c : Pairing) (a : Sender) : Prop where
  selfId : a.test.selfId = c.a
  tasks : ∀ w ∈ a.workers, w.Ok c.a ∧ w.destId = c.b
  seqs : c.b.toNat < a.test.seqs.length

theorem Pairing.sender_inv (c : Pairing) : c.sender.Inv c where
  selfId := rfl
  tasks w hw := by
    obtain ⟨_, rfl⟩ := List.mem_replicate.mp hw
    exact ⟨trivial, rfl⟩
  seqs := by
    rw [Pairing.sender, spawnUdp, List.length_map]
    exact c.b_lt

theorem Sender.Inv.step {a a' : Sender} {l : SenderLabel} (h : a.Inv c)
    (hs : sender.step a l = some a') : a'.Inv c := by
  rcases sender_steps hs with ⟨_, rfl⟩ | ⟨i, e, w, t', w', _, hw, hst, rfl⟩
  · exact ⟨h.selfId, h.tasks, h.seqs⟩
  · obtain ⟨hok, hdest⟩ := h.tasks w (List.mem_of_getElem? hw)
    obtain ⟨hd, _, hid, hn⟩ := hst.fixed
    refine ⟨hid.trans h.selfId, ?_, ?_⟩
    · intro v hv
      rcases List.mem_or_eq_of_mem_set hv with hv | rfl
      · exact h.tasks v hv
      · have hok' := hst.ok (h.selfId.symm ▸ hok)
        rw [hid, h.selfId] at hok'
        exact ⟨hok', hd.trans hdest⟩
    · rw [t'.seqs_length, hn, ← a.test.seqs_length]
      exact h.seqs

/-- What a step of the sender does to the wire, to the counter of numbers and to the numbers held. -/
inductive Sender.Effect (c : Pairing) (a a' : Sender) : SenderLabel → Prop
  | quiet {l : SenderLabel} (hf : a.fresh a' = []) (hs : a'.test.seqs = a.test.seqs)
      (hh : ∀ j, a'.held j = a.held j) : Effect c a a' l
  | lost {i : Nat} {e : UdpEvent} {seq : UInt64} (he : e = .sendErr ∨ e = .abort)
      (hi : a.held i = some seq) (hf : a.fresh a' = []) : Effect c a a' (.worker i e)
  | take {i : Nat} {seq : UInt64} (hseq : a.test.seqs[c.b.toNat]? = some seq)
      (hs : a'.test.seqs[c.b.toNat]? = some (seq + 1)) (hi : a.held i = none) (hf : a.fresh a' = [])
      (hh : ∀ j, a'.held j = if j = i then some seq else a.held j) : Effect c a a' (.worker i .step)
  | send {i : Nat} {seq : UInt64} {data : List UInt8} (hi : a.held i = some seq)
      (hd : udpHdr + data.length ≤ udpRecvBuf) (hf : a.fresh a' = [⟨c.b, packet c.a seq data⟩])
      (hs : a'.test.seqs = a.test.seqs) (hh : ∀ j, a'.held j = if j = i then none else a.held j) :
      Effect c a a' (.worker i .sendOk)

theorem UdpWorker.held_sending {w : UdpWorker} {offset : Nat} {seq : UInt64}
    (h : w.pc = .sending offset seq) : w.held = some seq := by
  simp only [held, h]

theorem Sender.held_eq {a : Sender} {i : Nat} {w : UdpWorker} (h : a.workers[i]? = some w) :
    a.held i = w.held := by
  rw [Sender.held, h]; rfl

theorem Sender.held_set {a : Sender} {i : Nat} {w : UdpWorker} (h : a.workers[i]? = some w)
    (t' : UdpTest) (w' : UdpWorker) (j : Nat) :
    Sender.held ⟨t', a.workers.set i w'⟩ j = if j = i then w'.held else a.held j := by
  have hi : i < a.workers.length := (List.getElem?_eq_some_iff.mp h).1
  by_cases hj : j = i
  · subst hj
    simp [Sender.held, hi]
  · rw [if_neg hj, Sender.held, Sender.held, List.getElem?_set_ne (Ne.symm hj)]

theorem Sender.held_set_same {a : Sender} {i : Nat} {w w' : UdpWorker} (h : a.workers[i]? = some w)
    (hw : w'.held = w.held) (t' : UdpTest) (j : Nat) :
    Sender.held ⟨t', a.workers.set i w'⟩ j = a.held j := by
  rw [held_set h]
  by_cases hj : j = i
  · rw [if_pos hj, hj, held_eq h, hw]
  · rw [if_neg hj]

theorem Sender.fresh_same {a a' : Sender} (h : a'.test.wire = a.test.wire) : a.fresh a' = [] := by
  rw [Sender.fresh, h, List.drop_length]

theorem Sender.Inv.effect {a a' : Sender} {l : SenderLabel} (h : a.Inv c)
    (hs : sender.step a l = some a') : Effect c a a' l := by
  rcases sender_steps hs with ⟨rfl, rfl⟩ | ⟨i, e, w, t', w', rfl, hw, hst, rfl⟩
  · exact .quiet (fresh_same rfl) rfl fun _ => rfl
  · obtain ⟨hok, hdest⟩ := h.tasks w (List.mem_of_getElem? hw)
    have hheld := held_eq hw
    -- a step before and after which the task holds no number
    have hquiet {t' : UdpTest} {w' : UdpWorker} {e : UdpEvent} (h₁ : t'.wire = a.test.wire)
        (h₂ : t'.seqs = a.test.seqs) (h₃ : w'.held = w.held) :
        Effect c a ⟨t', a.workers.set i w'⟩ (.worker i e) :=
      .quiet (fresh_same h₁) h₂ (held_set_same hw h₃ t')
    cases hst with
    | stop hpc => exact hquiet rfl rfl (by simp [UdpWorker.held, UdpWorker.goto, hpc])
    | pass hpc => exact hquiet rfl rfl (by simp [UdpWorker.held, UdpWorker.goto, hpc])
    | cut hpc => exact hquiet rfl rfl (by simp [UdpWorker.held, UdpWorker.giveUp, hpc])
    | next hpc => exact hquiet rfl rfl (by simp [UdpWorker.held, UdpWorker.goto, hpc])
    | done hpc => exact hquiet rfl rfl (by simp [UdpWorker.held, UdpWorker.goto, hpc])
    | beyond hpc => exact hquiet rfl rfl (by simp [UdpWorker.held, UdpWorker.goto, hpc])
    | total hpc => exact hquiet rfl rfl (by simp [UdpWorker.held, UdpWorker.goto, hpc])
    | peer hpc => exact hquiet rfl rfl (by simp [UdpWorker.held, UdpWorker.goto, hpc])
    | unborn hpc => exact hquiet rfl rfl (by simp [UdpWorker.held, UdpWorker.goto, hpc])
    | sendErr hpc => exact .lost (.inl rfl) (hheld.trans (UdpWorker.held_sending hpc)) (fresh_same rfl)
    | abort hpc => exact .lost (.inr rfl) (hheld.trans (UdpWorker.held_sending hpc)) (fresh_same rfl)
    | take hpc hseq =>
        have hget := List.getElem?_eq_getElem h.seqs
        rw [hdest, hget, Option.getD_some] at hseq
        refine .take (hseq ▸ hget) ?_ (hheld.trans (by simp only [UdpWorker.held, hpc]))
          (fresh_same rfl) (held_set hw _ _)
        simp [UdpTest.takeSeq, hdest, hseq, hget]
    | @sendOk offset seq hpc =>
        simp only [UdpWorker.Ok, hpc] at hok
        rw [hdest] at hok
        refine .send (hheld.trans (UdpWorker.held_sending hpc)) (w.payload.piece_fits offset) ?_ rfl
          (held_set hw _ _)
        simp only [Sender.fresh, UdpTest.send, List.drop_left, hok.2.2]

/-! ## Both ends -/

structure Link.Inv (c : Pairing) (s : Link) : Prop where
  sender : s.a.Inv c
  packets : ∀ d ∈ s.arrived ++ s.queue, IsPacket c.a d.2
  receiver : s.b = (s.arrived.map (·.2)).foldl UdpTest.recv c.receiver
  sorted : (s.arrived ++ s.queue).Pairwise fun d e => d.1 ≤ e.1
  first : s.secondA = false → ∀ d ∈ s.arrived ++ s.queue, d.1 = false

theorem Pairing.init_inv (c : Pairing) : c.init.Inv c where
  sender := c.sender_inv
  packets := nofun
  receiver := rfl
  sorted := List.Pairwise.nil
  first := nofun

/-- What a step of the sender puts on the network. -/
theorem Sender.Effect.fresh {a a' : Sender} {l : SenderLabel} (h : Effect c a a' l) :
    ∀ d ∈ a.fresh a', IsPacket c.a d.bytes := by
  intro d hd
  cases h with
  | quiet hf => rw [hf] at hd; cases hd
  | lost _ _ hf => rw [hf] at hd; cases hd
  | take _ _ _ hf => rw [hf] at hd; cases hd
  | send _ hle hf =>
      rw [hf, List.mem_singleton] at hd
      subst hd
      exact ⟨_, _, rfl, hle⟩

theorem Link.Inv.step {s s' : Link} {l : LinkLabel} (h : s.Inv c)
    (hs : (link c).step s l = some s') : s'.Inv c := by
  cases l with
  | a l =>
      simp only [link, Option.map_eq_some_iff] at hs
      obtain ⟨a', ha, rfl⟩ := hs
      have hnew : ∀ d ∈ (s.a.fresh a').map fun d => (s.secondA, d.bytes),
          d.1 = s.secondA ∧ IsPacket c.a d.2 := by
        intro d hd
        obtain ⟨x, hx, rfl⟩ := List.mem_map.mp hd
        exact ⟨rfl, (h.sender.effect ha).fresh x hx⟩
      refine ⟨h.sender.step ha, ?_, h.receiver, ?_, ?_⟩
      · intro d hd
        rw [← List.append_assoc] at hd
        rcases List.mem_append.mp hd with hd | hd
        · exact h.packets d hd
        · exact (hnew d hd).2
      · rw [← List.append_assoc, List.pairwise_append]
        refine ⟨h.sorted, ?_, ?_⟩
        · exact List.pairwise_of_forall_mem_list fun d hd e he => by
            rw [(hnew d hd).1, (hnew e he).1]
        · intro d hd e he
          rw [(hnew e he).1]
          cases hA : s.secondA with
          | true => exact Bool.le_true _
          | false => rw [h.first hA d hd]
      · intro hA d hd
        rw [← List.append_assoc] at hd
        rcases List.mem_append.mp hd with hd | hd
        · exact h.first hA d hd
        · rw [(hnew d hd).1]; exact hA
  | deliver =>
      simp only [link] at hs
      cases hq : s.queue with
      | nil => simp [hq] at hs
      | cons d q =>
          simp only [hq, Option.some.injEq] at hs
          subst hs
          have happ : (s.arrived ++ [d]) ++ q = s.arrived ++ s.queue := by simp [hq]
          refine ⟨h.sender, ?_, ?_, ?_, ?_⟩
          · rw [happ]; exact h.packets
          · rw [List.map_append, List.foldl_append, ← h.receiver]; rfl
          · rw [happ]; exact h.sorted
          · rw [happ]; exact h.first
  | lose =>
      simp only [link] at hs
      cases hq : s.queue with
      | nil => simp [hq] at hs
      | cons d q =>
          simp only [hq, Option.some.injEq] at hs
          subst hs
          have hsub : (s.arrived ++ q).Sublist (s.arrived ++ s.queue) := by
            rw [hq]; exact (List.sublist_cons_self d q).append_left s.arrived
          exact ⟨h.sender, fun d hd => h.packets d (hsub.subset hd), h.receiver, h.sorted.sublist hsub,
            fun hA d hd => h.first hA d (hsub.subset hd)⟩
  | restartA =>
      simp only [link] at hs
      cases hA : s.secondA with
      | true => simp [hA] at hs
      | false =>
          simp only [hA, Bool.false_eq_true, if_false, Option.some.injEq] at hs
          subst hs
          exact ⟨c.sender_inv, h.packets, h.receiver, h.sorted, nofun⟩
  | restartB =>
      simp only [link] at hs
      cases hB : s.secondB with
      | true => simp [hB] at hs
      | false =>
          simp only [hB, Bool.false_eq_true, if_false, Option.some.injEq] at hs
          subst hs
          have hsub : s.queue.Sublist (s.arrived ++ s.queue) := List.sublist_append_right _ _
          exact ⟨h.sender, fun d hd => h.packets d (hsub.subset hd), rfl, h.sorted.sublist hsub,
            fun hA d hd => h.first hA d (hsub.subset hd)⟩

theorem Pairing.run_inv {s : Link} {ls : List LinkLabel} (h : (link c).run c.init ls = some s) :
    s.Inv c :=
  Machine.run_invariant (fun hi hs => hi.step hs) h c.init_inv

/-- In every state the drops of the current test of `b` are the numbers skipped. -/
theorem Link.Inv.counted {s : Link} (h : s.Inv c) :
    s.b.Counted c.a (HighWater.mark none s.numbers) (skips none s.numbers).length := by
  have hp : ∀ d ∈ s.arrived.map (·.2), IsPacket c.a d := by
    intro d hd
    obtain ⟨x, hx, rfl⟩ := List.mem_map.mp hd
    exact h.packets x (List.mem_append_left _ hx)
  have hc := (spawnUdp_counted c.a_lt c.ne).foldl hp
  rw [List.map_map, Nat.zero_add] at hc
  rw [h.receiver]
  exact hc

theorem Link.numbers_lt (s : Link) : ∀ x ∈ s.numbers, x < 2 ^ 64 := by
  intro x hx
  obtain ⟨d, _, rfl⟩ := List.mem_map.mp hx
  exact seqOf_lt d.2

/-- Both counters of `b` show the numbers skipped. -/
theorem Link.Inv.dropped {s : Link} (h : s.Inv c) :
    s.b.dropped.toNat = (skips none s.numbers).length ∧
      (s.b.peerDropped c.a).map UInt64.toNat = some (skips none s.numbers).length := by
  have hlt := skips_lt s.numbers_lt
  have hto : (UInt64.ofNat (skips none s.numbers).length).toNat = (skips none s.numbers).length :=
    UInt64.toNat_ofNat_of_lt' hlt
  exact ⟨by rw [h.counted.total, hto], by rw [h.counted.peer, Option.map_some, hto]⟩

end Tperf.Dataplane

import Tperf.Control.Basic
import Tperf.Lib.Delivery
import Tperf.Server.Lemmas.History

/-!
# The bytes of a control connection
-/

namespace Tperf.Proto

/-- What is read of a message that was written. `serde_json` may round the rates of a window anew, which
`f` stands for. -/
def Msg.back (f : MetricWindow → MetricWindow) : Msg → Msg
  | .metrics window => .metrics (f window)
  | m => m

end Tperf.Proto

namespace Tperf.Control
open Lib Proto Client Server

variable {J : SerdeJson} {f : MetricWindow → MetricWindow} {L L' : Link} {l : SessionLabel}

namespace Link

/-- `serde_json` reads what it has written on the connection so far. -/
structure ReadsBack (J : SerdeJson) (f : MetricWindow → MetricWindow) (L : Link) : Prop where
  down : ∀ x ∈ L.session.sent, J.fromSlice (J.toVec x.msg) = some (x.msg.back f)
  up : ∀ m ∈ L.written, J.fromSlice (J.toVec m) = some m

/-- Both directions carry whole frames, and what one end has read is what the other has written first. -/
structure Ok (J : SerdeJson) (f : MetricWindow → MetricWindow) (L : Link) : Prop where
  session : L.session.Inv
  framed : L.session.sockErr = false → Wire.Framed (Session.fits J) (Session.bytes J) L.session.wire
  down : Cut (fun x => Session.fits J x = true) (Session.bytes J) L.session.sent L.session.out
  got : Taken (Session.bytes J) (fun x => x.msg.back f) L.session.sent L.got L.downRead
  up : Cut (fun m => (J.toVec m).length ≤ maxFrame) (fun m => frame (J.toVec m)) L.written L.up
  requests : Taken (fun m => frame (J.toVec m)) id L.written L.session.requests L.upRead

theorem init_ok : init.Ok J f where
  session := Session.init_inv
  framed _ := Wire.framed_init
  down := Cut.whole nofun
  got := Taken.init
  up := Cut.whole nofun
  requests := Taken.init

/-! ## The session moves -/

inductive Serves (J : SerdeJson) (L : Link) : SessionLabel → Link → Prop
  | recv {m : Msg} {rest : List UInt8} {s : Session}
      (hread : readFrame J (L.up.drop L.upRead) = .ok (m, rest))
      (hstep : (Server.session J).step L.session (.recv m) = some s) :
      Serves J L (.recv m) { L with session := s, upRead := L.up.length - rest.length }
  | other {l : SessionLabel} {s : Session} (hasked : asked l = [])
      (hopen : L.session.sockErr = true → ∀ k, l ≠ .write k)
      (hstep : (Server.session J).step L.session l = some s) : Serves J L l { L with session := s }

theorem serves (h : L.serve J l = some L') : Serves J L l L' := by
  cases l with
  | recv m =>
      simp only [serve] at h
      split at h
      · rename_i m' rest hread
        split at h
        · rename_i hm
          obtain ⟨s, hstep, rfl⟩ := Option.map_eq_some_iff.mp h
          subst hm
          exact .recv hread hstep
        · cases h
      · cases h
  | write k =>
      simp only [serve] at h
      split at h
      · cases h
      · rename_i hopen
        obtain ⟨s, hstep, rfl⟩ := Option.map_eq_some_iff.mp h
        exact .other rfl (fun herr => absurd herr hopen) hstep
  | _ =>
      simp only [serve, Option.map_eq_some_iff] at h
      obtain ⟨s, hstep, rfl⟩ := h
      exact .other rfl (by simp) hstep

theorem Serves.step (h : Serves J L l L') :
    (Server.session J).step L.session l = some L'.session := by
  cases h <;> assumption

theorem Serves.same (h : Serves J L l L') :
    L'.up = L.up ∧ L'.written = L.written ∧ L'.got = L.got ∧ L'.downRead = L.downRead := by
  cases h <;> exact ⟨rfl, rfl, rfl, rfl⟩

/-- Once the socket has reported an error, nothing more gets on it. -/
theorem Serves.silent (h : Serves J L l L') (herr : L'.session.sockErr = true) :
    L'.session.out = L.session.out ∧ L'.session.sent = L.session.sent := by
  refine Session.step_silent h.step fun k hk => ?_
  subst hk
  have hold : L.session.sockErr = true := (Session.write_sockErr h.step).symm.trans herr
  cases h with
  | other _ hopen => exact hopen hold k rfl

theorem Ok.serve (h : L.Ok J f) (hne : ∀ m, J.toVec m ≠ []) (hback : L'.ReadsBack J f)
    (hs : Serves J L l L') (htears : L.session.tears l = false) : L'.Ok J f where
  session := h.session.step hs.step
  framed hok := by
    have hold := Session.sockErr_step hs.step hok
    obtain ⟨ks, hw⟩ := Session.sim h.session hs.step htears hok
    exact Wire.run_framed (fun _ => frame_ne_nil _) (h.framed hold) hw
  down := by
    cases hok : L'.session.sockErr with
    | true =>
        obtain ⟨hout, hsent⟩ := hs.silent hok
        rw [hout, hsent]
        exact h.down
    | false =>
        have hold := Session.sockErr_step hs.step hok
        obtain ⟨ks, hw⟩ := Session.sim h.session hs.step htears hok
        have hframed := Wire.run_framed (fun _ => frame_ne_nil _) (h.framed hold) hw
        obtain ⟨rest, hout, hrest⟩ := hframed.whole
        refine ⟨hframed.sent, rest, hout, hrest.imp_right ?_⟩
        rintro ⟨x, hfit, hpre, hproper, -⟩
        exact ⟨x, hfit, hpre, hproper⟩
  got := by
    rw [hs.same.2.2.1, hs.same.2.2.2]
    exact h.got.grow (Session.sent_step hs.step)
  up := by
    rw [hs.same.1, hs.same.2.1]
    exact h.up
  requests := by
    have hreq := Session.requests_step hs.step
    cases hs with
    | other hasked hopen hstep =>
        rw [hasked, List.append_nil] at hreq
        exact hreq ▸ h.requests
    | recv hread hstep =>
        obtain ⟨m, -, rfl, hnext⟩ := h.requests.next h.up
          (fun m hm r => readFrame_frame ⟨hne m, hback.up m hm⟩ (h.up.fits m hm) r)
          (fun m r hm hpre hproper => ⟨_, readFrame_cut (hne m) hm hpre hproper⟩) ⟨_, readFrame_nil⟩ hread
        exact hreq ▸ hnext

/-! ## The client writes and reads -/

theorem Ok.write (h : L.Ok J f) {m : Msg} (hclean : L.up = (L.written.map fun m => frame (J.toVec m)).flatten)
    (hfit : (writeFrame J m).isOk = true) : (L.write J m).Ok J f := by
  obtain ⟨bs, hbs⟩ : ∃ bs, writeFrame J m = .ok bs := by
    cases hw : writeFrame J m with
    | ok bs => exact ⟨bs, rfl⟩
    | error e => rw [hw] at hfit; cases hfit
  have hup : (L.write J m).up = ((L.written ++ [m]).map fun m => frame (J.toVec m)).flatten := by
    simp [Link.write, hclean]
  refine { h with up := ?_, requests := h.requests.grow (List.prefix_append _ _) }
  rw [hup]
  refine Cut.whole fun m' hm' => ?_
  rcases List.mem_append.mp hm' with hm' | hm'
  · exact h.up.fits m' hm'
  · rw [List.mem_singleton.mp hm']
    exact (writeFrame_eq_ok.mp hbs).1

theorem Ok.tear (h : L.Ok J f) {m : Msg} (hclean : L.up = (L.written.map fun m => frame (J.toVec m)).flatten)
    (n : Nat) : (L.tear J m n).Ok J f := by
  rw [Link.tear]
  split
  · rename_i bs hbs
    obtain ⟨hle, rfl⟩ := writeFrame_eq_ok.mp hbs
    refine { h with up := ⟨h.up.fits, _, by rw [hclean], .inr ⟨m, hle, ?_, fun heq => ?_⟩⟩ }
    · exact (List.take_prefix _ _).trans (List.dropLast_prefix _)
    · have := congrArg List.length heq
      rw [List.length_take, List.length_dropLast, frame_length] at this
      omega
  · exact h

theorem Ok.take (h : L.Ok J f) (hne : ∀ m, J.toVec m ≠ []) (hback : L.ReadsBack J f) {m : Msg}
    {rest : List UInt8} (hread : readFrame J (L.session.out.drop L.downRead) = .ok (m, rest)) :
    (∃ x, L.session.sent[L.got.length]? = some x ∧ x.msg.back f = m) ∧ (L.take m rest.length).Ok J f := by
  obtain ⟨x, hx, hxm, hnext⟩ := h.got.next h.down (fun x hx r => by
      have hfit : (J.toVec x.msg).length ≤ maxFrame := of_decide_eq_true (h.down.fits x hx)
      rw [readFrame, Session.bytes, deframe_frame (by decide) (hne _) hfit]
      simp only [hback.down x hx])
    (fun x r hx hpre hproper => ⟨_, readFrame_cut (hne _) (of_decide_eq_true hx) hpre hproper⟩)
    ⟨_, readFrame_nil⟩ hread
  exact ⟨⟨x, hx, hxm⟩, { h with got := hnext }⟩

end Link

end Tperf.Control

import Tperf.Client.Lemmas.Merged
import Tperf.Control.Lemmas.Runs

/-!
# What the readers have made of the messages
-/

namespace Tperf.Control
open Lib Proto Client Server

variable {D : Setup} {cut : Prop} {W W' : World} {L L' : Link} {c c' : Conn}

/-- An error that came before any ack of a start. -/
def Refused (got : List Msg) : Prop := ∃ pre message, got = pre ++ [.error message] ∧ startAck ∉ pre

/-- The reader has got the windows among its messages, and has ended for a reason; `cut` is that a read
has failed. -/
structure Heard (cut : Prop) (L : Link) (c : Conn) : Prop where
  inserted : c.reader.inserted = windows L.got
  gotStart : c.reader.gotStart = true ↔ startAck ∈ L.got
  ended : c.reader.ended.isSome = true → stopAck ∈ L.got ∨ Refused L.got ∨ cut

theorem Heard.congr (h : Heard cut L c) (hgot : L'.got = L.got) (hreader : c'.reader = c.reader) :
    Heard cut L' c' where
  inserted := by rw [hgot, hreader]; exact h.inserted
  gotStart := by rw [hgot, hreader]; exact h.gotStart
  ended := by rw [hgot, hreader]; exact h.ended

theorem recv_gotStart (p : Pump) (m : Msg) : (p.recv m).gotStart = true ↔ p.gotStart = true ∨ m = startAck := by
  cases m with
  | ack cmd =>
      simp only [Pump.recv, startAck, Msg.ack.injEq]
      split
      · rename_i hcmd; exact iff_of_true rfl (.inr hcmd)
      · rename_i hcmd
        rw [or_iff_left hcmd]
        split <;> exact Iff.rfl
  | error message => rw [Pump.recv]; split <;> simp [Pump.finish, startAck]
  | metrics _ | start _ _ | stop => simp [Pump.recv, startAck]

theorem recv_ended {p : Pump} {m : Msg} (h : p.ended = none) (he : (p.recv m).ended.isSome = true) :
    m = stopAck ∨ p.gotStart = false ∧ ∃ message, m = .error message := by
  cases m with
  | ack cmd =>
      rw [Pump.recv] at he
      split at he
      · rw [show p.ended = none from h] at he; cases he
      · split at he
        · rename_i hcmd; exact .inl (congrArg Msg.ack hcmd)
        · rw [h] at he; cases he
  | error message =>
      rw [Pump.recv] at he
      split at he
      · rw [h] at he; cases he
      · rename_i hgot; exact .inr ⟨by simpa using hgot, message, rfl⟩
  | metrics _ | start _ _ | stop => rw [Pump.recv] at he; simp [h] at he

theorem Heard.read (h : Heard cut L c) (hlive : c.live = true) (m : Msg) (left : Nat) :
    Heard cut (L.take m left) (c.read m) where
  inserted := by
    show (c.reader.recv m).inserted = windows (L.got ++ [m])
    rw [Pump.recv_inserted, h.inserted, windows_append]
  gotStart := by
    show (c.reader.recv m).gotStart = true ↔ startAck ∈ L.got ++ [m]
    rw [recv_gotStart, h.gotStart]
    simp [eq_comm]
  ended he := by
    have hopen : c.reader.ended = none := by
      simp only [Conn.live, Bool.and_eq_true, Option.isNone_iff_eq_none] at hlive
      exact hlive.1
    show stopAck ∈ L.got ++ [m] ∨ Refused (L.got ++ [m]) ∨ cut
    rcases recv_ended hopen he with rfl | ⟨hgot, message, rfl⟩
    · exact .inl (by simp)
    · refine .inr (.inl ⟨L.got, message, rfl, fun hmem => ?_⟩)
      rw [h.gotStart.mpr hmem] at hgot
      cases hgot

def World.AllHeard (cut : Prop) (W : World) : Prop :=
  ∀ (i : Nat) (L : Link) (c : Conn), W.links[i]? = some L → W.client.conns[i]? = some c → Heard cut L c

/-- A read fails. -/
def cuts : WorldLabel → Bool
  | .client (.readErr _) => true
  | _ => false

theorem World.AllHeard.update (h : W.AllHeard cut) {k : Nat} {g : Link → Link} {p : Conn → Conn} {s : Run}
    (hs : s.conns = W.client.conns.modify k p)
    (hk : ∀ L c, W.links[k]? = some L → W.client.conns[k]? = some c → Heard cut L c → Heard cut (g L) (p c)) :
    ({ W with client := s }.onLink k g).AllHeard cut := by
  intro i L' c' hL' hc'
  have hc' : s.conns[i]? = some c' := hc'
  rw [hs] at hc'
  obtain ⟨L, hL, rfl⟩ := modify_get hL'
  obtain ⟨c, hc, rfl⟩ := modify_get hc'
  split
  · rename_i hki
    subst hki
    exact hk L c hL hc (h k L c hL hc)
  · exact h i L c hL hc

theorem World.AllHeard.step (h : W.AllHeard cut) (hlen : W.links.length = W.client.conns.length) {l : WorldLabel}
    (hs : (world D).step W l = some W') (hcut : cut ∨ cuts l = false) : W'.AllHeard cut := by
  cases World.steps hs with
  | @client l s hown hstep =>
      have hconns := own_conns hown hstep
      intro i L c hL hc
      rw [show (World.mk s (W.links ++ newLinks l)).client.conns = _ from hconns] at hc
      cases l with
      | connect =>
          rw [ownConns] at hc
          rcases Nat.lt_or_ge i W.links.length with hlt | hge
          · rw [List.getElem?_append_left hlt] at hL
            rw [List.getElem?_append_left (hlen ▸ hlt)] at hc
            exact h i L c hL hc
          · rw [List.getElem?_append_right hge] at hL
            rw [List.getElem?_append_right (hlen ▸ hge)] at hc
            have hL := List.mem_singleton.mp (List.mem_of_getElem? hL)
            obtain ⟨host, -, hhost⟩ := Option.map_eq_some_iff.mp (Option.mem_toList.mp (List.mem_of_getElem? hc))
            subst hL hhost
            exact ⟨rfl, by simp [Conn.connect, Pump.init, Link.init], by simp [Conn.connect, Pump.init]⟩
      | main =>
          have hL : W.links[i]? = some L := by simpa [newLinks] using hL
          rw [ownConns] at hc
          split at hc
          · rw [List.getElem?_map, Option.map_eq_some_iff] at hc
            obtain ⟨c, hc, rfl⟩ := hc
            exact (h i L c hL hc).congr rfl rfl
          · exact h i L c hL hc
      | readErr j =>
          have hL : W.links[i]? = some L := by simpa [newLinks] using hL
          obtain ⟨c, hci, rfl⟩ := modify_get hc
          have hc' := h i L c hL hci
          split
          · split
            · exact ⟨hc'.inserted, hc'.gotStart, fun _ => .inr (.inr (hcut.resolve_right (by simp [cuts])))⟩
            · exact hc'
          · exact hc'
      | connectErr | poll | slept | drainTimeout | cancel | db =>
          have hL : W.links[i]? = some L := by simpa [newLinks] using hL
          exact h i L c hL hc
      | _ => cases hown
  | @write l q k m s hwrites hfit hstep =>
      cases hwrites with
      | start hpc hm =>
          simp only [run, hpc] at hstep
          split at hstep <;> cases hstep
          exact h.update (p := .start W.client.round) rfl fun L c _ _ hh => hh.congr rfl rfl
      | stop hpc =>
          simp only [run, hpc] at hstep
          split at hstep <;> cases hstep
          exact h.update (p := id) (List.modify_id _ _).symm fun L c _ _ hh => hh.congr rfl rfl
  | @tear l q k n m s htears hstep =>
      have hgot : ∀ L : Link, (L.tear D.serde m n).got = L.got := fun L => by rw [Link.tear]; split <;> rfl
      cases htears with
      | start hpc =>
          simp only [run, hpc, Option.map_eq_some_iff] at hstep
          obtain ⟨c, -, rfl⟩ := hstep
          exact h.update (p := id) (List.modify_id _ _).symm fun L c _ _ hh => hh.congr (hgot L) rfl
      | stop hpc =>
          simp only [run, hpc] at hstep
          split at hstep <;> cases hstep
          exact h.update (p := id) (List.modify_id _ _).symm fun L c _ _ hh => hh.congr (hgot L) rfl
  | @server i l L L' hL hserve =>
      refine h.update (s := W.client) (p := id) (List.modify_id _ _).symm fun L₁ c hL₁ _ hh => ?_
      obtain rfl := Option.some.inj (hL.symm.trans hL₁)
      exact hh.congr hserve.same.2.2.1 rfl
  | @read i L m rest s hL hread hrecv =>
      obtain ⟨c, hc, hlive, -, rfl⟩ := receive_some hrecv
      refine h.update (p := .read m) (Run.effect_conns _ _) fun L₁ c₁ _ hc₁ hh => ?_
      obtain rfl := Option.some.inj (hc.symm.trans hc₁)
      exact hh.read hlive m rest.length

end Tperf.Control

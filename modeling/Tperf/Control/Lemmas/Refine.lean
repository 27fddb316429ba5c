import Tperf.Control.Lemmas.World
import Tperf.Server.Lemmas.Starts

/-!
# The servers as the client sees them

The model of the client has a server of its own at the far end of each connection. A session does what
such a server may do, as long as none of its replies is lost; after that it only sends.
-/

namespace Tperf.Control
open Lib Proto Client Server

variable {D : Setup} {f : MetricWindow → MetricWindow} {lost : Prop}

/-! ## One connection -/

/-- The far end of `a` is the session of `L`, unless a reply of it has been lost. -/
inductive FarEnd (lost : Prop) (L : Link) (a : Conn) : Prop
  | served (hserved : L.session.Served) (hdue : L.session.Due)
      (hinbox : a.inbox = List.range' (Server.starts L.session.requests + 1)
        (Server.starts L.written - Server.starts L.session.requests))
      (hbusy : a.busy = L.session.busy) (hacked : a.acked = L.session.ackedStarts)
      (hrunning : a.running = L.session.running) : FarEnd lost L a
  | lost (h : lost) : FarEnd lost L a

/-- The client of `c` sees through `L` what it sees through `a`. -/
structure Twin (f : MetricWindow → MetricWindow) (lost : Prop) (L : Link) (c a : Conn) : Prop where
  reader : a.reader = c.reader
  aborted : a.aborted = c.aborted
  outbox : a.outbox = (L.session.sent.map fun x => x.msg.back f).drop L.got.length
  far : FarEnd lost L a

/-- What the server at the far end of `a` does. -/
inductive FarSteps (lost : Prop) (i : Nat) (a : Conn) : List RunLabel → Conn → Prop
  | none : FarSteps lost i a [] a
  | serve {a' : Conn} (h : a.serve = some a') : FarSteps lost i a [.serve i] a'
  | reply {r : Except Str Unit} {a' : Conn} (h : a.reply r = some a') : FarSteps lost i a [.reply i r] a'
  | send {m : Msg} (h : lost ∨ m ≠ startAck) : FarSteps lost i a [.send i m] (a.send m)

theorem modify_const {α : Type} {l : List α} {i : Nat} {a : α} (ha : l[i]? = some a) (g : α → α) :
    l.modify i g = l.modify i fun _ => g a := by
  refine List.ext_getElem? fun j => ?_
  rw [List.getElem?_modify, List.getElem?_modify]
  split
  · rename_i hij; subst hij; rw [ha]; rfl
  · rfl

theorem FarSteps.run {i : Nat} {a a' : Conn} {ks : List RunLabel} (h : FarSteps lost i a ks a') {r : Run}
    (ha : r.conns[i]? = some a) :
    (Client.run D.cfg D.peers).run r ks = some (r.onConn i fun _ => a') := by
  cases h with
  | none =>
      have hsame : r.conns.modify i (fun _ => a) = r.conns := (modify_const ha id).symm.trans (List.modify_id _ _)
      rw [Machine.run_nil, Run.onConn, hsame]
  | serve h => simp [Client.run, ha, h]
  | reply h => simp [Client.run, ha, h]
  | @send m h => simp [Client.run, Run.onConn, modify_const ha (.send m)]

variable {L L' : Link} {c a : Conn}

theorem Twin.live (h : Twin f lost L c a) : a.live = c.live := by rw [Conn.live, Conn.live, h.reader, h.aborted]

theorem FarEnd.congr {a' : Conn} (h : FarEnd lost L a) (hi : a'.inbox = a.inbox) (hb : a'.busy = a.busy)
    (ha : a'.acked = a.acked) (hr : a'.running = a.running) : FarEnd lost L a' := by
  cases h with
  | served hserved hdue hinbox hbusy hacked hrunning =>
      exact .served hserved hdue (hi.trans hinbox) (hb.trans hbusy) (ha.trans hacked) (hr.trans hrunning)
  | lost h => exact .lost h

theorem back_ne_startAck {x : Sent} (hx : ∀ k, x ≠ .reply (.started k)) : x.msg.back f ≠ startAck := by
  cases x with
  | metrics i w => simp [Sent.msg, Msg.back, startAck]
  | reply r =>
      cases r with
      | started k => exact absurd rfl (hx k)
      | failed message => simp [Sent.msg, Reply.msg, Msg.back, startAck]
      | stopped => simp [Sent.msg, Reply.msg, Msg.back, startAck]

theorem starts_mono {l m : List Msg} (h : l <+: m) : Server.starts l ≤ Server.starts m := by
  obtain ⟨r, rfl⟩ := h
  rw [starts_append]
  exact Nat.le_add_right _ _

theorem Twin.session (h : Twin f lost L c a) (i : Nat) {l : SessionLabel} (hi : L.session.Inv)
    (hgot : L.got.length ≤ L.session.sent.length) (hs : Link.Serves D.serde L l L')
    (hpre : L'.session.requests <+: L'.written)
    (hw : lost ∨ L.session.writes D.serde l = true) :
    ∃ ks a', FarSteps lost i a ks a' ∧ Twin f lost L' c a' := by
  obtain ⟨-, hwritten, hgot', -⟩ := hs.same
  -- what is sent is added to what has not been read
  have hsend : ∀ x, L'.session.sent = L.session.sent ++ [x] →
      (L'.session.sent.map fun x => x.msg.back f).drop L'.got.length = a.outbox ++ [x.msg.back f] := by
    intro x hx
    rw [hx, hgot', List.map_append, List.drop_append_of_le_length (by simpa using hgot), h.outbox]
    rfl
  have hquiet : L'.session.sent = L.session.sent →
      a.outbox = (L'.session.sent.map fun x => x.msg.back f).drop L'.got.length := by
    intro hx
    rw [hx, hgot', h.outbox]
  -- a session that has lost a reply only sends
  have hlost : lost → ∃ ks a', FarSteps lost i a ks a' ∧ Twin f lost L' c a' := by
    intro hl
    rcases Session.sent_one hs.step with hx | ⟨x, hx⟩
    · exact ⟨[], a, .none, h.reader, h.aborted, hquiet hx, .lost hl⟩
    · exact ⟨_, _, .send (m := x.msg.back f) (.inl hl), h.reader, h.aborted, (hsend x hx).symm, .lost hl⟩
  cases h.far with
  | lost hl => exact hlost hl
  | served hserved hdue hinbox hbusy hacked hrunning =>
      rcases hw with hl | hw
      · exact hlost hl
      have hserved' := hserved.step hi hw hs.step
      have hdue' := hdue.step hs.step
      have hkeeps : L.session.Keeps L'.session → FarEnd lost L' a := fun hk =>
        .served hserved' hdue' (by rw [hk.starts, hwritten]; exact hinbox) (hbusy.trans hk.busy.symm)
          (hacked.trans hk.acked.symm) (hrunning.trans hk.running.symm)
      cases Session.far hi hserved hdue hw hs.step with
      | quiet hk hsent => exact ⟨[], a, .none, h.reader, h.aborted, hquiet hsent, hkeeps hk⟩
      | send x hk hsent hx =>
          exact ⟨_, _, .send (.inr (back_ne_startAck hx)), h.reader, h.aborted, (hsend x hsent).symm,
            (hkeeps hk).congr rfl rfl rfl rfl⟩
      | serve config assignment hbs hbt hn hrt hat hsent =>
          have hmore : Server.starts L.session.requests + 1 ≤ Server.starts L.written := by
            rw [← hn, ← hwritten]
            exact starts_mono hpre
          have hin : a.inbox = (Server.starts L.session.requests + 1) ::
              List.range' (Server.starts L.session.requests + 1 + 1)
                (Server.starts L.written - (Server.starts L.session.requests + 1)) := by
            rw [hinbox, ← List.range'_succ]
            congr 1
            omega
          have hserve : a.serve = some { a with
              inbox := List.range' (Server.starts L.session.requests + 1 + 1)
                (Server.starts L.written - (Server.starts L.session.requests + 1))
              busy := some (Server.starts L.session.requests + 1)
              running := none } := by simp [Conn.serve, hbusy.trans hbs, hin]
          refine ⟨_, _, .serve hserve, h.reader, h.aborted, hquiet hsent, ?_⟩
          exact .served hserved' hdue' (by rw [hn, hwritten]) hbt.symm (hacked.trans hat.symm) hrt.symm
      | started k n hbs hbt hn hrt hat hsent =>
          have hreply : a.reply (.ok ()) = some { a with
              busy := none
              running := some n
              acked := a.acked ++ [n]
              outbox := a.outbox ++ [startAck] } := by simp [Conn.reply, hbusy.trans hbs]
          refine ⟨_, _, .reply hreply, h.reader, h.aborted, (hsend _ hsent).symm, ?_⟩
          exact .served hserved' hdue' (by rw [hn, hwritten]; exact hinbox) hbt.symm (by rw [hat, hacked]) hrt.symm
      | failed message n hbs hbt hn hrt hat hsent =>
          have hrunning' : a.running = none := by rw [hrunning, Session.running_busy hbs]
          have hreply : a.reply (.error message) = some { a with
              busy := none
              outbox := a.outbox ++ [.error message] } := by simp [Conn.reply, hbusy.trans hbs]
          refine ⟨_, _, .reply hreply, h.reader, h.aborted, (hsend _ hsent).symm, ?_⟩
          exact .served hserved' hdue' (by rw [hn, hwritten]; exact hinbox) hbt.symm (by rw [hat, hacked])
            (hrunning'.trans hrt.symm)

/-! ## The client -/

/-- What a step of the client alone does to its connections. -/
def ownConns (cfg : Config) (l : RunLabel) (pc : Pc) (as : List Conn) : List Conn :=
  match l with
  | .connect => as ++ ((cfg.hostlist[as.length]?).map Conn.connect).toList
  | .main => if pc = .aborting then as.map Conn.abort else as
  | .readErr i => as.modify i fun c => if c.live then c.readErr else c
  | _ => as

variable {cfg : Config} {J : Db.PeersJson} {J' : SerdeJson} {s t : Run} {l : RunLabel}

/-- A step of the client alone does not depend on what the far ends are. -/
theorem own_step (hown : own l = true) {as : List Conn} (hlen : as.length = s.conns.length)
    (hlive : as.any Conn.live = s.conns.any Conn.live) :
    (run cfg J).step { s with conns := as } l = ((run cfg J).step s l).map fun t =>
      { t with conns := ownConns cfg l s.pc as } := by
  obtain ⟨pc, conns, round, startAcks, cancelled, db, passed, late⟩ := s
  have hlen : as.length = conns.length := hlen
  have hlive : as.any Conn.live = conns.any Conn.live := hlive
  cases l with
  | connectErr e | slept | drainTimeout | cancel | readErr i => cases pc <;> rfl
  | connect =>
      cases pc with
      | connecting =>
          simp only [run, hlen]
          cases hh : cfg.hostlist[conns.length]? with
          | none => rfl
          | some host => simp only [Option.map_some, ownConns, hlen, hh, Option.toList_some]
      | _ => rfl
  | db r =>
      cases pc with
      | exited r => rfl
      | _ => simp only [run, Option.map_map]; rfl
  | poll expired =>
      cases pc with
      | waiting =>
          simp only [run, Run.poll, hlen, ownConns, Option.map_some]
          split <;> (try split) <;> (try split) <;> rfl
      | _ => rfl
  | main =>
      cases pc with
      | connecting =>
          simp only [run, Run.main, hlen]
          split
          · rfl
          · cases cfg.testType <;> rfl
      | nextRound =>
          simp only [run, Run.main]
          split
          · rfl
          · split <;> rfl
      | sending k =>
          simp only [run, Run.main, hlen]
          split
          · rfl
          · cases cfg.testType <;> rfl
      | mesh | stopping k =>
          simp only [run, Run.main, hlen]
          split <;> rfl
      | draining =>
          simp only [run, Run.main, hlive]
          split <;> rfl
      | joining => simp only [run, Run.main, Option.map_map]; rfl
      | _ => rfl
  | _ => cases hown

theorem own_conns (hown : own l = true) (hs : (run cfg J).step s l = some t) :
    t.conns = ownConns cfg l s.pc s.conns := by
  have h : (run cfg J).step s l = _ := own_step hown (rfl : s.conns.length = s.conns.length) rfl
  rw [hs, Option.map_some] at h
  exact congrArg Run.conns (Option.some.inj h)

theorem effect_conns (s : Run) (as : List Conn) (m : Msg) :
    ({ s with conns := as } : Run).effect m = { s.effect m with conns := as } := by
  unfold Run.effect
  split
  · rfl
  · split <;> rfl

/-! ## All connections -/

/-- The client of `W` and the client of `r` are in the same place, and their connections are alike. -/
structure Matches (f : MetricWindow → MetricWindow) (lost : Prop) (W : World) (r : Run) : Prop where
  main : r = { W.client with conns := r.conns }
  length : r.conns.length = W.client.conns.length
  twins : ∀ (i : Nat) (L : Link) (c a : Conn), W.links[i]? = some L → W.client.conns[i]? = some c →
    r.conns[i]? = some a → Twin f lost L c a

variable {W W' : World} {r : Run}

theorem init_matches : Matches f lost .init .init where
  main := rfl
  length := rfl
  twins := by simp [World.init]

theorem Matches.any_live (h : Matches f lost W r) (hok : W.Ok D f) :
    r.conns.any Conn.live = W.client.conns.any Conn.live := by
  have hmap : r.conns.map Conn.live = W.client.conns.map Conn.live := by
    apply List.ext_getElem
    · simp [h.length]
    · intro i hi hi'
      rw [List.length_map] at hi hi'
      have ht := h.twins i _ _ _ (List.getElem?_eq_getElem (hok.length ▸ hi')) (List.getElem?_eq_getElem hi')
        (List.getElem?_eq_getElem hi)
      rw [List.getElem_map, List.getElem_map, ht.live]
  have hany : ∀ l : List Conn, l.any Conn.live = (l.map Conn.live).any id := fun l => by simp [List.any_map]
  rw [hany, hany, hmap]

theorem Matches.conn (h : Matches f lost W r) {i : Nat} (hi : i < W.client.conns.length) :
    ∃ c a, W.client.conns[i]? = some c ∧ r.conns[i]? = some a :=
  ⟨_, _, List.getElem?_eq_getElem hi, List.getElem?_eq_getElem (h.length ▸ hi)⟩

/-- One connection changes. -/
theorem Matches.update (h : Matches f lost W r) {k : Nat} {g : Link → Link} {p q : Conn → Conn}
    {t : Run} {as : List Conn} (hs : t.conns = W.client.conns.modify k p) (ha : as = r.conns.modify k q)
    (hk : ∀ L c a, W.links[k]? = some L → W.client.conns[k]? = some c → r.conns[k]? = some a →
      Twin f lost L c a → Twin f lost (g L) (p c) (q a)) :
    Matches f lost ({ W with client := t }.onLink k g) { t with conns := as } where
  main := rfl
  length := by rw [World.onLink, hs, ha, List.length_modify, List.length_modify, h.length]
  twins := by
    intro i L' c' a' hL' hc' ha'
    rw [ha] at ha'
    rw [World.onLink, hs] at hc'
    obtain ⟨L, hL, rfl⟩ := modify_get hL'
    obtain ⟨c, hc, rfl⟩ := modify_get hc'
    obtain ⟨a, ha, rfl⟩ := modify_get ha'
    have ht := h.twins i L c a hL hc ha
    split
    · rename_i hki
      subst hki
      exact hk L c a hL hc ha ht
    · exact ht

/-- Only the bytes of one connection change. -/
theorem Matches.updateLink (h : Matches f lost W r) {k : Nat} {g : Link → Link} {t : Run}
    (hs : t.conns = W.client.conns)
    (hk : ∀ L c a, W.links[k]? = some L → Twin f lost L c a → Twin f lost (g L) c a) :
    Matches f lost ({ W with client := t }.onLink k g) { t with conns := r.conns } :=
  h.update (p := id) (q := id) (hs.trans (List.modify_id _ _).symm) (List.modify_id _ _).symm
    fun L c a hL _ _ ht => hk L c a hL ht

/-- A step that the client of `W` may take, or the far ends of `r`. -/
def Fine (lost : Prop) : RunLabel → Prop
  | .send _ m => lost ∨ m ≠ startAck
  | k => own k = false

theorem FarSteps.fine {i : Nat} {a a' : Conn} {ks : List RunLabel} (h : FarSteps lost i a ks a') :
    ∀ k ∈ ks, Fine lost k := by
  cases h with
  | none => exact nofun
  | serve | reply => exact fun k hk => by cases List.mem_singleton.mp hk; exact rfl
  | send h => exact fun k hk => by cases List.mem_singleton.mp hk; exact h

/-- The write of a reply fails, or that of a window. -/
def World.writes (D : Setup) (W : World) : WorldLabel → Bool
  | .server i l => match W.links[i]? with
      | some L => L.session.writes D.serde l
      | none => true
  | _ => true

theorem Plan.allStarts {i : Nat} {s : Run} {ms stops : List Msg} (h : Plan D s i L ms stops) : AllStarts ms := by
  intro m hm
  obtain ⟨n, hn⟩ := List.mem_iff_getElem?.mp hm
  exact ⟨D.cfg, D.start_eq ((h.starts n (List.getElem?_eq_some_iff.mp hn).1).symm.trans hn)⟩

theorem starts_written {i : Nat} {s : Run} {ms stops : List Msg} (h : Plan D s i L ms stops) :
    Server.starts L.written = ms.length := by
  have hlast : Server.starts stops = 0 := by rcases h.last with hs | hs <;> rw [hs] <;> rfl
  rw [h.written, starts_append, hlast, h.allStarts.starts_eq, Nat.add_zero]

theorem Plan.round_eq {k : Nat} {s : Run} {ms stops : List Msg} (h : Plan D s k L ms stops) (hbegun : s.Begun)
    (hpc : s.pc = .sending k) : s.round = Server.starts L.written + 1 := by
  have hpos := hbegun.started (by rw [hpc]; rfl)
  have hlen := (h.due (by rw [hpc]; rfl)).2
  rw [Run.begun, hpc] at hlen
  simp only [Nat.lt_irrefl, if_false] at hlen
  rw [starts_written h]
  omega

/-! ### The client moves alone -/

theorem ownConns_length {as bs : List Conn} (h : as.length = bs.length) (pc : Pc) :
    (ownConns cfg l pc as).length = (ownConns cfg l pc bs).length := by
  cases l with
  | connect => simp [ownConns, h]
  | main => rw [ownConns, ownConns]; split <;> simp [h]
  | readErr i => simp [ownConns, h]
  | _ => exact h

theorem Twin.init (host : Str) : Twin f lost .init (.connect host) (.connect host) where
  reader := rfl
  aborted := rfl
  outbox := rfl
  far := .served Session.init_served Session.init_due rfl rfl rfl rfl

theorem Twin.abort (h : Twin f lost L c a) : Twin f lost L c.abort a.abort where
  reader := h.reader
  aborted := rfl
  outbox := h.outbox
  far := h.far.congr rfl rfl rfl rfl

theorem Twin.readErr (h : Twin f lost L c a) :
    Twin f lost L (if c.live then c.readErr else c) (if a.live then a.readErr else a) := by
  rw [h.live]
  split
  · exact ⟨congrArg Pump.recvErr h.reader, h.aborted, h.outbox, h.far.congr rfl rfl rfl rfl⟩
  · exact h

theorem Matches.own (h : Matches f lost W r) (hok : W.Ok D f) (hown : own l = true) {i : Nat} {L : Link} {c a : Conn}
    (hL : (W.links ++ newLinks l)[i]? = some L)
    (hc : (ownConns cfg l W.client.pc W.client.conns)[i]? = some c)
    (ha : (ownConns cfg l W.client.pc r.conns)[i]? = some a) : Twin f lost L c a := by
  cases l with
  | connect =>
      rw [ownConns] at hc ha
      rcases Nat.lt_or_ge i W.links.length with hlt | hge
      · rw [List.getElem?_append_left hlt] at hL
        rw [List.getElem?_append_left (hok.length ▸ hlt)] at hc
        rw [List.getElem?_append_left (h.length ▸ hok.length ▸ hlt)] at ha
        exact h.twins i L c a hL hc ha
      · rw [List.getElem?_append_right hge] at hL
        rw [List.getElem?_append_right (hok.length ▸ hge)] at hc
        rw [List.getElem?_append_right (h.length ▸ hok.length ▸ hge), h.length] at ha
        obtain rfl := Option.some.inj (hc.symm.trans ha)
        have hL := List.mem_singleton.mp (List.mem_of_getElem? hL)
        obtain ⟨host, -, hhost⟩ := Option.map_eq_some_iff.mp (Option.mem_toList.mp (List.mem_of_getElem? hc))
        subst hL hhost
        exact .init host
  | main =>
      have hL : W.links[i]? = some L := by simpa [newLinks] using hL
      rw [ownConns] at hc ha
      split at hc
      · rename_i hpc
        rw [if_pos hpc] at ha
        rw [List.getElem?_map, Option.map_eq_some_iff] at hc ha
        obtain ⟨c, hc, rfl⟩ := hc
        obtain ⟨a, ha, rfl⟩ := ha
        exact (h.twins i L c a hL hc ha).abort
      · rename_i hpc
        rw [if_neg hpc] at ha
        exact h.twins i L c a hL hc ha
  | readErr j =>
      have hL : W.links[i]? = some L := by simpa [newLinks] using hL
      obtain ⟨c, hci, rfl⟩ := modify_get hc
      obtain ⟨a, hai, rfl⟩ := modify_get ha
      split
      · exact (h.twins i L c a hL hci hai).readErr
      · exact h.twins i L c a hL hci hai
  | connectErr | poll | slept | drainTimeout | cancel | db =>
      have hL : W.links[i]? = some L := by simpa [newLinks] using hL
      exact h.twins i L c a hL hc ha
  | _ => cases hown

/-! ### A message is written or read -/

theorem Twin.write (h : Twin f lost L c a) {m : Msg} (hm : Server.starts [m] = 0) :
    Twin f lost (L.write J' m) c a where
  reader := h.reader
  aborted := h.aborted
  outbox := h.outbox
  far := by
    have hwritten : Server.starts (L.write J' m).written = Server.starts L.written := by
      rw [Link.write, starts_append, hm, Nat.add_zero]
    cases h.far with
    | served hserved hdue hinbox hbusy hacked hrunning =>
        exact .served hserved hdue (by rw [hwritten]; exact hinbox) hbusy hacked hrunning
    | lost h => exact .lost h

theorem Twin.start (h : Twin f lost L c a) {m : Msg} (hm : Server.starts [m] = 1) {round : Nat}
    (hround : round = Server.starts L.written + 1) (hread : Server.starts L.session.requests ≤ Server.starts L.written) :
    Twin f lost (L.write J' m) (c.start round) (a.start round) where
  reader := h.reader
  aborted := h.aborted
  outbox := h.outbox
  far := by
    have hwritten : Server.starts (L.write J' m).written = Server.starts L.written + 1 := by
      rw [Link.write, starts_append, hm]
    cases h.far with
    | served hserved hdue hinbox hbusy hacked hrunning =>
        refine .served hserved hdue ?_ hbusy hacked hrunning
        have hlen : Server.starts L.written + 1 - Server.starts L.session.requests =
            Server.starts L.written - Server.starts L.session.requests + 1 := by omega
        have hlast : Server.starts L.session.requests + 1 + (Server.starts L.written - Server.starts L.session.requests) = round := by
          omega
        have hsame : (L.write J' m).session = L.session := rfl
        rw [hwritten, hsame, hlen, List.range'_concat, Nat.one_mul, hlast, ← hinbox]
        rfl
    | lost h => exact .lost h

theorem Twin.tear (h : Twin f lost L c a) (m : Msg) (n : Nat) : Twin f lost (L.tear J' m n) c a := by
  rw [Link.tear]
  split
  · refine ⟨h.reader, h.aborted, h.outbox, ?_⟩
    cases h.far with
    | served hserved hdue hinbox hbusy hacked hrunning => exact .served hserved hdue hinbox hbusy hacked hrunning
    | lost h => exact .lost h
  · exact h

theorem Twin.read (h : Twin f lost L c a) (m : Msg) (left : Nat) :
    Twin f lost (L.take m left) (c.read m) (a.read m) where
  reader := congrArg (Pump.recv · m) h.reader
  aborted := h.aborted
  outbox := by
    show a.outbox.tail = _
    rw [h.outbox, List.tail_drop, Link.take, List.length_append, List.length_singleton]
  far := by
    cases h.far with
    | served hserved hdue hinbox hbusy hacked hrunning => exact .served hserved hdue hinbox hbusy hacked hrunning
    | lost h => exact .lost h

theorem run_read {i : Nat} {m : Msg} {ms : List Msg} (hpc : ∀ e, s.pc ≠ .exited e) (ha : s.conns[i]? = some a)
    (hlive : a.live = true) (hm : a.outbox = m :: ms) :
    (run cfg J).step s (.read i) = some ((s.onConn i (.read m)).effect m) := by
  simp only [run]
  split
  · rename_i he; exact absurd he (hpc _)
  · rename_i a' ha' _
    obtain rfl := Option.some.inj (ha.symm.trans ha')
    rw [hlive, hm]
  · rename_i hnone _; rw [ha] at hnone; cases hnone

/-! ### One step -/

theorem Matches.step (h : Matches f lost W r) (hok : W.Ok D f) (hok' : W'.Ok D f) (hne : ∀ m, D.serde.toVec m ≠ [])
    (hback : W.ReadsBack D.serde f) {l : WorldLabel} (hs : (world D).step W l = some W')
    (hw : lost ∨ W.writes D l = true) :
    ∃ ks r', (run D.cfg D.peers).run r ks = some r' ∧ Matches f lost W' r' ∧
      ∀ k ∈ ks, l = .client k ∨ Fine lost k := by
  cases World.steps hs with
  | @client l s hown hstep =>
      have hstep' : (run D.cfg D.peers).step { W.client with conns := r.conns } l = _ :=
        own_step hown h.length (h.any_live hok)
      rw [← h.main, hstep, Option.map_some] at hstep'
      refine ⟨[l], _, by rw [Machine.run_cons, hstep']; rfl, ⟨rfl, ?_, ?_⟩, fun k hk => ?_⟩
      · rw [own_conns hown hstep]
        exact ownConns_length h.length _
      · intro i L c a hL hc ha
        rw [own_conns hown hstep] at hc
        exact h.own hok hown hL hc ha
      · rw [List.mem_singleton.mp hk]
        exact .inl rfl
  | @write l q k m s hwrites hfit hstep =>
      cases hwrites with
      | start hpc hm =>
          obtain ⟨asg, rfl⟩ := D.start_eq hm
          simp only [run, hpc] at hstep
          split at hstep <;> cases hstep
          rename_i hk
          have hr : (run D.cfg D.peers).step r .sendStart =
              some ((r.onConn k (.start W.client.round)).goto (.sending (k + 1))) := by
            rw [h.main]
            simp only [run, hpc]
            rw [if_pos (h.length ▸ hk)]
          refine ⟨[.sendStart], _, by rw [Machine.run_cons, hr]; rfl, ?_, fun k hk => ?_⟩
          · have hm := h.update (g := .write D.serde (.start D.cfg asg)) (p := .start W.client.round)
              (q := .start W.client.round)
              (t := (W.client.onConn k (.start W.client.round)).goto (.sending (k + 1))) rfl rfl
              fun L c a hL _ _ ht => by
                obtain ⟨ms, stops, hplan⟩ := hok.plan k L hL
                have hpre := (hok.links' hL).requests.first
                rw [List.map_id] at hpre
                exact ht.start rfl (hplan.round_eq hok.begun hpc) (starts_mono hpre)
            rw [h.main]
            exact hm
          · rw [List.mem_singleton.mp hk]; exact .inr rfl
      | stop hpc =>
          simp only [run, hpc] at hstep
          split at hstep <;> cases hstep
          rename_i hk
          have hr : (run D.cfg D.peers).step r .sendStop =
              some ({ W.client.goto (.stopping (k + 1)) with conns := r.conns }) := by
            rw [h.main]
            simp only [run, hpc]
            rw [if_pos (h.length ▸ hk)]
            rfl
          refine ⟨[.sendStop], _, by rw [Machine.run_cons, hr]; rfl, ?_, fun k hk => ?_⟩
          · exact h.updateLink rfl fun L c a _ ht => ht.write rfl
          · rw [List.mem_singleton.mp hk]; exact .inr rfl
  | @tear l q k n m s htears hstep =>
      cases htears with
      | @start k e hpc =>
          simp only [run, hpc, Option.map_eq_some_iff] at hstep
          obtain ⟨c, hc, rfl⟩ := hstep
          have hk := (List.getElem?_eq_some_iff.mp hc).1
          obtain ⟨_, a, -, ha⟩ := h.conn hk
          have hname := (h.twins k _ c a (List.getElem?_eq_getElem (hok.length ▸ hk)) hc ha).reader
          have hr : (run D.cfg D.peers).step r (.sendStartErr e) =
              some ({ W.client.goto (.returned (.error ("send start to ".toList ++ c.reader.name ++
                ": ".toList ++ e))) with conns := r.conns }) := by
            rw [← hname, h.main]
            simp only [run, hpc, ha]
            rfl
          refine ⟨[.sendStartErr e], _, by rw [Machine.run_cons, hr]; rfl, ?_, fun k hk => ?_⟩
          · exact h.updateLink rfl fun L c a _ ht => ht.tear m n
          · rw [List.mem_singleton.mp hk]; exact .inr rfl
      | stop hpc =>
          simp only [run, hpc] at hstep
          split at hstep <;> cases hstep
          rename_i hk
          have hr : (run D.cfg D.peers).step r .sendStop =
              some ({ W.client.goto (.stopping (k + 1)) with conns := r.conns }) := by
            rw [h.main]
            simp only [run, hpc]
            rw [if_pos (h.length ▸ hk)]
            rfl
          refine ⟨[.sendStop], _, by rw [Machine.run_cons, hr]; rfl, ?_, fun k hk => ?_⟩
          · exact h.updateLink rfl fun L c a _ ht => ht.tear m n
          · rw [List.mem_singleton.mp hk]; exact .inr rfl
  | @server i l L L' hL hserve =>
      have hi : i < W.client.conns.length := hok.length ▸ (List.getElem?_eq_some_iff.mp hL).1
      obtain ⟨c, a, hc, ha⟩ := h.conn hi
      have hpre := (hok'.links L' (mem_modify hL fun _ => L')).requests.first
      rw [List.map_id] at hpre
      obtain ⟨ks, a', hfar, htwin⟩ := (h.twins i L c a hL hc ha).session i (hok.links' hL).session
        (hok.links' hL).got.length_le hserve hpre (by simpa [World.writes, hL] using hw)
      refine ⟨ks, _, hfar.run ha, ?_, fun k hk => .inr (hfar.fine k hk)⟩
      have hm := h.update (g := fun _ => L') (p := id) (q := fun _ => a') (t := W.client)
        (List.modify_id _ _).symm rfl fun L₁ c₁ a₁ _ hc₁ _ _ => by
          obtain rfl := Option.some.inj (hc.symm.trans hc₁)
          exact htwin
      rw [h.main]
      exact hm
  | @read i L m rest s hL hread hrecv =>
      obtain ⟨c, hc, hlive, hpc, rfl⟩ := receive_some hrecv
      obtain ⟨_, a, -, ha⟩ := h.conn (List.getElem?_eq_some_iff.mp hc).1
      have htwin := h.twins i L c a hL hc ha
      obtain ⟨⟨x, hx, rfl⟩, -⟩ := (hok.links' hL).take hne (hback L (List.mem_of_getElem? hL)) hread
      -- the message is the first one that the far end has sent and the reader has not read
      obtain ⟨ms, hms⟩ : ∃ ms, a.outbox = x.msg.back f :: ms := by
        refine List.head?_eq_some_iff.mp ?_
        rw [htwin.outbox, List.head?_drop, List.getElem?_map, hx]
        rfl
      have hr : (run D.cfg D.peers).step r (.read i) = 
          some ((r.onConn i (.read (x.msg.back f))).effect (x.msg.back f)) :=
        run_read (by rw [h.main]; exact hpc) ha (htwin.live.trans hlive) hms
      refine ⟨[.read i], _, by rw [Machine.run_cons, hr]; rfl, ?_, fun k hk => ?_⟩
      · have hm := h.update (g := .take (x.msg.back f) rest.length) (p := .read (x.msg.back f))
          (q := .read (x.msg.back f)) (t := (W.client.onConn i (.read (x.msg.back f))).effect (x.msg.back f))
          (Run.effect_conns _ _) rfl fun L c a _ _ _ ht => ht.read _ _
        have heq : (r.onConn i (.read (x.msg.back f))).effect (x.msg.back f) =
            { (W.client.onConn i (.read (x.msg.back f))).effect (x.msg.back f) with
              conns := r.conns.modify i (.read (x.msg.back f)) } := by
          rw [h.main]
          exact effect_conns (W.client.onConn i (.read (x.msg.back f))) _ _
        rw [heq]
        exact hm
      · rw [List.mem_singleton.mp hk]; exact .inr rfl

end Tperf.Control

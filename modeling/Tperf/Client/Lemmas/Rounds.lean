import Mathlib.Data.List.Nodup
import Tperf.Client.Lemmas.Run
import Tperf.Lib.Modify

/-!
# The starts of the rounds and their acks
-/

namespace Tperf.Client
open Lib Proto

variable {cfg : Config} {J : Db.PeersJson}

/-- The starts written to a server, but for those it refused. -/
def Conn.rounds (c : Conn) : List Nat := c.acked ++ c.busy.toList ++ c.inbox

/-- The acks of the start of `round` that the reader has counted. -/
def Conn.counted (round : Nat) (c : Conn) : Nat := (c.acked.take c.reader.acks).count round

/-- The ack that the reader counts next answers the start of `round`. -/
def Conn.fresh (round : Nat) (c : Conn) : Bool := c.acked[c.reader.acks]? = some round

structure Conn.Ok (round : Nat) (c : Conn) : Prop where
  sorted : c.rounds.Pairwise (· < ·)
  le : ∀ r ∈ c.rounds, r ≤ round
  running : round ∈ c.acked → c.running = some round
  acks : c.reader.acks ≤ c.acked.length

/-- Every ack counted since `start_acks` was reset answers a start of the current round. -/
structure Run.Sync (s : Run) : Prop where
  conns : ∀ c ∈ s.conns, c.Ok s.round
  unsent : ∀ k, s.pc = .sending k → ∀ (i : Nat) (c : Conn), k ≤ i → s.conns[i]? = some c →
    ∀ r ∈ c.rounds, r < s.round
  startAcks : s.startAcks = (s.conns.map (Conn.counted s.round)).sum

theorem Run.init_sync : Run.init.Sync where
  conns := nofun
  unsent := nofun
  startAcks := rfl

/-! ## One connection -/

variable {c c' : Conn} {round : Nat}

theorem Pump.recv_acks (p : Pump) (m : Msg) : (p.recv m).acks = p.acks + if m = startAck then 1 else 0 := by
  cases m with
  | ack cmd =>
      simp only [Pump.recv, startAck, Msg.ack.injEq]
      split
      · rfl
      · split <;> rfl
  | metrics window => rfl
  | error message => rw [Pump.recv]; split <;> rfl
  | start _ _ => rfl
  | stop => rfl

theorem Conn.Ok.serve (h : c.Ok round) (hs : c.serve = some c') :
    c'.Ok round ∧ c'.rounds = c.rounds ∧ c'.counted round = c.counted round := by
  unfold Conn.serve at hs
  split at hs
  · rename_i r inbox hbusy hinbox
    cases hs
    have hrounds : c.rounds = c.acked ++ r :: inbox := by
      rw [Conn.rounds, hbusy, hinbox, Option.toList_none, List.append_nil]
    have hrounds' : Conn.rounds { c with inbox := inbox, busy := some r, running := none } = c.rounds := by
      rw [hrounds, Conn.rounds]
      exact List.append_assoc _ _ _
    refine ⟨⟨hrounds' ▸ h.sorted, hrounds' ▸ h.le, fun hround => ?_, h.acks⟩, hrounds', rfl⟩
    -- the start it reads would be newer than the current one
    have hsorted := h.sorted
    rw [hrounds] at hsorted
    have hlt := (List.pairwise_append.mp hsorted).2.2 round hround r List.mem_cons_self
    have hle := h.le r (by rw [hrounds]; simp)
    omega
  · cases hs

theorem Conn.Ok.reply (h : c.Ok round) {r : Except Str Unit} (hr : c.reply r = some c') :
    c'.Ok round ∧ (∀ x ∈ c'.rounds, x ∈ c.rounds) ∧ c'.counted round = c.counted round := by
  unfold Conn.reply at hr
  split at hr
  · cases hr
  · rename_i b hbusy
    have hrounds : c.rounds = c.acked ++ b :: c.inbox := by
      rw [Conn.rounds, hbusy, Option.toList_some, List.append_assoc]
      rfl
    have hsorted := h.sorted
    rw [hrounds] at hsorted
    have hlast : round ∈ c.acked → b ≤ round → False := by
      intro hround hle
      have := (List.pairwise_append.mp hsorted).2.2 round hround b List.mem_cons_self
      omega
    have hb : b ≤ round := h.le b (by rw [hrounds]; simp)
    split at hr <;> cases hr
    · refine ⟨⟨?_, ?_, ?_, ?_⟩, ?_, ?_⟩
      · rw [Conn.rounds, Option.toList_none, List.append_nil, List.append_assoc]
        exact hsorted
      · rw [Conn.rounds, Option.toList_none, List.append_nil, List.append_assoc]
        exact fun x hx => h.le x (hrounds ▸ hx)
      · intro hround
        rcases List.mem_append.mp hround with hround | hround
        · exact (hlast hround hb).elim
        · rw [List.mem_singleton.mp hround]
      · exact Nat.le_trans h.acks (by simp)
      · intro x hx
        rw [Conn.rounds, Option.toList_none, List.append_nil, List.append_assoc] at hx
        exact hrounds ▸ hx
      · rw [Conn.counted, Conn.counted, List.take_append_of_le_length h.acks]
    · rename_i message
      have hsub : (c.acked ++ c.inbox).Sublist c.rounds := by
        rw [hrounds]
        exact (List.sublist_cons_self b c.inbox).append_left c.acked
      have hrounds' : Conn.rounds { c with busy := none, outbox := c.outbox ++ [.error message] } =
          c.acked ++ c.inbox := by
        rw [Conn.rounds, Option.toList_none, List.append_nil]
      refine ⟨⟨?_, ?_, fun hround => (hlast hround hb).elim, h.acks⟩, ?_, rfl⟩
      · rw [hrounds']
        exact h.sorted.sublist hsub
      · rw [hrounds']
        exact fun x hx => h.le x (hsub.subset hx)
      · rw [hrounds']
        exact fun x hx => hsub.subset hx

/-- The reader reads a message; an ack answers the start of the round. -/
theorem Conn.Ok.read (h : c.Ok round) {m : Msg} (hm : m = startAck → c.fresh round = true) :
    (c.read m).Ok round ∧ (c.read m).counted round = c.counted round + if m = startAck then 1 else 0 := by
  have hacks := Pump.recv_acks c.reader m
  by_cases hack : m = startAck
  · rw [if_pos hack] at hacks ⊢
    have hfresh : c.acked[c.reader.acks]? = some round := by simpa [Conn.fresh] using hm hack
    have hlt := (List.getElem?_eq_some_iff.mp hfresh).1
    refine ⟨⟨h.sorted, h.le, h.running, ?_⟩, ?_⟩
    · exact Nat.le_trans (Nat.le_of_eq hacks) hlt
    · have htake : c.acked.take (c.reader.acks + 1) = c.acked.take c.reader.acks ++ [round] := by
        rw [List.take_add_one, hfresh]
        rfl
      rw [Conn.counted, Conn.counted]
      show (c.acked.take (c.reader.recv m).acks).count round = _
      rw [hacks, htake, List.count_append, List.count_singleton_self]
  · rw [if_neg hack, Nat.add_zero] at hacks ⊢
    refine ⟨⟨h.sorted, h.le, h.running, ?_⟩, ?_⟩
    · exact Nat.le_trans (Nat.le_of_eq hacks) h.acks
    · rw [Conn.counted, Conn.counted]
      show (c.acked.take (c.reader.recv m).acks).count round = _
      rw [hacks]

theorem Conn.Ok.start (h : c.Ok round) (hlt : ∀ r ∈ c.rounds, r < round) :
    (c.start round).Ok round ∧ (c.start round).counted round = c.counted round := by
  have hrounds : (c.start round).rounds = c.rounds ++ [round] := (List.append_assoc _ _ _).symm
  refine ⟨⟨?_, ?_, h.running, h.acks⟩, rfl⟩
  · rw [hrounds]
    refine List.pairwise_append.mpr ⟨h.sorted, List.pairwise_singleton _ _, fun r hr x hx => ?_⟩
    rw [List.mem_singleton.mp hx]
    exact hlt r hr
  · rw [hrounds]
    intro r hr
    rcases List.mem_append.mp hr with hr | hr
    · exact h.le r hr
    · exact Nat.le_of_eq (List.mem_singleton.mp hr)

theorem Conn.Ok.nextRound (h : c.Ok round) : c.Ok (round + 1) ∧ c.counted (round + 1) = 0 := by
  have hno : round + 1 ∉ c.acked := fun hmem => by
    have := h.le (round + 1) (by simp [Conn.rounds, hmem])
    omega
  refine ⟨⟨h.sorted, fun r hr => Nat.le_succ_of_le (h.le r hr), fun hmem => (hno hmem).elim, h.acks⟩, ?_⟩
  exact List.count_eq_zero.mpr fun hmem => hno (List.mem_of_mem_take hmem)

theorem Conn.connect_ok (host : Str) (round : Nat) :
    (Conn.connect host).Ok round ∧ (Conn.connect host).counted round = 0 where
  left := ⟨List.Pairwise.nil, nofun, nofun, Nat.le_refl 0⟩
  right := rfl

theorem Conn.Ok.counted_le (h : c.Ok round) : c.counted round ≤ 1 := by
  have hnodup : c.acked.Nodup := by
    have := (List.pairwise_append.mp (List.pairwise_append.mp h.sorted).1).1
    exact this.imp Nat.ne_of_lt
  exact List.nodup_iff_count_le_one.mp (hnodup.sublist (List.take_sublist _ _)) round

/-! ## Steps -/

variable {s t : Run}

/-- One connection changes, and `start_acks` by what its reader counts. -/
theorem Run.Sync.update (h : s.Sync) {i d : Nat} {f : Conn → Conn} (hc : s.conns[i]? = some c)
    (hconns : t.conns = s.conns.modify i f) (hround : t.round = s.round)
    (hpc : ∀ k, t.pc = .sending k → s.pc = .sending k) (hok : (f c).Ok s.round)
    (hsub : ∀ r ∈ (f c).rounds, r ∈ c.rounds)
    (hcount : (f c).counted s.round = c.counted s.round + d) (hacks : t.startAcks = s.startAcks + d) :
    t.Sync where
  conns := by
    rw [hconns, hround]
    refine forall_modify h.conns fun a ha => ?_
    rw [Option.some.inj (ha.symm.trans hc)]
    exact hok
  unsent := by
    intro k hk j a hkj ha
    rw [hconns, List.getElem?_modify] at ha
    rw [hround]
    have hunsent := h.unsent k (hpc k hk) j
    by_cases hij : i = j
    · subst hij
      rw [hc] at ha
      simp only [if_true, Option.map_eq_map, Option.map_some, Option.some.injEq] at ha
      subst ha
      exact fun r hr => hunsent c hkj hc r (hsub r hr)
    · simp only [hij, if_false, Option.map_eq_map, Option.map_id_fun', id_eq] at ha
      exact hunsent a hkj ha
  startAcks := by
    rw [hacks, h.startAcks, hconns, hround, sum_map_modify hc hcount]

/-- A step that leaves the starts and the acks alone. -/
theorem Run.Sync.same (h : s.Sync) (hconns : t.conns = s.conns) (hround : t.round = s.round)
    (hacks : t.startAcks = s.startAcks) (hpc : ∀ k, t.pc = .sending k → s.pc = .sending k) : t.Sync where
  conns := by rw [hconns, hround]; exact h.conns
  unsent := by
    intro k hk
    rw [hconns, hround]
    exact h.unsent k (hpc k hk)
  startAcks := by rw [hacks, hconns, hround]; exact h.startAcks

theorem Run.Sync.modify (h : s.Sync) {i : Nat} {f : Conn → Conn}
    (hf : ∀ c, s.conns[i]? = some c → c.Ok s.round → (f c).Ok s.round ∧
      (∀ r ∈ (f c).rounds, r ∈ c.rounds) ∧ (f c).counted s.round = c.counted s.round) :
    (s.onConn i f).Sync := by
  cases hc : s.conns[i]? with
  | none =>
      have hsame : (s.onConn i f).conns = s.conns := by
        rw [Run.onConn]
        exact List.modify_eq_self (List.getElem?_eq_none_iff.mp hc)
      exact h.same hsame rfl rfl fun _ hk => hk
  | some c =>
      obtain ⟨hok, hsub, hcount⟩ := hf c hc (h.conns c (List.mem_of_getElem? hc))
      exact h.update hc (d := 0) rfl rfl (fun _ hk => hk) hok hsub hcount rfl

theorem Moves.not_sending {pc : Pc} (h : Moves s pc) (k : Nat) : pc ≠ .sending k := by
  cases h <;> exact nofun

/-- Servers send no ack on their own, and no reader counts the ack of an older start. -/
def Run.acksFresh (s : Run) : RunLabel → Bool
  | .send _ m => m ≠ startAck
  | .read i => match s.conns[i]? with
      | some c => c.outbox.head? ≠ some startAck || c.fresh s.round
      | none => true
  | _ => true

theorem Run.Sync.step {l : RunLabel} (h : s.Sync) (hg : s.acksFresh l = true)
    (hs : (run cfg J).step s l = some t) : t.Sync := by
  cases steps hs with
  | idle => exact h
  | move hm => exact h.same rfl rfl rfl fun k hk => (hm.not_sending k hk).elim
  | connect hpc =>
      rename_i host
      refine ⟨?_, ?_, ?_⟩
      · intro c hc
        rcases List.mem_append.mp hc with hc | hc
        · exact h.conns c hc
        · rw [List.mem_singleton.mp hc]
          exact (Conn.connect_ok host s.round).1
      · intro k hk
        have hk : s.pc = .sending k := hk
        rw [hpc] at hk
        cases hk
      · show s.startAcks = _
        rw [List.map_append, List.sum_append, ← h.startAcks]
        rfl
  | begin hpc =>
      refine ⟨fun c hc => (h.conns c hc).nextRound.1, ?_, ?_⟩
      · intro k _ i c _ hc r hr
        exact Nat.lt_succ_of_le ((h.conns c (List.mem_of_getElem? hc)).le r hr)
      · refine (List.sum_eq_zero fun x hx => ?_).symm
        obtain ⟨c, hc, rfl⟩ := List.mem_map.mp hx
        exact (h.conns c hc).nextRound.2
  | start hpc hk =>
      rename_i k
      obtain ⟨c, hc⟩ : ∃ c, s.conns[k]? = some c := ⟨_, List.getElem?_eq_getElem hk⟩
      have hlt := h.unsent k hpc k c (Nat.le_refl k) hc
      refine ⟨?_, ?_, ?_⟩
      · refine forall_modify h.conns fun a ha => ?_
        rw [Option.some.inj (ha.symm.trans hc)]
        exact ((h.conns c (List.mem_of_getElem? hc)).start hlt).1
      · intro k' hk' j a hkj ha
        cases hk'
        have hne : ¬ k = j := by omega
        simp only [Run.goto, Run.onConn, List.getElem?_modify, hne, if_false, Option.map_eq_map,
          Option.map_id_fun', id_eq] at ha
        exact h.unsent k hpc j a (by omega) ha
      · have hcount := ((h.conns c (List.mem_of_getElem? hc)).start hlt).2
        show s.startAcks = ((s.conns.modify k (.start s.round)).map (Conn.counted s.round)).sum
        rw [sum_map_modify hc (d := 0) hcount, Nat.add_zero, h.startAcks]
  | abort hpc =>
      refine ⟨?_, nofun, ?_⟩
      · intro c hc
        obtain ⟨a, ha, rfl⟩ := List.mem_map.mp hc
        exact ⟨(h.conns a ha).sorted, (h.conns a ha).le, (h.conns a ha).running, (h.conns a ha).acks⟩
      · show s.startAcks = ((s.conns.map Conn.abort).map (Conn.counted s.round)).sum
        rw [List.map_map, h.startAcks]
        rfl
  | shutdown hpc => exact h.same rfl rfl rfl nofun
  | cancel => exact h.same rfl rfl rfl fun _ hk => hk
  | serve hc hserve =>
      refine h.modify fun a ha hok => ?_
      obtain rfl := Option.some.inj (hc.symm.trans ha)
      obtain ⟨hok', hrounds, hcount⟩ := hok.serve hserve
      exact ⟨hok', fun r hr => hrounds ▸ hr, hcount⟩
  | reply hc hreply =>
      refine h.modify fun a ha hok => ?_
      obtain rfl := Option.some.inj (hc.symm.trans ha)
      exact hok.reply hreply
  | send =>
      exact h.modify fun a _ hok => ⟨⟨hok.sorted, hok.le, hok.running, hok.acks⟩, fun _ hr => hr, rfl⟩
  | read hpc hc hlive hm =>
      rename_i i c m ms
      have hfresh : m = startAck → c.fresh s.round = true := by
        rintro rfl
        simpa [Run.acksFresh, hc, hm] using hg
      obtain ⟨hok, hcount⟩ := (h.conns c (List.mem_of_getElem? hc)).read hfresh
      refine h.update hc (f := .read m) ?_ ?_ ?_ hok (fun _ hr => hr) hcount ?_
      · rw [Run.effect_conns]; rfl
      · rw [Run.effect_round]; rfl
      · intro k hk
        rw [Run.effect_pc] at hk
        exact hk
      · rw [Run.effect_startAcks]; rfl
  | readErr =>
      refine h.modify fun a _ hok => ?_
      split
      · exact ⟨⟨hok.sorted, hok.le, hok.running, hok.acks⟩, fun _ hr => hr, rfl⟩
      · exact ⟨hok, fun _ hr => hr, rfl⟩
  | db hpc hdb => exact h.same rfl rfl rfl fun _ hk => hk

end Tperf.Client

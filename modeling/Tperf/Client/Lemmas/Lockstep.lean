import Tperf.Client.Lemmas.Begun
import Tperf.Client.Theorems.Barrier

/-!
# Rounds whose deadlines do not pass

As long as `wait_round` gets all its acks, nothing of a round is left when the next one begins.
-/

namespace Tperf.Client
open Lib Proto

/-! ## One connection -/

/-- The acks that the reader has not counted are all in the outbox, and answer the start of `round`. -/
structure Conn.Lockstep (round : Nat) (c : Conn) : Prop where
  pos : ∀ r ∈ c.rounds, 0 < r
  outbox : c.outbox.count startAck + c.reader.acks = c.acked.length
  uncounted : ∀ r ∈ c.acked.drop c.reader.acks, r = round
  all : c.acked = List.range' 1 c.acked.length
  next : round ≤ c.acked.length + 1

/-- Every start is acknowledged, and the reader has counted the acks. -/
structure Conn.Idle (round : Nat) (c : Conn) : Prop where
  inbox : c.inbox = []
  busy : c.busy = none
  counted : c.reader.acks = c.acked.length
  acked : c.acked.length = round

variable {c c' : Conn} {round : Nat}

theorem Conn.connect_lockstep (host : Str) : (Conn.connect host).Lockstep 0 where
  pos := by simp [Conn.rounds, Conn.connect]
  outbox := rfl
  uncounted := by simp [Conn.connect]
  all := rfl
  next := Nat.zero_le _

theorem Conn.connect_idle (host : Str) : (Conn.connect host).Idle 0 := ⟨rfl, rfl, rfl, rfl⟩

theorem Conn.Lockstep.congr (h : c.Lockstep round) (hrounds : c'.rounds = c.rounds) (hacked : c'.acked = c.acked)
    (houtbox : c'.outbox.count startAck = c.outbox.count startAck) (hacks : c'.reader.acks = c.reader.acks) :
    c'.Lockstep round where
  pos := by rw [hrounds]; exact h.pos
  outbox := by rw [houtbox, hacks, hacked]; exact h.outbox
  uncounted := by rw [hacked, hacks]; exact h.uncounted
  all := by rw [hacked]; exact h.all
  next := by rw [hacked]; exact h.next

theorem Conn.Lockstep.mem_acked (h : c.Lockstep round) (r : Nat) : r ∈ c.acked ↔ 0 < r ∧ r ≤ c.acked.length := by
  have hmem : r ∈ List.range' 1 c.acked.length ↔ 1 ≤ r ∧ r < 1 + c.acked.length := List.mem_range'_1
  rw [← h.all] at hmem
  rw [hmem]
  omega

theorem Conn.Idle.nextRound (h : c.Idle round) (hl : c.Lockstep round) : c.Lockstep (round + 1) where
  pos := hl.pos
  outbox := hl.outbox
  uncounted := by simp [h.counted]
  all := hl.all
  next := by rw [h.acked]

theorem Conn.Lockstep.start (h : c.Lockstep round) (hpos : 0 < round) : (c.start round).Lockstep round where
  pos := by
    rw [show (c.start round).rounds = c.rounds ++ [round] from (List.append_assoc _ _ _).symm]
    intro r hr
    rcases List.mem_append.mp hr with hr | hr
    · exact h.pos r hr
    · rw [List.mem_singleton.mp hr]
      exact hpos
  outbox := h.outbox
  uncounted := h.uncounted
  all := h.all
  next := h.next

theorem Conn.Lockstep.serve (h : c.Lockstep round) (hok : c.Ok round) (hs : c.serve = some c') :
    c'.Lockstep round ∧ ¬ c.Idle round := by
  obtain ⟨-, hrounds, -⟩ := hok.serve hs
  unfold Conn.serve at hs
  split at hs
  · rename_i r inbox hbusy hinbox
    cases hs
    refine ⟨h.congr hrounds rfl rfl rfl, fun hidle => ?_⟩
    rw [hidle.inbox] at hinbox
    cases hinbox
  · cases hs

/-- The start that is read and not answered is that of the round. -/
theorem Conn.Lockstep.busy (h : c.Lockstep round) (hok : c.Ok round) {b : Nat} (hb : c.busy = some b) :
    b = c.acked.length + 1 ∧ b = round := by
  have hrounds : c.rounds = c.acked ++ b :: c.inbox := by
    rw [Conn.rounds, hb, Option.toList_some, List.append_assoc]
    rfl
  have hle : b ≤ round := hok.le b (by rw [hrounds]; simp)
  have hpos : 0 < b := h.pos b (by rw [hrounds]; simp)
  have hlt : c.acked.length < b := by
    rcases Nat.eq_zero_or_pos c.acked.length with hzero | hlen
    · omega
    · have hsorted := hok.sorted
      rw [hrounds] at hsorted
      have hlast := (h.mem_acked c.acked.length).mpr ⟨hlen, Nat.le_refl _⟩
      exact (List.pairwise_append.mp hsorted).2.2 _ hlast b List.mem_cons_self
  have := h.next
  omega

theorem Conn.Lockstep.reply (h : c.Lockstep round) (hok : c.Ok round) {r : Except Str Unit}
    (hr : c.reply r = some c') : c'.Lockstep round ∧ ¬ c.Idle round := by
  obtain ⟨-, hsub, -⟩ := hok.reply hr
  have hpos : ∀ x ∈ c'.rounds, 0 < x := fun x hx => h.pos x (hsub x hx)
  have hacks := h.outbox
  unfold Conn.reply at hr
  split at hr
  · cases hr
  · rename_i b hb
    obtain ⟨hnext, rfl⟩ := h.busy hok hb
    refine ⟨?_, fun hidle => by rw [hidle.busy] at hb; cases hb⟩
    split at hr <;> cases hr
    · refine ⟨hpos, ?_, ?_, ?_, ?_⟩
      · show (c.outbox ++ [startAck]).count startAck + c.reader.acks = (c.acked ++ [b]).length
        rw [List.count_append, List.count_singleton_self, List.length_append, List.length_singleton]
        omega
      · show ∀ r ∈ (c.acked ++ [b]).drop c.reader.acks, r = b
        rw [List.drop_append_of_le_length (by omega)]
        intro r hr
        rcases List.mem_append.mp hr with hr | hr
        · exact h.uncounted r hr
        · exact List.mem_singleton.mp hr
      · show c.acked ++ [b] = List.range' 1 (c.acked ++ [b]).length
        rw [List.length_append, List.length_singleton, List.range'_concat, ← h.all, hnext, Nat.one_mul, Nat.add_comm]
      · rw [List.length_append, List.length_singleton]
        omega
    · refine ⟨hpos, ?_, h.uncounted, h.all, h.next⟩
      simpa [List.count_append, startAck] using hacks

theorem Conn.Lockstep.send (h : c.Lockstep round) {m : Msg} (hm : m ≠ startAck) : (c.send m).Lockstep round :=
  h.congr rfl rfl (by simp [Conn.send, List.count_append, hm]) rfl

/-- The ack that the reader reads next answers the start of the round. -/
theorem Conn.Lockstep.fresh (h : c.Lockstep round) {ms : List Msg} (hm : c.outbox = startAck :: ms) :
    c.fresh round = true := by
  have hcount := h.outbox
  rw [hm, List.count_cons_self] at hcount
  have hlt : c.reader.acks < c.acked.length := by omega
  have hget : c.acked[c.reader.acks] ∈ c.acked.drop c.reader.acks := by
    rw [List.drop_eq_getElem_cons hlt]
    exact List.mem_cons_self
  simp [Conn.fresh, List.getElem?_eq_getElem hlt, h.uncounted _ hget]

theorem Conn.Lockstep.read (h : c.Lockstep round) {m : Msg} {ms : List Msg} (hm : c.outbox = m :: ms) :
    (c.read m).Lockstep round ∧ (c.Idle round → (c.read m).Idle round) := by
  have hacks := Pump.recv_acks c.reader m
  have hcount := h.outbox
  have houtbox : (c.read m).outbox = ms := by rw [Conn.read, hm]; rfl
  rw [hm, List.count_cons] at hcount
  by_cases hack : m = startAck
  · rw [if_pos hack] at hacks
    rw [if_pos (by simp [hack])] at hcount
    refine ⟨⟨h.pos, ?_, ?_, h.all, h.next⟩, fun hidle => ?_⟩
    · rw [houtbox]
      show ms.count startAck + (c.reader.recv m).acks = c.acked.length
      omega
    · show ∀ r ∈ c.acked.drop (c.reader.recv m).acks, r = round
      intro r hr
      rw [hacks, ← List.drop_drop] at hr
      exact h.uncounted r (List.mem_of_mem_drop hr)
    · have := hidle.counted
      omega
  · rw [if_neg hack] at hacks
    rw [if_neg (by simp [hack])] at hcount
    refine ⟨h.congr rfl rfl ?_ hacks, fun hidle => ⟨hidle.inbox, hidle.busy, hacks.trans hidle.counted, hidle.acked⟩⟩
    rw [houtbox, hm, List.count_cons, if_neg (by simp [hack])]
    rfl

/-- The ack of the round is counted. -/
theorem Conn.Lockstep.idle (h : c.Lockstep round) (hok : c.Ok round) (hcounted : 0 < c.counted round) :
    c.Idle round := by
  have hmem : round ∈ c.acked.take c.reader.acks := List.count_pos_iff.mp hcounted
  have hround : round ∈ c.acked := List.mem_of_mem_take hmem
  have hsorted := List.pairwise_append.mp hok.sorted
  have hle : ∀ r ∈ c.acked, r ≤ round := fun r hr => hok.le r (by simp [Conn.rounds, hr])
  have hlen : c.acked.length = round := by
    obtain ⟨hpos, hle'⟩ := (h.mem_acked round).mp hround
    have := hle c.acked.length ((h.mem_acked _).mpr ⟨Nat.lt_of_lt_of_le hpos hle', Nat.le_refl _⟩)
    omega
  refine ⟨?_, ?_, ?_, hlen⟩
  · refine List.eq_nil_iff_forall_not_mem.mpr fun r hr => ?_
    have hlt := hsorted.2.2 round (List.mem_append_left _ hround) r hr
    have := hok.le r (by simp [Conn.rounds, hr])
    omega
  · cases hb : c.busy with
    | none => rfl
    | some b =>
        have := h.busy hok hb
        omega
  · -- the ack of the round is the last one
    obtain ⟨i, hi⟩ := List.mem_iff_getElem?.mp hmem
    rw [List.getElem?_take] at hi
    split at hi
    · rename_i hlt
      obtain ⟨hlen', hget⟩ := List.getElem?_eq_some_iff.mp (h.all ▸ hi)
      rw [List.getElem_range'] at hget
      have := hok.acks
      omega
    · cases hi

/-! ## All connections -/

/-- Nothing of a round is left: the first one has not begun, or the last one has got its acks. -/
def Run.between (s : Run) : Bool :=
  match s.pc with
  | .connecting | .traffic => true
  | .nextRound => !s.cancelled
  | _ => false

structure Run.Lockstep (s : Run) : Prop where
  begun : s.Begun
  sync : s.Sync
  conns : ∀ c ∈ s.conns, c.Lockstep s.round
  idle : s.between = true → ∀ c ∈ s.conns, c.Idle s.round

/-- The deadline has not passed, and servers send no ack on their own. -/
def Run.prompt : RunLabel → Bool
  | .poll expired => !expired
  | .send _ m => m ≠ startAck
  | _ => true

variable {cfg : Config} {J : Db.PeersJson} {s t : Run} {l : RunLabel}

theorem Run.init_lockstep : Run.init.Lockstep := ⟨Run.init_begun, Run.init_sync, by simp [Run.init], by simp [Run.init]⟩

theorem Run.Lockstep.acksFresh (h : s.Lockstep) (hl : Run.prompt l = true) : s.acksFresh l = true := by
  cases l with
  | send i m => exact hl
  | read i =>
      rw [Run.acksFresh]
      split
      · rename_i c hc
        cases hout : c.outbox with
        | nil => simp
        | cons m ms =>
            by_cases hm : m = startAck
            · subst hm
              simp [(h.conns c (List.mem_of_getElem? hc)).fresh hout]
            · simp [hm]
      · rfl
  | _ => rfl

theorem waiting_step (hs : (run cfg J).step s l = some t) (hpc : s.pc = .waiting) :
    t.pc = .waiting ∨ ∃ expired, l = .poll expired ∧ t = s.poll expired := by
  cases l with
  | poll expired =>
      simp only [run, hpc, Option.some.injEq] at hs
      exact .inr ⟨expired, rfl, hs.symm⟩
  | cancel | serve _ | reply _ _ | send _ _ | read _ | readErr _ | db _ =>
      exact .inl ((elsewhere_pc rfl hs).trans hpc)
  | _ => simp [run, Run.main, hpc] at hs

/-- The deadline has not passed, so `wait_round` ends with all acks or because of the cancellation. -/
theorem poll_prompt (s : Run) : (s.poll false).between = true → s.between = true ∨ s.conns.length ≤ s.startAcks := by
  unfold Run.poll
  split
  · split
    · rename_i hcancelled
      simp [Run.between, Run.goto, hcancelled]
    · exact .inl
  · exact fun _ => .inr (by omega)

theorem Run.Lockstep.allIdle (h : s.Lockstep) (hacks : s.conns.length ≤ s.startAcks) :
    ∀ c ∈ s.conns, c.Idle s.round := by
  have hle : ∀ x ∈ s.conns.map (Conn.counted s.round), x ≤ 1 := by
    intro x hx
    obtain ⟨a, ha, rfl⟩ := List.mem_map.mp hx
    exact (h.sync.conns a ha).counted_le
  intro c hc
  have hone := all_one hle (by rw [List.length_map, ← h.sync.startAcks]; exact hacks) _ (List.mem_map_of_mem hc)
  exact (h.conns c hc).idle (h.sync.conns c hc) (by rw [hone]; exact Nat.one_pos)

theorem Run.Lockstep.modify (h : s.Lockstep) (hbegun : t.Begun) (hsync : t.Sync) {i : Nat} {f : Conn → Conn}
    (hconns : t.conns = s.conns.modify i f) (hround : t.round = s.round)
    (hbetween : t.between = true → s.between = true)
    (hf : ∀ c, s.conns[i]? = some c → c.Ok s.round → c.Lockstep s.round →
      (f c).Lockstep s.round ∧ (c.Idle s.round → (f c).Idle s.round)) : t.Lockstep where
  begun := hbegun
  sync := hsync
  conns := by
    rw [hconns, hround]
    refine forall_modify h.conns fun c hc => ?_
    have hmem := List.mem_of_getElem? hc
    exact (hf c hc (h.sync.conns c hmem) (h.conns c hmem)).1
  idle hb := by
    rw [hconns, hround]
    refine forall_modify (h.idle (hbetween hb)) fun c hc => ?_
    have hmem := List.mem_of_getElem? hc
    exact (hf c hc (h.sync.conns c hmem) (h.conns c hmem)).2 (h.idle (hbetween hb) c hmem)

theorem Moves.between {pc : Pc} (h : Moves s pc) (hwait : s.pc ≠ .waiting) (hb : (s.goto pc).between = true) :
    s.between = true := by
  cases h with
  | connected hpc => rw [Run.between, hpc]
  | next hpc => rw [Run.between, hpc.resolve_left hwait]
  | traffic hpc => exact absurd hpc hwait
  | _ => cases hb

theorem effect_between (s : Run) (m : Msg) : (s.effect m).between = s.between := by
  unfold Run.effect
  split
  · rfl
  · split <;> rfl

theorem Run.Lockstep.step (h : s.Lockstep) (hl : Run.prompt l = true) (hs : (run cfg J).step s l = some t) :
    t.Lockstep := by
  have hbegun := h.begun.step hs
  have hsync := h.sync.step (h.acksFresh hl) hs
  cases steps hs with
  | idle => exact h
  | @move l pc hm =>
      refine ⟨hbegun, hsync, h.conns, fun hb => ?_⟩
      by_cases hwait : s.pc = .waiting
      · rcases waiting_step hs hwait with hpc | ⟨expired, rfl, ht⟩
        · rw [Run.between, hpc] at hb
          cases hb
        · obtain rfl : expired = false := by simpa [Run.prompt] using hl
          rw [ht] at hb
          exact (poll_prompt s hb).elim h.idle h.allIdle
      · exact h.idle (hm.between hwait hb)
  | @connect host hpc =>
      have hround := h.begun.connecting hpc
      refine ⟨hbegun, hsync, fun c hc => ?_, fun _ c hc => ?_⟩
      · rcases List.mem_append.mp hc with hc | hc
        · exact h.conns c hc
        · rw [List.mem_singleton.mp hc, show ({ s with conns := _ } : Run).round = 0 from hround]
          exact Conn.connect_lockstep host
      · rcases List.mem_append.mp hc with hc | hc
        · exact h.idle (by rw [Run.between, hpc]) c hc
        · rw [List.mem_singleton.mp hc, show ({ s with conns := _ } : Run).round = 0 from hround]
          exact Conn.connect_idle host
  | begin hpc =>
      have hb : s.between = true := by
        rcases hpc with hpc | hpc
        · rw [Run.between, hpc]
        · simp only [run, Run.main, hpc] at hs
          cases hcancelled : s.cancelled with
          | false => simp [Run.between, hpc, hcancelled]
          | true =>
              rw [hcancelled, if_pos rfl, Option.some.injEq] at hs
              exact absurd (congrArg Run.pc hs) (by simp [Run.goto, Run.beginRound])
      exact ⟨hbegun, hsync, fun c hc => (h.idle hb c hc).nextRound (h.conns c hc), fun hno => by cases hno⟩
  | @start k hpc hk =>
      refine ⟨hbegun, hsync, forall_modify h.conns fun c hc => ?_, fun hno => by cases hno⟩
      exact (h.conns c (List.mem_of_getElem? hc)).start (h.begun.started (by rw [hpc]; rfl))
  | abort hpc =>
      refine ⟨hbegun, hsync, fun c hc => ?_, fun hno => by cases hno⟩
      obtain ⟨a, ha, rfl⟩ := List.mem_map.mp hc
      exact (h.conns a ha).congr rfl rfl rfl rfl
  | shutdown hpc => exact ⟨hbegun, hsync, h.conns, fun hno => by cases hno⟩
  | cancel =>
      refine ⟨hbegun, hsync, h.conns, fun hb => h.idle ?_⟩
      cases hpc : s.pc <;> simp_all [Run.between]
  | @serve i c c' hc hserve =>
      refine h.modify hbegun hsync (f := fun _ => c') rfl rfl id fun a ha hok hl => ?_
      obtain rfl := Option.some.inj (hc.symm.trans ha)
      obtain ⟨hl', hno⟩ := hl.serve hok hserve
      exact ⟨hl', fun hidle => absurd hidle hno⟩
  | @reply i r c c' hc hreply =>
      refine h.modify hbegun hsync (f := fun _ => c') rfl rfl id fun a ha hok hl => ?_
      obtain rfl := Option.some.inj (hc.symm.trans ha)
      obtain ⟨hl', hno⟩ := hl.reply hok hreply
      exact ⟨hl', fun hidle => absurd hidle hno⟩
  | @send i m =>
      exact h.modify hbegun hsync (f := .send m) rfl rfl id fun c _ _ hc =>
        ⟨hc.send (by simpa [Run.prompt] using hl), fun hidle => ⟨hidle.inbox, hidle.busy, hidle.counted, hidle.acked⟩⟩
  | @read i c m ms hpc hc hlive hm =>
      refine h.modify hbegun hsync (f := .read m) (by rw [Run.effect_conns]; rfl) (Run.effect_round _ _)
        (fun hb => (effect_between (s.onConn i (.read m)) m).symm.trans hb) fun a ha _ hl => ?_
      obtain rfl := Option.some.inj (hc.symm.trans ha)
      exact hl.read hm
  | @readErr i =>
      refine h.modify hbegun hsync (f := fun c => if c.live then c.readErr else c) rfl rfl id fun c _ _ hl => ?_
      split
      · exact ⟨hl.congr rfl rfl rfl rfl, fun hidle => ⟨hidle.inbox, hidle.busy, hidle.counted, hidle.acked⟩⟩
      · exact ⟨hl, id⟩
  | db hpc hdb => exact ⟨hbegun, hsync, h.conns, h.idle⟩

end Tperf.Client

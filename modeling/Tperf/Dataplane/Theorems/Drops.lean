import Tperf.Dataplane.Lemmas.Link

/-!
# What the drop count of a receiver says
-/

namespace Tperf.Dataplane
open Lib Lib.HighWater

variable {c : Pairing}

/-! ## Numbers in order -/

/-- The numbers received or in flight. -/
def Link.wired (s : Link) : List Nat := (s.arrived ++ s.queue).map fun d => seqOf d.2

/-- `N` numbers have been taken, and each of them is on the network or held by a task. -/
structure Link.Taken (c : Pairing) (s : Link) (N : Nat) : Prop where
  counter : s.a.test.seqs[c.b.toNat]? = some (UInt64.ofNat N)
  found : ∀ x < min N (2 ^ 64), x ∈ s.wired ∨ ∃ i y, s.a.held i = some y ∧ y.toNat = x
  held : ∀ i y, s.a.held i = some y → y.toNat < min N (2 ^ 64)
  gapless : Gapless s.wired

theorem Pairing.init_taken (c : Pairing) : c.init.Taken c 0 where
  counter := by simp [Pairing.init, Pairing.sender, spawnUdp, c.b_lt]
  found x hx := by omega
  held i y h := by
    obtain ⟨w, hw, hy⟩ := Option.bind_eq_some_iff.mp h
    obtain ⟨_, rfl⟩ := List.mem_replicate.mp (List.mem_of_getElem? hw)
    cases hy
  gapless := Gapless.nil

theorem inOrder_send {s : Link} {i j : Nat} {x y : UInt64}
    (h : inOrder s (.a (.worker i .sendOk)) = true) (hi : s.a.held i = some x)
    (hj : s.a.held j = some y) : x.toNat ≤ y.toNat := by
  obtain ⟨w, hw, hy⟩ := Option.bind_eq_some_iff.mp hj
  simp only [inOrder, hi, Option.all_some, Bool.and_eq_true, List.all_eq_true] at h
  have := h.2 w (List.mem_of_getElem? hw)
  rw [hy, Option.all_some, decide_eq_true_eq] at this
  exact this

theorem ofNat_toNat_lt_min (N : Nat) : (UInt64.ofNat N).toNat < min (N + 1) (2 ^ 64) := by
  rw [UInt64.toNat_ofNat']
  have := Nat.mod_le N (2 ^ 64)
  omega

theorem Link.Taken.step {s s' : Link} {l : LinkLabel} {N : Nat} (h : s.Taken c N) (hi : s.Inv c)
    (hg : inOrder s l = true) (hs : (link c).step s l = some s') : ∃ N', s'.Taken c N' := by
  cases l with
  | a l =>
      simp only [link, Option.map_eq_some_iff] at hs
      obtain ⟨a', ha, rfl⟩ := hs
      cases hi.sender.effect ha with
      | quiet hf hseqs hh =>
          refine ⟨N, ?_, ?_, ?_, ?_⟩
          · rw [hseqs]; exact h.counter
          · simpa only [wired, hf, hh, List.map_nil, List.append_nil] using h.found
          · simpa only [hh] using h.held
          · simpa only [wired, hf, List.map_nil, List.append_nil] using h.gapless
      | lost he hx hf => rcases he with rfl | rfl <;> simp [inOrder, lossless, hx] at hg
      | @take i seq hseq hseqs hx hf hh =>
          obtain rfl : UInt64.ofNat N = seq := Option.some.inj (h.counter.symm.trans hseq)
          refine ⟨N + 1, ?_, ?_, ?_, ?_⟩
          · rw [hseqs, UInt64.ofNat_add]; rfl
          · intro x hlt
            simp only [wired, hf, List.map_nil, List.append_nil, hh]
            by_cases hN : x < min N (2 ^ 64)
            · rcases h.found x hN with hw | ⟨j, y, hj, rfl⟩
              · exact .inl hw
              · have hne : j ≠ i := by rintro rfl; rw [hx] at hj; cases hj
                exact .inr ⟨j, y, by rw [if_neg hne]; exact hj, rfl⟩
            · refine .inr ⟨i, UInt64.ofNat N, if_pos rfl, ?_⟩
              rw [UInt64.toNat_ofNat']
              omega
          · intro j y hj
            rw [hh] at hj
            split at hj
            · cases hj
              exact ofNat_toNat_lt_min N
            · have := h.held j y hj
              omega
          · simpa only [wired, hf, List.map_nil, List.append_nil] using h.gapless
      | @send i seq data hx hd hf hseqs hh =>
          have hw : Link.wired { s with
              a := a'
              queue := s.queue ++ (s.a.fresh a').map fun d => (s.secondA, d.bytes) } =
              s.wired ++ [seq.toNat] := by
            simp [wired, hf, seqOf_packet]
          refine ⟨N, ?_, ?_, ?_, ?_⟩
          · rw [hseqs]; exact h.counter
          · intro x hlt
            rw [hw]
            simp only [hh]
            rcases h.found x hlt with hm | ⟨j, y, hj, rfl⟩
            · exact .inl (List.mem_append_left _ hm)
            · by_cases hji : j = i
              · obtain rfl : seq = y := Option.some.inj (hx.symm.trans (hji ▸ hj))
                exact .inl (List.mem_append_right _ (List.mem_singleton.mpr rfl))
              · exact .inr ⟨j, y, by rw [if_neg hji]; exact hj, rfl⟩
          · intro j y hj
            rw [hh] at hj
            split at hj
            · cases hj
            · exact h.held j y hj
          · rw [hw]
            refine h.gapless.concat fun hne => ?_
            obtain ⟨p, hp⟩ := List.exists_mem_of_ne_nil _ hne
            -- the number before this one was taken earlier, so it is on the network already
            rcases Nat.eq_zero_or_pos seq.toNat with h₀ | hpos
            · exact ⟨p, hp, by omega⟩
            · have hlt := h.held i seq hx
              rcases h.found (seq.toNat - 1) (by omega) with hm | ⟨j, y, hj, hy⟩
              · exact ⟨_, hm, by omega⟩
              · have := inOrder_send hg hx hj
                omega
  | deliver =>
      simp only [link] at hs
      cases hq : s.queue with
      | nil => simp [hq] at hs
      | cons d q =>
          simp only [hq, Option.some.injEq] at hs
          subst hs
          have hw : Link.wired { s with b := s.b.recv d.2, queue := q, arrived := s.arrived ++ [d] } =
              s.wired := by
            simp [wired, hq]
          exact ⟨N, h.counter, by rw [hw]; exact h.found, h.held, by rw [hw]; exact h.gapless⟩
  | lose => simp [inOrder, lossless] at hg
  | restartA => simp [inOrder, lossless] at hg
  | restartB => simp [inOrder, lossless] at hg

theorem Pairing.run_taken {s : Link} {ls : List LinkLabel}
    (h : ((link c).guard fun s l => inOrder s l = true).run c.init ls = some s) :
    ∃ N, s.Taken c N :=
  (Machine.guard_invariant (I := fun s => s.Inv c ∧ ∃ N, s.Taken c N)
    (fun ⟨hi, _, hN⟩ hg hs => ⟨hi.step hs, hN.step hi hg hs⟩) h
    ⟨c.init_inv, 0, c.init_taken⟩).2

/-! ## A network that loses nothing -/

/-- The runs in which every step meets `g`. -/
def linkUnder (c : Pairing) (g : Link → LinkLabel → Bool) : Machine Link LinkLabel :=
  (link c).guard fun s l => g s l = true

/-- Hosts `a` and `b`, one byte in each pass, three tasks. -/
def pairAB : Pairing where
  hosts := ["a".toList, "b".toList]
  a := 0
  b := 1
  payload := oneByte
  workers := 3
  a_lt := by decide
  b_lt := by decide
  ne := by decide

/-- Task `i` takes a number. -/
def taking (i : Nat) : List LinkLabel := List.replicate 3 (.a (.worker i .step))

def handing (i : Nat) : List LinkLabel := [.a (.worker i .sendOk), .deliver]

def lateRun : List LinkLabel :=
  taking 0 ++ handing 0 ++ taking 1 ++ taking 2 ++ handing 2 ++ handing 1

/-- Where no datagram is lost, the drops are the numbers passed over when their successor came, none exactly when
the numbers have come without a gap; a late number takes nothing back. -/
theorem drops_are_skips {s : Link} {ls : List LinkLabel}
    (h : (linkUnder c lossless).run c.init ls = some s) :
    s.b.dropped.toNat = (skips none s.numbers).length ∧
      (s.b.peerDropped c.a).map UInt64.toNat = some (skips none s.numbers).length ∧
      (s.b.dropped = 0 ↔ Gapless s.numbers) ∧
      ((linkUnder c inOrder).run c.init ls = some s → Gapless s.numbers) := by
  have hi := c.run_inv (Machine.run_of_guard h)
  refine ⟨hi.dropped.1, hi.dropped.2, ?_, ?_⟩
  · rw [← skips_eq_nil_iff, ← List.length_eq_zero_iff, ← hi.dropped.1]
    exact UInt64.toNat_inj.symm
  · intro ho
    obtain ⟨_, ht⟩ := c.run_taken ho
    have hg := ht.gapless
    rw [Link.wired, List.map_append] at hg
    exact hg.of_append

theorem drops_are_skips_in_order :
    ∃ s, (linkUnder pairAB inOrder).run pairAB.init (taking 0 ++ taking 1 ++ handing 0 ++ handing 1) =
      some s ∧ s.b.dropped = 0 ∧ Gapless s.numbers := by
  have h₁ : ((linkUnder pairAB inOrder).run pairAB.init
      (taking 0 ++ taking 1 ++ handing 0 ++ handing 1)).isSome = true := by decide +kernel
  obtain ⟨s, hs⟩ := Option.isSome_iff_exists.mp h₁
  have h₂ : (linkUnder pairAB lossless).run pairAB.init
      (taking 0 ++ taking 1 ++ handing 0 ++ handing 1) = some s :=
    Machine.run_of_guard_mono (fun _ _ h => (Bool.and_eq_true_iff.mp h).1) hs
  have ⟨_, _, hzero, hgap⟩ := drops_are_skips h₂
  exact ⟨s, hs, hzero.mpr (hgap hs), hgap hs⟩

/-- The task that took 1 hands it over after the task that took 2. -/
theorem drop_without_loss :
    ∃ s, (linkUnder pairAB lossless).run pairAB.init lateRun = some s ∧ s.queue = [] ∧
      s.b.dropped = 1 ∧ s.b.peerDropped pairAB.a = some 1 := by
  have h : ((linkUnder pairAB lossless).run pairAB.init lateRun).map
      (fun s => (s.queue, s.b.dropped, s.b.peerDropped pairAB.a)) = some ([], 1, some 1) := by
    decide +kernel
  obtain ⟨s, hs, h⟩ := Option.map_eq_some_iff.mp h
  simp only [Prod.mk.injEq] at h
  exact ⟨s, hs, h⟩

/-! ## Two tests in a row -/

theorem filter_append_filter {α : Type} {l : List (Bool × α)}
    (h : l.Pairwise fun d e => d.1 ≤ e.1) :
    (l.filter fun d => d.1 == false) ++ (l.filter fun d => d.1 == true) = l := by
  induction l with
  | nil => rfl
  | cons d l ih =>
      obtain ⟨hd, hl⟩ := List.pairwise_cons.mp h
      have ih := ih hl
      cases hb : d.1 with
      | false => simpa [hb] using ih
      | true =>
          have hnone : (l.filter fun d => d.1 == false) = [] := by
            rw [List.filter_eq_nil_iff]
            intro e he
            have := hd e he
            rw [hb] at this
            simpa using this rfl
          rw [hnone, List.nil_append] at ih
          rw [List.filter_cons_of_neg (by simp [hb]), List.filter_cons_of_pos (by simp [hb]), hnone,
            List.nil_append, ih]

/-- The datagrams of the first test of `a` arrive before those of its second. -/
theorem Link.Inv.numbers_split {s : Link} (h : s.Inv c) :
    s.numbers = s.numbersOf false ++ s.numbersOf true := by
  rw [Link.numbers, Link.numbersOf, Link.numbersOf, ← List.map_append,
    filter_append_filter (List.pairwise_append.mp h.sorted).1]

/-- The numbers that datagrams of the second test of `a` made the current test of `b` count. -/
def Link.secondGaps (s : Link) : List Nat :=
  skips (mark none (s.numbersOf false)) (s.numbersOf true)

/-- Above a number that arrives and below another, a number that does not arrive is skipped exactly
when no earlier arrival is larger. -/
theorem mem_skips_after {old new : List Nat} {x : Nat} (hnew : new.Pairwise (· < ·)) (hx : x ∉ new)
    (hlo : ∃ a ∈ new, a < x) (hhi : ∃ b ∈ new, x < b) :
    x ∈ skips (mark none old) new ↔ ∀ y ∈ old, y < x := by
  obtain ⟨a, ha, hax⟩ := hlo
  obtain ⟨b, hb, hxb⟩ := hhi
  cases old with
  | nil =>
      -- the first number sets the mark, and it is the least
      cases new with
      | nil => cases ha
      | cons n new =>
          have hn : n ≤ a := by
            rcases List.mem_cons.mp ha with rfl | ha
            · exact Nat.le_refl _
            · exact Nat.le_of_lt ((List.pairwise_cons.mp hnew).1 a ha)
          have hbn : b ∈ new := (List.mem_cons.mp hb).resolve_left (by omega)
          rw [mark_nil, skips_none_cons, mem_skips_some fun h => hx (List.mem_cons_of_mem n h)]
          exact ⟨fun _ => nofun, fun _ => ⟨by omega, b, hbn, hxb⟩⟩
  | cons o old =>
      obtain ⟨k, hk⟩ := mark_isSome (e := none) (l := o :: old) (.inr (List.cons_ne_nil o old))
      rw [hk, mem_skips_some hx]
      constructor
      · rintro ⟨hkx, _⟩ y hy
        have := (lt_mark hk).1 y hy
        omega
      · intro h
        rcases mark_attained hk with he | ⟨y, hy, rfl⟩
        · cases he
        · exact ⟨h y hy, b, hb, hxb⟩

/-- With a first test whose datagrams may come late: the drops are the gaps, and a number of the second test that
is lost between two others is counted exactly when no datagram of the first test bore it or a larger one. -/
theorem lost_counted_iff {s : Link} {ls : List LinkLabel} (h : (link c).run c.init ls = some s)
    (hnew : (s.numbersOf true).Pairwise (· < ·)) :
    s.b.dropped.toNat = (skips none (s.numbersOf false)).length + s.secondGaps.length ∧
      (s.b.peerDropped c.a).map UInt64.toNat =
        some ((skips none (s.numbersOf false)).length + s.secondGaps.length) ∧
      s.secondGaps.Nodup ∧
      ∀ x ∉ s.numbersOf true, (∃ a ∈ s.numbersOf true, a < x) → (∃ b ∈ s.numbersOf true, x < b) →
        (x ∈ s.secondGaps ↔ ∀ y ∈ s.numbersOf false, y < x) := by
  have hi := c.run_inv h
  have hlen : (skips none s.numbers).length =
      (skips none (s.numbersOf false)).length + s.secondGaps.length := by
    rw [hi.numbers_split, skips_append, List.length_append, Link.secondGaps]
  refine ⟨hlen ▸ hi.dropped.1, hlen ▸ hi.dropped.2, skips_nodup _ _, ?_⟩
  intro x hx hlo hhi
  exact mem_skips_after hnew hx hlo hhi

/-- Nothing of the first test reaches the second test of `b`, and 1 is lost. -/
def cleanRestart : List LinkLabel :=
  taking 0 ++ handing 0 ++ [.restartB, .restartA] ++ taking 0 ++ handing 0 ++ taking 1 ++
    [.a (.worker 1 .sendOk), .lose] ++ taking 2 ++ handing 2

theorem lost_counted_iff_clean :
    ∃ s, (link pairAB).run pairAB.init cleanRestart = some s ∧ s.secondGaps = [1] ∧
      (1 ∈ s.secondGaps ↔ ∀ y ∈ s.numbersOf false, y < 1) := by
  have h : ((link pairAB).run pairAB.init cleanRestart).map
      (fun s => (s.numbersOf true, s.secondGaps)) = some ([0, 2], [1]) := by decide +kernel
  obtain ⟨s, hs, h⟩ := Option.map_eq_some_iff.mp h
  simp only [Prod.mk.injEq] at h
  have ht := lost_counted_iff hs (by rw [h.1]; decide)
  exact ⟨s, hs, h.2, ht.2.2.2 1 (by rw [h.1]; decide) (by rw [h.1]; decide) (by rw [h.1]; decide)⟩

/-- Datagram 1 of the first test opens the slot of the second; of the second test 0 and 2 arrive and 1
is lost. -/
def lateDatagram : List LinkLabel :=
  taking 0 ++ [.a (.worker 0 .sendOk), .lose] ++ taking 1 ++ [.a (.worker 1 .sendOk), .restartB] ++
    [.deliver, .restartA] ++ taking 0 ++ handing 0 ++ taking 1 ++ [.a (.worker 1 .sendOk), .lose] ++
    taking 2 ++ handing 2

theorem lost_not_counted :
    ∃ s, (link pairAB).run pairAB.init lateDatagram = some s ∧ (s.secondA && s.secondB) = true ∧
      s.a.test.seqs = [0, 3] ∧ s.numbersOf true = [0, 2] ∧ s.b.dropped = 0 ∧
      s.b.peerDropped pairAB.a = some 0 := by
  have h : ((link pairAB).run pairAB.init lateDatagram).map
      (fun s => (s.secondA && s.secondB, s.a.test.seqs, s.numbersOf true, s.b.dropped,
        s.b.peerDropped pairAB.a)) = some (true, [0, 3], [0, 2], 0, some 0) := by
    decide +kernel
  obtain ⟨s, hs, h⟩ := Option.map_eq_some_iff.mp h
  simp only [Prod.mk.injEq] at h
  exact ⟨s, hs, h⟩

end Tperf.Dataplane

import Tperf.Net.Display
import Tperf.Net.Theorems

/-!
# Addresses are read back as they were shown
-/

namespace Tperf.Net
open Lib Dataplane

/-! ## IPv4 -/

theorem readOctet_show {o : Nat} (ho : o < 256) {r : Str}
    (hr : ∀ c, r.head? = some c → c.isDigit = false) :
    readOctet (Nat.toDigits 10 o ++ r) = some (o, r) := by
  have htake := takeWhile_numeral (p := Char.isDigit) (fun c hc => toDigits_isDigit hc) hr
    (s := Nat.toDigits 10 o)
  have hlen : (Nat.toDigits 10 o).length ≤ 3 := (Nat.length_toDigits_le_iff (by omega) (by omega)).mpr (by omega)
  have hzero : ¬ ((Nat.toDigits 10 o).head? = some '0' ∧ 1 < (Nat.toDigits 10 o).length) := by
    rintro ⟨hhead, hlong⟩
    rcases Nat.eq_zero_or_pos o with rfl | hpos
    · simp at hlong
    · exact head_toDigits (by omega) (by omega) hpos hhead
  simp only [readOctet]
  rw [htake, digitsVal_toDigits, List.drop_left, if_neg]
  rintro (h | h | h | h)
  · exact Nat.toDigits_ne_nil h
  · omega
  · exact hzero h
  · omega

theorem readIpv4_show {b : Nat} (hbits : b < 2 ^ 32) {r : Str}
    (hr : ∀ c, r.head? = some c → c.isDigit = false) :
    readIpv4 (showIpv4 b ++ r) = some ((b / 65536, b % 65536), r) := by
  have hdot : ∀ (s : Str) (c : Char), ('.' :: s).head? = some c → c.isDigit = false := by
    intro s c hc
    obtain rfl := Option.some.inj hc
    rfl
  have hshow : showIpv4 b = Nat.toDigits 10 (b / 16777216 % 256) ++ '.' ::
      (Nat.toDigits 10 (b / 65536 % 256) ++ '.' :: (Nat.toDigits 10 (b / 256 % 256) ++ '.' ::
        Nat.toDigits 10 (b % 256))) := by
    simp [showIpv4, beDigits, showOctets, Nat.div_div_eq_div_mul]
  have ha := readOctet_show (o := b / 16777216 % 256) (Nat.mod_lt _ (by omega)) (hdot
    (Nat.toDigits 10 (b / 65536 % 256) ++ '.' :: (Nat.toDigits 10 (b / 256 % 256) ++ '.' ::
      (Nat.toDigits 10 (b % 256) ++ r))))
  have hb := readOctet_show (o := b / 65536 % 256) (Nat.mod_lt _ (by omega)) (hdot
    (Nat.toDigits 10 (b / 256 % 256) ++ '.' :: (Nat.toDigits 10 (b % 256) ++ r)))
  have hc := readOctet_show (o := b / 256 % 256) (Nat.mod_lt _ (by omega)) (hdot
    (Nat.toDigits 10 (b % 256) ++ r))
  have hd := readOctet_show (o := b % 256) (Nat.mod_lt _ (by omega)) hr
  rw [hshow]
  simp only [List.append_assoc, List.cons_append, readIpv4, ha, hb, hc, hd, readChar, if_true,
    Option.bind_eq_bind, Option.bind_some, Option.some.injEq, Prod.mk.injEq, and_true]
  omega

/-! ## Groups -/

theorem hexDigit_digitChar : ∀ d < 16, hexDigit d.digitChar = some d := by decide

theorem readGroup_show {g : Nat} (hg : g < 65536) {r : Str}
    (hr : ∀ c, r.head? = some c → hexDigit c = none) :
    readGroup (Nat.toDigits 16 g ++ r) = some (g, r) := by
  have hmem := forall_mem_toDigits (b := 16) (n := g) (p := fun c => (hexDigit c).isSome = true) (by omega)
    fun d hd => by rw [hexDigit_digitChar d hd]; rfl
  have htake := takeWhile_numeral hmem (r := r) fun c hc => by rw [hr c hc]; rfl
  have hval := foldl_toDigits (b := 16) (f := fun c => (hexDigit c).getD 0) (by omega)
    (fun d hd => by rw [hexDigit_digitChar d hd]; rfl) g
  have hlen : (Nat.toDigits 16 g).length ≤ 4 := (Nat.length_toDigits_le_iff (by omega) (by omega)).mpr (by omega)
  simp only [readGroup]
  rw [htake, hval, List.drop_left, if_neg]
  rintro (h | h)
  · exact Nat.toDigits_ne_nil h
  · omega

/-- No octet ends where neither a dot nor the text does. -/
theorem readIpv4_none {s : Str} (h : (s.dropWhile Char.isDigit).head? ≠ some '.') : readIpv4 s = none := by
  have hdrop := congrArg (List.drop (s.takeWhile Char.isDigit).length)
    (List.takeWhile_append_dropWhile (p := Char.isDigit) (l := s))
  rw [List.drop_left] at hdrop
  cases ho : readOctet s with
  | none => simp [readIpv4, ho]
  | some p =>
      obtain ⟨a, r⟩ := p
      have hr : r = s.dropWhile Char.isDigit := by
        simp only [readOctet] at ho
        split at ho
        · cases ho
        · cases ho; exact hdrop.symm
      have hdot : readChar '.' r = none := by
        rw [hr]
        cases hs : s.dropWhile Char.isDigit with
        | nil => rfl
        | cons c t =>
            rw [hs, List.head?_cons, ne_eq, Option.some.injEq] at h
            rw [readChar, if_neg h]
      simp [readIpv4, ho, hdot]

/-- A group is not the first octet of an IPv4 address. -/
theorem readIpv4_group {g : Nat} {r : Str} (hr : r.head? ≠ some '.')
    (hdigit : ∀ c, r.head? = some c → c.isDigit = false) :
    readIpv4 (Nat.toDigits 16 g ++ r) = none := by
  have hdot : ∀ c ∈ Nat.toDigits 16 g, c ≠ '.' :=
    forall_mem_toDigits (by omega) (by decide)
  refine readIpv4_none ?_
  generalize Nat.toDigits 16 g = s at hdot
  induction s with
  | nil =>
      cases r with
      | nil => simp
      | cons c r =>
          rw [List.nil_append, List.dropWhile_cons_of_neg (by simp [hdigit c rfl])]
          exact hr
  | cons c s ih =>
      rw [List.cons_append, List.dropWhile_cons]
      split
      · exact ih fun d hd => hdot d (List.mem_cons_of_mem c hd)
      · simpa using hdot c List.mem_cons_self

/-! ## What ends the groups -/

/-- The text goes on with a colon, but not with a group. -/
structure Ends (r : Str) : Prop where
  hex : ∀ c, r.head? = some c → hexDigit c = none ∧ c ≠ '.'
  colon : ∀ s, r = ':' :: s → s.head? = some ':'

theorem Ends.digit {r : Str} (h : Ends r) {c : Char} (hc : r.head? = some c) : c.isDigit = false := by
  have hhex := (h.hex c hc).1
  rw [hexDigit] at hhex
  split at hhex
  · cases hhex
  · rename_i hd; exact Bool.eq_false_iff.mpr hd

theorem Ends.groups {r : Str} (h : Ends r) (n i : Nat) : readGroups n i r = ([], false, r) := by
  have hnone : ∀ s : Str, (∀ c, s.head? = some c → hexDigit c = none ∧ c ≠ '.' ∧ c.isDigit = false) →
      readIpv4 s = none ∧ readGroup s = none := by
    intro s hs
    cases s with
    | nil => exact ⟨by simp [readIpv4, readOctet], by simp [readGroup]⟩
    | cons c s =>
        obtain ⟨hhex, hdot, hdigit⟩ := hs c rfl
        refine ⟨readIpv4_none ?_, ?_⟩
        · rw [List.dropWhile_cons_of_neg (by simp [hdigit])]
          simpa using hdot
        · simp [readGroup, hhex]
  have hcolon : ∀ s : Str, s.head? = some ':' →
      ∀ c, s.head? = some c → hexDigit c = none ∧ c ≠ '.' ∧ c.isDigit = false := by
    intro s hs c hc
    obtain rfl := Option.some.inj (hs.symm.trans hc)
    decide
  have hsep : (readSeparator ':' i r).bind readIpv4 = none ∧ (readSeparator ':' i r).bind readGroup = none := by
    rw [readSeparator]
    split
    · exact hnone r fun c hc => ⟨(h.hex c hc).1, (h.hex c hc).2, h.digit hc⟩
    · cases r with
      | nil => exact ⟨rfl, rfl⟩
      | cons c s =>
          by_cases hc : c = ':'
          · subst hc
            rw [readChar, if_pos rfl]
            exact hnone s (hcolon s (h.colon s rfl))
          · rw [readChar, if_neg hc]
            exact ⟨rfl, rfl⟩
  cases n with
  | zero => rfl
  | succ left => simp [readGroups, hsep]

theorem ends_bracket (s : Str) : Ends (']' :: s) where
  hex c hc := by
    obtain rfl := Option.some.inj hc
    decide
  colon t ht := by cases ht

theorem ends_colons (s : Str) : Ends (':' :: ':' :: s) where
  hex c hc := by
    obtain rfl := Option.some.inj hc
    decide
  colon t ht := by cases ht; rfl

/-! ## Groups are read back -/

/-- What comes behind a group: the next one, or the end. -/
theorem Ends.afterGroup {r : Str} (h : Ends r) {l : List Nat} (c : Char)
    (hc : ((l.flatMap fun g => ':' :: Nat.toDigits 16 g) ++ r).head? = some c) :
    hexDigit c = none ∧ c ≠ '.' ∧ c.isDigit = false := by
  cases l with
  | nil => exact ⟨(h.hex c hc).1, (h.hex c hc).2, h.digit hc⟩
  | cons g l =>
      obtain rfl := Option.some.inj hc
      decide

theorem readGroups_tail {l : List Nat} (hl : ∀ g ∈ l, g < 65536) {r : Str} (hr : Ends r)
    {n i : Nat} (hi : i ≠ 0) (hn : l.length ≤ n) :
    readGroups n i ((l.flatMap fun g => ':' :: Nat.toDigits 16 g) ++ r) = (l, false, r) := by
  induction l generalizing n i with
  | nil => exact hr.groups n i
  | cons g l ih =>
      obtain ⟨n, rfl⟩ : ∃ k, n = k + 1 := ⟨n - 1, by rw [List.length_cons] at hn; omega⟩
      have hstop := @Ends.afterGroup r hr l
      have hgroup := readGroup_show (hl g List.mem_cons_self) fun c hc => (hstop c hc).1
      have hipv4 := readIpv4_group (g := g) (fun hc => (hstop _ hc).2.1 rfl) fun c hc => (hstop c hc).2.2
      have htail := ih (fun x hx => hl x (List.mem_cons_of_mem g hx)) (Nat.succ_ne_zero i)
        (Nat.le_of_succ_le_succ hn)
      have hsep : ∀ s : Str, readSeparator ':' i (':' :: s) = some s := fun s => by
        rw [readSeparator, if_neg hi, readChar, if_pos rfl]
      simp only [List.flatMap_cons, List.cons_append, List.append_assoc, readGroups, hsep, Option.bind_some,
        hipv4, hgroup, htail, ite_self]

theorem readGroups_show {l : List Nat} (hl : ∀ g ∈ l, g < 65536) {r : Str} (hr : Ends r)
    {n : Nat} (hn : l.length ≤ n) :
    readGroups n 0 (showGroups l ++ r) = (l, false, r) := by
  cases l with
  | nil => exact hr.groups n 0
  | cons g l =>
      obtain ⟨n, rfl⟩ : ∃ k, n = k + 1 := ⟨n - 1, by rw [List.length_cons] at hn; omega⟩
      have hstop := @Ends.afterGroup r hr l
      have hgroup := readGroup_show (hl g List.mem_cons_self) fun c hc => (hstop c hc).1
      have hipv4 := readIpv4_group (g := g) (fun hc => (hstop _ hc).2.1 rfl) fun c hc => (hstop c hc).2.2
      have htail := readGroups_tail (fun x hx => hl x (List.mem_cons_of_mem g hx)) hr (i := 1) (by omega)
        (Nat.le_of_succ_le_succ hn)
      simp only [showGroups, List.append_assoc, readGroups, readSeparator, if_true, Option.bind_some, hipv4,
        hgroup, htail, ite_self]

/-! ## IPv6 -/

/-- The text of an IPv4 address behind `::ffff:`. -/
theorem readIpv6_mapped {hi lo : Nat} (hhi : hi < 65536) (hlo : lo < 65536) {r : Str}
    (hr : ∀ c, r.head? = some c → c.isDigit = false) :
    readIpv6 ("::ffff:".toList ++ showIpv4 (65536 * hi + lo) ++ r) =
      some ([0, 0, 0, 0, 0, 0xffff, hi, lo], r) := by
  have hv4 := readIpv4_show (b := 65536 * hi + lo) (by omega) hr
  have hbits : (65536 * hi + lo) / 65536 = hi ∧ (65536 * hi + lo) % 65536 = lo := by omega
  rw [hbits.1, hbits.2] at hv4
  have hhead : readGroups 8 0 ("::ffff:".toList ++ (showIpv4 (65536 * hi + lo) ++ r)) =
      ([], false, "::ffff:".toList ++ (showIpv4 (65536 * hi + lo) ++ r)) :=
    (ends_colons ("ffff:".toList ++ (showIpv4 (65536 * hi + lo) ++ r))).groups 8 0
  have hffff : readGroup ("ffff:".toList ++ (showIpv4 (65536 * hi + lo) ++ r)) =
      some (0xffff, ':' :: (showIpv4 (65536 * hi + lo) ++ r)) :=
    readGroup_show (g := 0xffff) (by omega) (r := ':' :: (showIpv4 (65536 * hi + lo) ++ r))
      fun c hc => by obtain rfl := Option.some.inj hc; decide
  have hnot : readIpv4 ("ffff:".toList ++ (showIpv4 (65536 * hi + lo) ++ r)) = none :=
    readIpv4_none (by simp)
  have htail : readGroups 7 0 ("ffff:".toList ++ (showIpv4 (65536 * hi + lo) ++ r)) =
      ([0xffff, hi, lo], true, r) := by
    rw [readGroups, readSeparator, if_pos rfl, Option.bind_some, Option.bind_some, hnot, hffff, ite_self]
    simp only [readGroups, readSeparator, readChar, if_true, Nat.zero_add, Nat.one_ne_zero, if_false,
      Option.bind_some, hv4, Nat.succ_pos]
  rw [List.append_assoc, readIpv6, hhead]
  simp only [List.length_nil, Nat.zero_add, Nat.reduceSub]
  rw [if_neg (by omega), if_neg Bool.false_ne_true]
  have hcolons : "::ffff:".toList ++ (showIpv4 (65536 * hi + lo) ++ r) =
      ':' :: ':' :: ("ffff:".toList ++ (showIpv4 (65536 * hi + lo) ++ r)) := rfl
  simp only [hcolons, readChar, if_true, Option.bind_eq_bind, Option.bind_some, htail]
  rfl

theorem readIpv6_show {groups : List Nat} (hlen : groups.length = 8) (hgroups : ∀ g ∈ groups, g < 65536)
    {r : Str} (hr : Ends r) : readIpv6 (showIpv6 groups ++ r) = some (groups, r) := by
  unfold showIpv6
  split
  · rename_i hi lo
    exact readIpv6_mapped (hgroups hi (by simp)) (hgroups lo (by simp)) fun c hc => hr.digit hc
  · simp only
    split
    · rename_i hz
      have hsplit := take_zeroes_drop groups
      have hlens := congrArg List.length hsplit
      rw [List.length_append, List.length_append, List.length_replicate, hlen] at hlens
      generalize zeroes groups = z at *
      have hhead := readGroups_show (l := groups.take z.start) (n := 8)
        (fun g hg => hgroups g (List.mem_of_mem_take hg))
        (ends_colons (showGroups (groups.drop (z.start + z.len)) ++ r)) (by omega)
      have htail := readGroups_show (l := groups.drop (z.start + z.len))
        (n := 8 - ((groups.take z.start).length + 1))
        (fun g hg => hgroups g (List.mem_of_mem_drop hg)) hr (by omega)
      have htext : showGroups (groups.take z.start) ++ "::".toList ++
          showGroups (groups.drop (z.start + z.len)) ++ r =
          showGroups (groups.take z.start) ++ ':' :: ':' ::
            (showGroups (groups.drop (z.start + z.len)) ++ r) := by simp
      rw [htext, readIpv6, hhead]
      simp only
      rw [if_neg (by omega), if_neg Bool.false_ne_true]
      simp only [readChar, if_true, Option.bind_eq_bind, Option.bind_some, htail, Option.some.injEq,
        Prod.mk.injEq, and_true]
      have hfill : 8 - (groups.take z.start).length - (groups.drop (z.start + z.len)).length = z.len := by omega
      rw [hfill]
      exact hsplit
    · have hall := readGroups_show hgroups hr (n := 8) (Nat.le_of_eq hlen)
      rw [readIpv6, hall]
      simp only
      rw [if_pos hlen]

/-! ## The round trip -/

theorem readPort_show (port : UInt16) : readPort (':' :: Nat.toDigits 10 port.toNat) = some (port, []) := by
  have htake := takeWhile_numeral (p := Char.isDigit) (fun c hc => toDigits_isDigit hc)
    (s := Nat.toDigits 10 port.toNat) (r := []) nofun
  rw [List.append_nil] at htake
  have hlt := port.toNat_lt
  have hnumber : readNumber (2 ^ 16) (Nat.toDigits 10 port.toNat) = some (port.toNat, []) := by
    simp only [readNumber]
    rw [htake, digitsVal_toDigits, List.drop_length, if_neg]
    rintro (h | h)
    · exact Nat.toDigits_ne_nil h
    · omega
  simp only [readPort, readChar, if_true, Option.bind_eq_bind, Option.bind_some, hnumber,
    UInt16.ofNat_toNat]

/-- `to_string` and `parse::<SocketAddr>` agree. -/
theorem parseSocketAddr_show (addr : SocketAddr) : parseSocketAddr (showSocketAddr addr) = some addr := by
  obtain ⟨ip, port⟩ := addr
  have hport := readPort_show port
  cases ip with
  | v4 bits =>
      have hv4 := readIpv4_show bits.isLt (r := ':' :: Nat.toDigits 10 port.toNat) fun c hc => by
        obtain rfl := Option.some.inj hc; rfl
      have hbits : 65536 * (bits.toNat / 65536) + bits.toNat % 65536 = bits.toNat := Nat.div_add_mod _ _
      simp only [showSocketAddr, showIp, parseSocketAddr, readSocketAddrV4, hv4, hport, Option.bind_eq_bind,
        Option.bind_some, Option.orElse, hbits, BitVec.ofNat_toNat, BitVec.setWidth_eq]
  | v6 bits =>
      have hlt : bits.toNat < 65536 ^ 8 := bits.isLt
      have hv6 := readIpv6_show (beDigits_length 65536 8 bits.toNat) (fun g hg => beDigits_lt (by omega) hg)
        (ends_bracket (':' :: Nat.toDigits 10 port.toNat))
      have hbits : (beDigits 65536 8 bits.toNat).foldl (fun n g => 65536 * n + g) 0 = bits.toNat :=
        ofDigits_beDigits hlt
      have hnot : ∀ s, readIpv4 ('[' :: s) = none := fun s => readIpv4_none (by simp)
      simp only [showSocketAddr, showIp, List.cons_append, parseSocketAddr, readSocketAddrV4, hnot,
        readSocketAddrV6, readChar, if_true, hv6, Option.bind_eq_bind, Option.bind_some, Option.bind_none, Option.orElse]
      simp [hbits, hport]

/-! ## The other parser -/

/-- What `parse_host_port` could trip over is in no address. -/
def Tame (c : Char) : Prop := c ≠ '[' ∧ c ≠ ']' ∧ isWhite c = false ∧ c.toLower ≠ 'l'

instance (c : Char) : Decidable (Tame c) := inferInstanceAs (Decidable (_ ∧ _ ∧ _ ∧ _))

theorem tame_digit : ∀ d < 16, Tame d.digitChar := by decide

theorem tame_octets (os : List Nat) : ∀ c ∈ showOctets os, Tame c ∧ c ≠ ':' := by
  have hnum : ∀ (n : Nat), ∀ c ∈ Nat.toDigits 10 n, Tame c ∧ c ≠ ':' := fun n =>
    forall_mem_toDigits (by omega) (by decide)
  cases os with
  | nil => simp [showOctets]
  | cons o os =>
      simp only [showOctets, List.mem_append, List.mem_flatMap, List.mem_cons]
      rintro c (hc | ⟨_, -, rfl | hc⟩)
      · exact hnum _ c hc
      · decide
      · exact hnum _ c hc

theorem tame_groups (gs : List Nat) : ∀ c ∈ showGroups gs, Tame c := by
  have hnum : ∀ (n : Nat), ∀ c ∈ Nat.toDigits 16 n, Tame c := fun n =>
    forall_mem_toDigits (by omega) tame_digit
  cases gs with
  | nil => simp [showGroups]
  | cons g gs =>
      simp only [showGroups, List.mem_append, List.mem_flatMap, List.mem_cons]
      rintro c (hc | ⟨_, -, rfl | hc⟩)
      · exact hnum _ c hc
      · decide
      · exact hnum _ c hc

theorem tame_ipv6 (groups : List Nat) : ∀ c ∈ showIpv6 groups, Tame c := by
  unfold showIpv6
  split
  · intro c hc
    rcases List.mem_append.mp hc with hc | hc
    · have hall : ∀ c ∈ "::ffff:".toList, Tame c := by simp; decide
      exact hall c hc
    · exact (tame_octets _ c hc).1
  · simp only
    split
    · intro c hc
      rcases List.mem_append.mp hc with hc | hc
      · rcases List.mem_append.mp hc with hc | hc
        · exact tame_groups _ c hc
        · have hall : ∀ c ∈ "::".toList, Tame c := by simp; decide
          exact hall c hc
      · exact tame_groups _ c hc
    · exact tame_groups groups

theorem tame_ip (ip : IpAddr) : ∀ c ∈ showIp ip, Tame c := by
  cases ip with
  | v4 bits => exact fun c hc => (tame_octets (beDigits 256 4 bits.toNat) c hc).1
  | v6 bits => exact tame_ipv6 _

/-- What stands before the first colon is no octet, and there is a first colon. -/
theorem showIpv6_colon {groups : List Nat} (hlen : groups.length = 8) :
    ':' ∈ showIpv6 groups ∧ readIpv4 (showIpv6 groups) = none := by
  have hgroups : ∀ (g g' : Nat) (gs : List Nat) (r : Str),
      readIpv4 (showGroups (g :: g' :: gs) ++ r) = none := by
    intro g g' gs r
    simp only [showGroups, List.flatMap_cons, List.cons_append, List.append_assoc]
    exact readIpv4_group (by simp) fun c hc => by obtain rfl := Option.some.inj hc; rfl
  unfold showIpv6
  split
  · exact ⟨List.mem_cons_self, readIpv4_none (by simp)⟩
  · simp only
    split
    · rename_i hz
      have hlens := congrArg List.length (take_zeroes_drop groups)
      rw [List.length_append, List.length_append, List.length_replicate, hlen] at hlens
      refine ⟨by simp, ?_⟩
      cases htake : groups.take (zeroes groups).start with
      | nil => exact readIpv4_none (by simp [showGroups])
      | cons g gs =>
          cases gs with
          | nil =>
              simp only [showGroups, List.flatMap_nil, List.append_nil, List.append_assoc]
              exact readIpv4_group (by simp) fun c hc => by obtain rfl := Option.some.inj hc; rfl
          | cons g' gs => rw [List.append_assoc]; exact hgroups g g' gs _
    · match groups, hlen with
      | g :: g' :: gs, _ =>
          have hnone := hgroups g g' gs []
          rw [List.append_nil] at hnone
          exact ⟨by simp [showGroups], hnone⟩

theorem parseIp_show (ip : IpAddr) : parseIp (showIp ip) = some ip := by
  cases ip with
  | v4 bits =>
      have hv4 := readIpv4_show bits.isLt (r := []) nofun
      have hbits : 65536 * (bits.toNat / 65536) + bits.toNat % 65536 = bits.toNat := Nat.div_add_mod _ _
      rw [List.append_nil] at hv4
      simp only [showIp, parseIp, hv4, hbits, BitVec.ofNat_toNat, BitVec.setWidth_eq]
  | v6 bits =>
      have hlt : bits.toNat < 65536 ^ 8 := bits.isLt
      have hv6 := readIpv6_show (beDigits_length 65536 8 bits.toNat) (fun g hg => beDigits_lt (by omega) hg)
        (r := []) ⟨nofun, nofun⟩
      have hbits : (beDigits 65536 8 bits.toNat).foldl (fun n g => 65536 * n + g) 0 = bits.toNat :=
        ofDigits_beDigits hlt
      have hnot := (showIpv6_colon (beDigits_length 65536 8 bits.toNat)).2
      rw [List.append_nil] at hv6
      simp only [showIp, parseIp, hnot, hv6, hbits, BitVec.ofNat_toNat, BitVec.setWidth_eq]

theorem showSocketAddr_eq (addr : SocketAddr) : showSocketAddr addr = joinHostPort (showIp addr.ip) addr.port := by
  obtain ⟨ip, port⟩ := addr
  unfold joinHostPort
  cases ip with
  | v4 bits =>
      have hcolon : ':' ∉ showIp (.v4 bits) := fun hc =>
        (tame_octets (beDigits 256 4 bits.toNat) _ hc).2 rfl
      simp only
      rw [if_neg fun h => hcolon h.1]
      rfl
  | v6 bits =>
      have hcolon : ':' ∈ showIp (.v6 bits) := (showIpv6_colon (beDigits_length 65536 8 bits.toNat)).1
      have hhead : (showIp (.v6 bits)).head? ≠ some '[' := fun h =>
        (tame_ip (.v6 bits) _ (List.mem_of_head? h)).1 rfl
      simp only
      rw [if_pos ⟨hcolon, hhead⟩]
      simp [showSocketAddr]

theorem trim_tame {s : Str} (h : ∀ c ∈ s, Tame c) : trim s = s :=
  trim_self (fun c hc => (h c (List.mem_of_head? hc)).2.2.1) fun c hc => (h c (List.mem_of_getLast? hc)).2.2.1

/-- The text of a socket address is read back by the parser of the standard library, and split into the same
ip and port by `parse_host_port`, whose callers see the family, the unspecified and the loopback address; the
text of the ip is read back, and joined with the port it is the text again. -/
theorem sockets_read_back (addr : SocketAddr) :
    parseSocketAddr (showSocketAddr addr) = some addr ∧
      parseHostPort (showSocketAddr addr) = .ok (showIp addr.ip, addr.port) ∧
      parseIp (showIp addr.ip) = some addr.ip ∧
      joinHostPort (showIp addr.ip) addr.port = showSocketAddr addr ∧
      (∃ family, familyOfHost (showIp addr.ip) = some family ∧ family.fits addr = true) ∧
      isUnspecifiedHost (showIp addr.ip) = isUnspecified addr.ip ∧
      isLoopbackHost (showIp addr.ip) = isLoopback addr.ip := by
  have htame := tame_ip addr.ip
  have hip := parseIp_show addr.ip
  have hne : showIp addr.ip ≠ [] := fun hnil => by rw [hnil] at hip; cases hip
  refine ⟨parseSocketAddr_show addr, ?_, hip, (showSocketAddr_eq addr).symm, ?_, ?_, ?_⟩
  · rw [showSocketAddr_eq]
    exact parse_join addr.port hne (fun h => (htame _ h).1 rfl) (fun h => (htame _ h).2.1 rfl) (trim_tame htame)
  · obtain ⟨ip, port⟩ := addr
    refine ⟨match ip with | .v4 _ => .v4 | .v6 _ => .v6, by rw [familyOfHost, hip]; cases ip <;> rfl, ?_⟩
    cases ip <;> rfl
  · rw [isUnspecifiedHost, hip]
  · have hlocal : (showIp addr.ip).map Char.toLower ≠ "localhost".toList := by
      intro heq
      have hl : 'l' ∈ (showIp addr.ip).map Char.toLower := by rw [heq]; exact List.mem_cons_self
      obtain ⟨c, hc, hlower⟩ := List.mem_map.mp hl
      exact (htame c hc).2.2.2 hlower
    rw [isLoopbackHost, hip, decide_eq_false hlocal]
    rfl

end Tperf.Net

import Tperf.Net.Addr

/-!
# The grammar of addresses
-/

namespace Tperf.Net
open Lib Dataplane

/-- A decimal numeral with an optional `+`. -/
def PortText (text : Str) (port : UInt16) : Prop :=
  ∃ d, (text = d ∨ text = '+' :: d) ∧ d ≠ [] ∧ d.all Char.isDigit = true ∧ digitsVal d = port.toNat

/-- `host:port`, or `[host]:port`. -/
inductive HostPort : Str → Str → UInt16 → Prop
  | plain {host text : Str} {port : UInt16} (nonempty : host ≠ []) (colon : ':' ∉ host)
      (bracket : host.head? ≠ some '[') (hport : PortText text port) :
      HostPort (host ++ ':' :: text) host port
  | bracketed {host text : Str} {port : UInt16} (nonempty : host ≠ []) (close : ']' ∉ host)
      (hport : PortText text port) : HostPort ('[' :: host ++ ']' :: ':' :: text) host port

theorem parsePort_iff {s text : Str} {port : UInt16} :
    parsePort s text = .ok port ↔ PortText text port := by
  have hsome : ∀ n, parseUnsigned (2 ^ 16) text = some n → n < 2 ^ 16 := by
    intro n hn
    obtain ⟨d, -, -, -, -, hlt⟩ := parseUnsigned_iff.mp hn
    exact hlt
  have hiff : PortText text port ↔ parseUnsigned (2 ^ 16) text = some port.toNat := by
    rw [parseUnsigned_iff]
    constructor
    · rintro ⟨d, htext, hne, hdigits, hval⟩
      exact ⟨d, htext, hne, hdigits, hval, port.toNat_lt⟩
    · rintro ⟨d, htext, hne, hdigits, hval, -⟩
      exact ⟨d, htext, hne, hdigits, hval⟩
  rw [hiff, parsePort]
  cases hn : parseUnsigned (2 ^ 16) text with
  | none => simp
  | some n =>
      have hlt := hsome n hn
      simp only [Outcome.ok.injEq, Option.some.injEq]
      rw [← UInt16.toNat_inj, UInt16.toNat_ofNat', Nat.mod_eq_of_lt hlt]

theorem PortText.no_colon {text : Str} {port : UInt16} (h : PortText text port) : ':' ∉ text := by
  obtain ⟨d, htext, -, hdigits, -⟩ := h
  have hd : ':' ∉ d := fun hmem => by
    have := List.all_eq_true.mp hdigits ':' hmem
    cases this
  rcases htext with rfl | rfl
  · exact hd
  · simp [hd]

theorem PortText.ne_nil {text : Str} {port : UInt16} (h : PortText text port) : text ≠ [] := by
  obtain ⟨d, htext, hne, -, -⟩ := h
  rcases htext with rfl | rfl
  · exact hne
  · exact List.cons_ne_nil _ _

theorem HostPort.host_nonempty {s h : Str} {port : UInt16} (hp : HostPort s h port) : h ≠ [] := by
  cases hp with
  | plain nonempty => exact nonempty
  | bracketed nonempty => exact nonempty

/-! ## The two forms -/

theorem hostPort_bracketed_iff {host after h : Str} {port : UInt16} (hclose : ']' ∉ host) :
    HostPort ('[' :: host ++ ']' :: after) h port ↔
      h = host ∧ host ≠ [] ∧ ∃ text, after = ':' :: text ∧ PortText text port := by
  constructor
  · intro hp
    generalize hs : '[' :: host ++ ']' :: after = s at hp
    cases hp with
    | plain nonempty _ bracket _ =>
        obtain ⟨c, h, rfl⟩ := List.exists_cons_of_ne_nil nonempty
        simp only [List.cons_append, List.cons.injEq] at hs
        exact absurd (congrArg some hs.1.symm) bracket
    | @bracketed _ text _ nonempty close hport =>
        simp only [List.cons_append, List.cons.injEq, true_and] at hs
        have hsplit := congrArg (splitOnce ']') hs
        rw [splitOnce_append hclose, splitOnce_append close] at hsplit
        cases hsplit
        exact ⟨rfl, nonempty, text, rfl, hport⟩
  · rintro ⟨rfl, hne, text, rfl, hport⟩
    exact .bracketed hne hclose hport

theorem hostPort_plain_iff {s h : Str} {port : UInt16} (hs : s.head? ≠ some '[') :
    HostPort s h port ↔ ∃ text, s = h ++ ':' :: text ∧ h ≠ [] ∧ ':' ∉ h ∧ PortText text port := by
  constructor
  · intro hp
    cases hp with
    | plain nonempty colon _ hport => exact ⟨_, rfl, nonempty, colon, hport⟩
    | bracketed => exact absurd rfl hs
  · rintro ⟨text, rfl, hne, hcolon, hport⟩
    refine .plain hne hcolon ?_ hport
    obtain ⟨c, h, rfl⟩ := List.exists_cons_of_ne_nil hne
    exact hs

theorem slices_at {rest : Str} {c : Char} {close : Nat} (hsize : c.utf8Size = 1)
    (h : find c rest = some close) :
    ∃ host after, rest = host ++ c :: after ∧ c ∉ host ∧
      sliceTo rest close = (.ok host : Outcome AddrError Str) ∧
      sliceFrom rest (close + 1) = (.ok after : Outcome AddrError Str) := by
  obtain ⟨⟨host, after⟩, hsplit, rfl⟩ := Option.map_eq_some_iff.mp h
  obtain ⟨rfl, hmem⟩ := splitOnce_some hsplit
  refine ⟨host, after, rfl, hmem, sliceTo_append _ _, ?_⟩
  have hfrom := sliceFrom_append (ε := AddrError) (host ++ [c]) after
  simpa [hsize] using hfrom

/-- What follows the closing bracket. -/
theorem afterBracket_iff {s host after h : Str} {port : UInt16} :
    (match after with
      | ':' :: portStr =>
          parsePort s portStr >>= fun port =>
          if host = [] then .err (.emptyHost s) else .ok (host, port)
      | _ => .err (.missingPort s)) = .ok (h, port) ↔
      h = host ∧ host ≠ [] ∧ ∃ text, after = ':' :: text ∧ PortText text port := by
  split
  · rename_i text
    rw [Outcome.bind_eq_ok]
    constructor
    · rintro ⟨port', hport, hok⟩
      split at hok
      · cases hok
      · rename_i hne
        cases hok
        exact ⟨rfl, hne, text, rfl, parsePort_iff.mp hport⟩
    · rintro ⟨rfl, hne, text', htext, hport⟩
      cases htext
      exact ⟨port, parsePort_iff.mpr hport, if_neg hne⟩
  · rename_i hcolon
    constructor
    · intro hok
      cases hok
    · rintro ⟨-, -, text, htext, -⟩
      exact absurd htext (hcolon text)

/-- The last colon splits a plain address. -/
theorem afterColon_iff {s h : Str} {port : UInt16} :
    (match rsplitOnce ':' s with
      | some (host, portStr) =>
          if host ≠ [] ∧ portStr ≠ [] ∧ ':' ∉ host then
            parsePort s portStr >>= fun port => .ok (host, port)
          else .err (.form s)
      | none => .err (.form s)) = .ok (h, port) ↔
      ∃ text, s = h ++ ':' :: text ∧ h ≠ [] ∧ ':' ∉ h ∧ PortText text port := by
  constructor
  · intro hok
    split at hok
    · rename_i host portStr hsplit
      split at hok
      · rename_i hhost
        obtain ⟨port', hport, heq⟩ := Outcome.bind_eq_ok.mp hok
        cases heq
        obtain ⟨rfl, -⟩ := rsplitOnce_some hsplit
        exact ⟨portStr, rfl, hhost.1, hhost.2.2, parsePort_iff.mp hport⟩
      · cases hok
    · cases hok
  · rintro ⟨text, rfl, hne, hcolon, hport⟩
    simp only [rsplitOnce_append hport.no_colon]
    rw [if_pos ⟨hne, hport.ne_nil, hcolon⟩]
    exact Outcome.bind_eq_ok.mpr ⟨port, parsePort_iff.mpr hport, rfl⟩

theorem parseHostPort_iff (s h : Str) (port : UInt16) :
    parseHostPort s = .ok (h, port) ↔ HostPort (trim s) h port := by
  unfold parseHostPort
  simp only
  generalize trim s = t
  split
  · constructor
    · intro hok
      cases hok
    · intro hp
      rw [hostPort_plain_iff (by simp)] at hp
      obtain ⟨text, ht, -⟩ := hp
      simp at ht
  · rename_i rest
    cases hfind : find ']' rest with
    | none =>
        constructor
        · intro hok
          cases hok
        · intro hp
          generalize hs : '[' :: rest = s at hp
          cases hp with
          | plain nonempty _ bracket _ =>
              obtain ⟨c, h, rfl⟩ := List.exists_cons_of_ne_nil nonempty
              simp only [List.cons_append, List.cons.injEq] at hs
              exact absurd (congrArg some hs.1.symm) bracket
          | bracketed _ close _ =>
              simp only [List.cons_append, List.cons.injEq, true_and] at hs
              rw [find, hs, splitOnce_append close] at hfind
              cases hfind
    | some close =>
        obtain ⟨host, after, rfl, hclose, hto, hfrom⟩ := slices_at (by decide) hfind
        simp only [hto, hfrom, Outcome.ok_bind]
        rw [← List.cons_append, hostPort_bracketed_iff hclose]
        exact afterBracket_iff
  · rename_i hbracket
    have hhead : t.head? ≠ some '[' := by
      cases t with
      | nil => simp
      | cons c t =>
          intro hc
          obtain rfl := Option.some.inj hc
          exact hbracket t rfl
    rw [hostPort_plain_iff hhead]
    exact afterColon_iff

theorem parsePort_ne_panic (s text : Str) : parsePort s text ≠ .panic := by
  rw [parsePort]
  split <;> exact fun h => by cases h

/-- The slices are taken on character boundaries. -/
theorem parseHostPort_ne_panic (s : Str) : parseHostPort s ≠ .panic := by
  have hport : ∀ {β : Type} (t text : Str) (f : UInt16 → Outcome AddrError β), (∀ port, f port ≠ .panic) →
      (parsePort t text >>= f) ≠ .panic := by
    intro β t text f hf
    have hne := parsePort_ne_panic t text
    cases hcase : parsePort t text with
    | ok port => exact hf port
    | err e => exact fun h => by cases h
    | panic => exact absurd hcase hne
  unfold parseHostPort
  simp only
  split
  · exact fun h => by cases h
  · rename_i rest _
    cases hfind : find ']' rest with
    | none => exact fun h => by cases h
    | some close =>
        obtain ⟨host, after, rfl, -, hto, hfrom⟩ := slices_at (by decide) hfind
        simp only [hto, hfrom, Outcome.ok_bind]
        split
        · apply hport
          intro port
          split <;> exact fun h => by cases h
        · exact fun h => by cases h
  · split
    · split
      · apply hport
        exact fun port h => by cases h
      · exact fun h => by cases h
    · exact fun h => by cases h

/-! ## The round trip -/

theorem portText_toDigits (port : UInt16) : PortText (Nat.toDigits 10 port.toNat) port :=
  ⟨_, .inl rfl, Nat.toDigits_ne_nil, List.all_eq_true.mpr fun _ hc => toDigits_isDigit hc,
    digitsVal_toDigits port.toNat⟩

theorem trim_port {s : Str} {port : UInt16} (hhead : ∀ c, s.head? = some c → isWhite c = false)
    (hne : s ≠ []) : trim (s ++ Nat.toDigits 10 port.toNat) = s ++ Nat.toDigits 10 port.toNat := by
  refine trim_self (fun c hc => ?_) fun c hc => ?_
  · obtain ⟨d, s, rfl⟩ := List.exists_cons_of_ne_nil hne
    exact hhead c hc
  · rw [List.getLast?_append_of_ne_nil _ Nat.toDigits_ne_nil] at hc
    exact isWhite_digit (toDigits_isDigit (List.mem_of_getLast? hc))

theorem parse_join {h : Str} (port : UInt16) (hne : h ≠ []) (hopen : '[' ∉ h) (hclose : ']' ∉ h)
    (htrim : trim h = h) : parseHostPort (joinHostPort h port) = .ok (h, port) := by
  have hport := portText_toDigits port
  have hbracket : h.head? ≠ some '[' := fun hc => hopen (List.mem_of_head? hc)
  rw [parseHostPort_iff]
  unfold joinHostPort
  simp only
  by_cases hcolon : ':' ∈ h
  · rw [if_pos ⟨hcolon, hbracket⟩, trim_port (by simp [isWhite]) (by simp)]
    have htext : '[' :: h ++ "]:".toList ++ Nat.toDigits 10 port.toNat =
        '[' :: h ++ ']' :: ':' :: Nat.toDigits 10 port.toNat := by simp
    rw [htext]
    exact .bracketed hne hclose hport
  · have hhead : ∀ c, (h ++ [':']).head? = some c → isWhite c = false := by
      intro c hc
      rw [List.head?_append_of_ne_nil _ hne] at hc
      exact head_of_trim htrim hc
    have htext : h ++ ':' :: Nat.toDigits 10 port.toNat = (h ++ [':']) ++ Nat.toDigits 10 port.toNat := by
      simp
    rw [if_neg fun hc => hcolon hc.1, htext, trim_port hhead (by simp), ← htext]
    exact .plain hne hcolon hbracket hport

/-- `parse_host_port` reads the addresses of the grammar, refuses all others, and undoes `join_host_port`. -/
theorem addresses_read :
    (∀ s h port, parseHostPort s = .ok (h, port) ↔ HostPort (trim s) h port) ∧
      (∀ s, parseHostPort s ≠ .panic) ∧
      ∀ h port, h ≠ [] → '[' ∉ h → ']' ∉ h → trim h = h →
        parseHostPort (joinHostPort h port) = .ok (h, port) :=
  ⟨parseHostPort_iff, parseHostPort_ne_panic,
    fun _ port hne hopen hclose htrim => parse_join port hne hopen hclose htrim⟩

end Tperf.Net

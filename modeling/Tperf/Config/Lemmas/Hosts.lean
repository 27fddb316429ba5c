import Tperf.Config.File
import Tperf.Config.Theorems.Expansion
import Tperf.Config.Theorems.Substitution

/-!
# The hosts of a file, before and after the expansion
-/

namespace Tperf.Config
open Lib

/-! ## White space -/

theorem last_of_trim {s : Str} (h : trim s = s) {c : Char} (hc : s.getLast? = some c) :
    isWhite c = false := by
  have hprefix := (List.rdropWhile_prefix isWhite (s.dropWhile isWhite)).length_le
  have hsuffix := List.dropWhile_suffix (l := s) isWhite
  have hlen := congrArg List.length h
  have hdrop : s.dropWhile isWhite = s := by
    apply hsuffix.eq_of_length
    have := hsuffix.length_le
    rw [trim] at hlen
    omega
  rw [trim, hdrop, List.rdropWhile_eq_self_iff] at h
  have hne : s ≠ [] := by rintro rfl; cases hc
  rw [List.getLast?_eq_getLast_of_ne_nil hne] at hc
  exact Option.some.inj hc ▸ Bool.eq_false_iff.mpr (h hne)

theorem dropWhile_head {p : Char → Bool} {s : Str} {c : Char} (h : (s.dropWhile p).head? = some c) :
    p c = false := by
  simpa [h] using List.head?_dropWhile_not p s

theorem trim_trim (s : Str) : trim (trim s) = trim s := by
  apply trim_self
  · intro c hc
    obtain ⟨t, ht⟩ := List.rdropWhile_prefix isWhite (s.dropWhile isWhite)
    have hhead : (s.dropWhile isWhite).head? = some c := by
      have hc : ((s.dropWhile isWhite).rdropWhile isWhite).head? = some c := hc
      rw [← ht, List.head?_append, hc]
      rfl
    exact dropWhile_head hhead
  · intro c hc
    have hrev : ((s.dropWhile isWhite).reverse.dropWhile isWhite).head? = some c := by
      rw [← List.getLast?_reverse]
      exact hc
    exact dropWhile_head hrev

/-! ## `split_hosts` -/

/-- A name that `split_hosts` can give. -/
structure HostText (h : Str) : Prop where
  nonempty : h ≠ []
  comma : ',' ∉ h
  trimmed : trim h = h

theorem splitOn_part {c : Char} {s part : Str} (h : part ∈ s.splitOn c) : c ∉ part := by
  induction s generalizing part with
  | nil => simp_all
  | cons d s ih =>
      rw [List.splitOn_cons_eq_if_modifyHead] at h
      split at h
      · rcases List.mem_cons.mp h with rfl | h
        · exact List.not_mem_nil
        · exact ih h
      · rename_i hd
        obtain ⟨first, rest, hs⟩ := List.exists_cons_of_ne_nil (List.splitOn_ne_nil c s)
        rw [hs, List.modifyHead_cons] at h
        rcases List.mem_cons.mp h with rfl | h
        · have hfirst : c ∉ first := ih (hs ▸ List.mem_cons_self)
          have hcd : c ≠ d := by rintro rfl; simp at hd
          simp [hfirst, hcd]
        · exact ih (hs ▸ List.mem_cons_of_mem _ h)

theorem mem_trim {s : Str} {c : Char} (h : c ∈ trim s) : c ∈ s :=
  (List.dropWhile_suffix isWhite).subset ((List.rdropWhile_prefix isWhite _).subset h)

theorem splitHosts_text {s h : Str} (hh : h ∈ splitHosts s) : HostText h := by
  obtain ⟨hmem, hne⟩ := List.mem_filter.mp hh
  obtain ⟨part, hpart, rfl⟩ := List.mem_map.mp hmem
  exact ⟨by simpa using hne, fun hc => splitOn_part hpart (mem_trim hc), trim_trim part⟩

theorem HostText.split {h : Str} (ht : HostText h) : splitHosts h = [h] := by
  have hne : h.isEmpty = false := by simpa using ht.nonempty
  simp [splitHosts, List.splitOn_eq_singleton ht.comma, ht.trimmed, hne]

theorem splitHosts_append (s t : Str) : splitHosts (s ++ ',' :: t) = splitHosts s ++ splitHosts t := by
  simp [splitHosts, List.splitOn_append_cons_self]

theorem splitHosts_join (ss : List Str) : splitHosts ([','].intercalate ss) = ss.flatMap splitHosts := by
  induction ss with
  | nil => rfl
  | cons s ss ih =>
      cases ss with
      | nil => simp
      | cons t ss =>
          rw [List.intercalate_cons_cons, List.append_assoc, List.singleton_append, splitHosts_append, ih]
          rfl

theorem flatMap_split {hs : List Str} (h : ∀ x ∈ hs, HostText x) : hs.flatMap splitHosts = hs := by
  induction hs with
  | nil => rfl
  | cons x hs ih =>
      obtain ⟨hx, hs⟩ := List.forall_mem_cons.mp h
      rw [List.flatMap_cons, hx.split, ih hs, List.singleton_append]

/-! ## The expansion -/

/-- A range gives way to digits, so what is between the ends of a pattern stays between them. -/
theorem HostText.name {start stop x : Str} {r : Range} (h : HostText (start ++ r.text ++ stop))
    (hx : x ∈ r.names) : HostText (start ++ x ++ stop) := by
  obtain ⟨n, -, rfl⟩ := List.mem_map.mp hx
  have hdigit : ∀ c ∈ r.name n, c.isDigit = true := fun c hc => r.name_digits n hc
  have hne : r.name n ≠ [] := by
    simp [Range.name, Nat.toDigits_ne_nil]
  obtain ⟨d, ds, hname⟩ := List.exists_cons_of_ne_nil hne
  have hwhite : ∀ c ∈ r.name n, isWhite c = false := fun c hc => isWhite_digit (hdigit c hc)
  refine ⟨by simp [hname], ?_, trim_self ?_ ?_⟩
  · have hcomma := h.comma
    have hdc : ',' ∉ r.name n := by
      intro hc
      exact absurd (hdigit _ hc) (by decide)
    simp only [List.mem_append, not_or] at hcomma ⊢
    exact ⟨⟨hcomma.1.1, hdc⟩, hcomma.2⟩
  · intro c hc
    cases start with
    | nil =>
        rw [hname] at hc
        obtain rfl : d = c := Option.some.inj hc
        exact hwhite d (by simp [hname])
    | cons a start => exact head_of_trim h.trimmed (by simpa using hc)
  · intro c hc
    cases hstop : stop.getLast? with
    | none =>
        obtain rfl : stop = [] := by simpa using hstop
        rw [List.append_nil, List.getLast?_append_of_ne_nil _ hne] at hc
        exact hwhite c (List.mem_of_getLast? hc)
    | some e =>
        rw [List.getLast?_append, hstop] at hc
        apply last_of_trim h.trimmed
        rw [List.getLast?_append, hstop]
        exact hc

theorem HostText.expand {pat h : Str} {hs : List Str} (ht : HostText pat)
    (hok : expandPattern pat = .ok hs) (hh : h ∈ hs) : HostText h := by
  induction pat using substitution_induction generalizing hs with
  | step pat ih =>
      cases kind pat with
      | plain hp =>
          rw [expandPattern_plain hp] at hok
          cases hok
          obtain rfl := List.mem_singleton.mp hh
          exact ht
      | rejected hp =>
          obtain ⟨e, he⟩ := expandPattern_rejected hp
          rw [he] at hok
          cases hok
      | huge hp =>
          rw [expandPattern_huge hp] at hok
          cases hok
      | range start r stop hf hr =>
          rw [expandPattern_accepted hf hr, List.mapM_map] at hok
          obtain ⟨hss, hm, hflat⟩ := Outcome.bind_eq_ok.mp hok
          cases hflat
          obtain ⟨ts, hts, hmem⟩ := List.mem_flatten.mp hh
          obtain ⟨x, hx, hxs⟩ := Outcome.mem_of_mapM hm hts
          exact ih start r stop x hf hx ((hf.text ▸ ht).name hx) hxs hmem

theorem expandItems_eq_ok {items out hosts : List Str} (hout : out.Nodup) :
    items.foldlM (fun out item => expandPattern item >>= fun hs => hs.foldlM pushHost out) out =
        .ok hosts ↔
      ∃ hss, items.mapM expandPattern = .ok hss ∧ out ++ hss.flatten = hosts ∧ hosts.Nodup := by
  induction items generalizing out with
  | nil =>
      simp only [List.foldlM_nil, List.mapM_nil, Outcome.pure_eq_ok, Outcome.ok.injEq, exists_eq_left',
        List.flatten_nil, List.append_nil]
      constructor
      · rintro rfl
        exact ⟨rfl, hout⟩
      · exact And.left
  | cons item items ih =>
      have hpush : ∀ hs mid, hs.foldlM pushHost out = .ok mid ↔ out ++ hs = mid ∧ mid.Nodup := by
        intro hs mid
        obtain ⟨hok, hdup⟩ := foldlM_pushHost hout hs
        by_cases hnd : (out ++ hs).Nodup
        · rw [hok hnd, Outcome.ok.injEq]
          exact ⟨fun h => ⟨h, h ▸ hnd⟩, And.left⟩
        · obtain ⟨h, herr⟩ := hdup hnd
          rw [herr]
          exact ⟨fun h => (by cases h), fun h => absurd (h.1 ▸ h.2) hnd⟩
      simp only [List.foldlM_cons, List.mapM_cons, Outcome.bind_eq_ok, hpush, Outcome.pure_eq_ok,
        Outcome.ok.injEq]
      constructor
      · rintro ⟨mid, ⟨hs, hhs, rfl, hnd⟩, hrest⟩
        obtain ⟨hss, hm, rfl, hnd⟩ := (ih hnd).mp hrest
        exact ⟨hs :: hss, ⟨hs, hhs, hss, hm, rfl⟩, by simp, hnd⟩
      · rintro ⟨_, ⟨hs, hhs, hss, hm, rfl⟩, rfl, hnd⟩
        have hnd' : (out ++ hs ++ hss.flatten).Nodup := by simpa using hnd
        have hmid := List.Nodup.of_append_left hnd'
        exact ⟨out ++ hs, ⟨hs, hhs, rfl, hmid⟩, (ih hmid).mpr ⟨hss, hm, by simp, hnd⟩⟩

theorem expandHostlist_eq_ok {items hosts : List Str} :
    expandHostlist items = .ok hosts ↔
      ∃ hss, items.mapM expandPattern = .ok hss ∧ hss.flatten = hosts ∧ hosts.Nodup :=
  expandItems_eq_ok .nil

theorem flatten_singletons {α : Type} (l : List α) : (l.map fun a => [a]).flatten = l := by
  induction l with
  | nil => rfl
  | cons a l ih => simp [ih]

/-- The hosts that come out expand to themselves. -/
theorem expandHostlist_again {items hosts : List Str} (h : expandHostlist items = .ok hosts) :
    expandHostlist hosts = .ok hosts := by
  obtain ⟨hss, hm, rfl, hnd⟩ := expandHostlist_eq_ok.mp h
  have hself : ∀ x ∈ hss.flatten, expandPattern x = .ok [x] := by
    intro x hx
    obtain ⟨hs, hhs, hmem⟩ := List.mem_flatten.mp hx
    obtain ⟨pat, -, hpat⟩ := Outcome.mem_of_mapM hm hhs
    exact expandPattern_plain (expanded_plain hpat hmem).1
  exact expandHostlist_eq_ok.mpr ⟨_, Outcome.mapM_ok hself, flatten_singletons _, hnd⟩

theorem expandHostlist_text {items hosts : List Str} (h : expandHostlist items = .ok hosts)
    (ht : ∀ x ∈ items, HostText x) : ∀ x ∈ hosts, HostText x := by
  obtain ⟨hss, hm, rfl, -⟩ := expandHostlist_eq_ok.mp h
  intro x hx
  obtain ⟨hs, hhs, hmem⟩ := List.mem_flatten.mp hx
  obtain ⟨pat, hpat, hok⟩ := Outcome.mem_of_mapM hm hhs
  exact (ht pat hpat).expand hok hmem

end Tperf.Config

import Tperf.Config.File

/-!
# What the loop over a table reads
-/

namespace Tperf.Config
open Lib Proto

variable {T : Toml}

/-! ## Keys -/

theorem Field.ofKey_key (f : Field) : Field.ofKey f.key = some f := by
  cases f <;> decide

theorem Field.key_of_ofKey {key : Str} {f : Field} (h : Field.ofKey key = some f) : f.key = key := by
  simpa using List.find?_some h

theorem Field.key_ne {f g : Field} (h : f ≠ g) : f.key ≠ g.key := by
  intro he
  have hf := f.ofKey_key
  rw [he, g.ofKey_key] at hf
  exact h (Option.some.inj hf).symm

/-! ## The loop -/

/-- The fields read are those of the keys given. -/
def Holds (T : Toml) (es : List (Str × T.Value)) (fs : Fields) : Prop :=
  ∀ f, match es.lookup f.key with
    | none => fs f = none
    | some v => ∃ x, f.deser T v = .ok x ∧ fs f = some x

theorem lookup_concat {es : List (Str × T.Value)} {key : Str} {v : T.Value} (h : key ∉ es.map Prod.fst)
    (k : Str) : (es ++ [(key, v)]).lookup k = if k = key then some v else es.lookup k := by
  rw [List.lookup_append]
  by_cases hk : k = key
  · subst hk
    have hnone : es.lookup k = none := by
      rw [List.lookup_eq_none_iff]
      intro e he
      have hne : k ≠ e.1 := fun heq => h (List.mem_map.mpr ⟨e, he, heq.symm⟩)
      simpa using hne
    simp [hnone]
  · have hb : (k == key) = false := by simp [hk]
    simp [hk, List.lookup_cons, hb]

theorem visit_eq_ok {fs fs' : Fields} {key : Str} {v : T.Value} :
    fs.visit T (key, v) = .ok fs' ↔
      match Field.ofKey key with
      | none => fs = fs'
      | some f => ∃ x, f.deser T v = .ok x ∧ Function.update fs f (some x) = fs' := by
  unfold Fields.visit
  cases Field.ofKey key with
  | none => simp
  | some f => simp [Outcome.bind_eq_ok, Outcome.mapErr_eq_ok]

theorem holds_concat {es : List (Str × T.Value)} {key : Str} {v : T.Value} (hkey : key ∉ es.map Prod.fst)
    {fs' : Fields} :
    Holds T (es ++ [(key, v)]) fs' ↔ ∃ fs, Holds T es fs ∧ fs.visit T (key, v) = .ok fs' := by
  simp only [visit_eq_ok]
  cases hof : Field.ofKey key with
  | none =>
      have hne : ∀ f : Field, f.key ≠ key := by
        intro f hf
        rw [← hf, f.ofKey_key] at hof
        cases hof
      simp only [Holds, lookup_concat hkey, hne, if_false, exists_eq_right]
  | some f =>
      obtain rfl := Field.key_of_ofKey hof
      have hnone : es.lookup f.key = none := by
        rw [List.lookup_eq_none_iff]
        intro e he
        have hne : f.key ≠ e.1 := fun heq => hkey (List.mem_map.mpr ⟨e, he, heq.symm⟩)
        simpa using hne
      constructor
      · intro h
        obtain ⟨x, hx, hfs⟩ : ∃ x, f.deser T v = .ok x ∧ fs' f = some x := by
          simpa [lookup_concat hkey] using h f
        refine ⟨Function.update fs' f none, fun g => ?_, x, hx, ?_⟩
        · by_cases hg : g = f
          · subst hg
            simp [hnone]
          · simpa [lookup_concat hkey, Field.key_ne hg, Function.update_of_ne hg] using h g
        · rw [Function.update_idem, ← hfs, Function.update_eq_self]
      · rintro ⟨fs, h, x, hx, rfl⟩ g
        rw [lookup_concat hkey]
        by_cases hg : g = f
        · subst hg
          simpa using hx
        · simpa [Field.key_ne hg, Function.update_of_ne hg] using h g

theorem foldlM_visit {es : List (Str × T.Value)} (h : (es.map Prod.fst).Nodup) {fs : Fields} :
    es.foldlM (Fields.visit T) (fun _ => none) = .ok fs ↔ Holds T es fs := by
  induction es using List.reverseRecOn generalizing fs with
  | nil =>
      simp only [List.foldlM_nil, Outcome.pure_eq_ok, Outcome.ok.injEq, Holds, List.lookup_nil]
      constructor
      · rintro rfl f
        rfl
      · intro hnone
        funext f
        exact (hnone f).symm
  | append_singleton es e ih =>
      obtain ⟨key, v⟩ := e
      have hnodup : (es.map Prod.fst ++ [key]).Nodup := by simpa using h
      obtain ⟨hes, -, hdisj⟩ := List.nodup_append.mp hnodup
      have hkey : key ∉ es.map Prod.fst := fun hmem => hdisj _ hmem _ (List.mem_singleton_self key) rfl
      have hvisit : ∀ fs : Fields, [(key, v)].foldlM (Fields.visit T) fs = fs.visit T (key, v) := by
        intro fs
        rw [List.foldlM_cons]
        exact bind_pure _
      rw [List.foldlM_append, Outcome.bind_eq_ok, holds_concat hkey]
      simp only [ih hes, hvisit]

/-! ## The fields -/

theorem finish_eq_ok {fs : Fields} {file : ConfigFile} :
    fs.finish = .ok file ↔ ∀ f, fs.value f = .ok (file f) := by
  simp only [Fields.finish, Outcome.bind_eq_ok, Outcome.ok.injEq]
  constructor
  · rintro ⟨_, h₁, _, h₂, _, h₃, _, h₄, _, h₅, _, h₆, _, h₇, _, h₈, rfl⟩ f
    cases f <;> assumption
  · intro h
    refine ⟨_, h .clientAddr, _, h .testAddr, _, h .network, _, h .payloadSize, _, h .workers, _,
      h .testType, _, h .hostlist, _, h .tag, ?_⟩
    funext f
    cases f <;> rfl

theorem value_eq_ok {fs : Fields} {f : Field} {x : f.Val} :
    fs.value f = .ok x ↔ fs f = some x ∨ fs f = none ∧ f.default = some x := by
  unfold Fields.value
  cases fs f with
  | some y => simp
  | none => cases f.default <;> simp

/-- A field is read from its key, or it has its default. -/
theorem configFile_eq_ok {t : Table T.Value} {file : ConfigFile} :
    configFile T t = .ok file ↔ ∀ f : Field, match t.get f.key with
      | none => f.default = some (file f)
      | some v => f.deser T v = .ok (file f) := by
  simp only [configFile, Outcome.bind_eq_ok, foldlM_visit t.nodup, finish_eq_ok, value_eq_ok, Holds,
    Table.get]
  constructor
  · rintro ⟨fs, hholds, hvalue⟩ f
    have hholds := hholds f
    have hvalue := hvalue f
    cases hv : t.entries.lookup f.key with
    | none =>
        rw [hv] at hholds
        simpa [hholds] using hvalue
    | some v =>
        rw [hv] at hholds
        obtain ⟨x, hx, hfs⟩ := hholds
        obtain rfl : x = file f := by simpa [hfs] using hvalue
        exact hx
  · intro h
    refine ⟨fun f => (t.entries.lookup f.key).map fun _ => file f, fun f => ?_, fun f => ?_⟩
    · have hf := h f
      cases hv : t.entries.lookup f.key with
      | none => simp [hv]
      | some v =>
          rw [hv] at hf
          exact ⟨file f, hf, by simp [hv]⟩
    · have hf := h f
      cases hv : t.entries.lookup f.key with
      | none =>
          rw [hv] at hf
          exact .inr ⟨by simp [hv], hf⟩
      | some v => exact .inl (by simp [hv])

/-! ## Values -/

theorem ofToml_eq_ok {α : Type} {x : Except Str α} {a : α} : ofToml x = .ok a ↔ x = .ok a := by
  cases x <;> simp [ofToml]

theorem deserString_eq_ok {v : T.Value} {s : Str} : deserString T v = .ok s ↔ T.string v = .ok s := ofToml_eq_ok

theorem toInt_eq_toUInt64 {i : Int64} : i.toInt = i.toUInt64.toNat ↔ ¬ i < 0 := by
  rw [Int64.lt_iff_toInt_lt]
  constructor
  · intro h hneg
    have : i.toInt < 0 := hneg
    omega
  · intro h
    have hnonneg : 0 ≤ i := by
      rw [Int64.le_iff_toInt_le]
      exact Int.not_lt.mp h
    rw [Int64.toNat_toUInt64_of_le hnonneg, Int64.toNatClampNeg]
    have : 0 ≤ i.toInt := Int.not_lt.mp h
    omega

theorem deserPayload_int {i : Int64} {n : UInt64} : deserPayload (.int i) = .ok n ↔ i.toInt = n.toNat := by
  rw [deserPayload]
  constructor
  · intro h
    split at h
    · cases h
    · rename_i hi
      cases h
      exact toInt_eq_toUInt64.mpr hi
  · intro h
    have hnonneg : ¬ i < 0 := by
      rw [Int64.lt_iff_toInt_lt]
      intro hneg
      have : i.toInt < 0 := hneg
      omega
    rw [if_neg hnonneg, Outcome.ok.injEq, ← UInt64.toNat_inj]
    have := toInt_eq_toUInt64.mpr hnonneg
    omega

theorem deserPayload_str {s : Str} {n : UInt64} : deserPayload (.str s) = .ok n ↔ parseSize s = .ok n := by
  simp only [deserPayload]
  cases parseSize s <;> simp

theorem deserPayloadSize_eq_ok {v : T.Value} {n : UInt64} :
    deserPayloadSize T v = .ok n ↔
      (∃ i, T.any v = .integer i ∧ i.toInt = n.toNat) ∨ ∃ s, T.any v = .string s ∧ parseSize s = .ok n := by
  rw [deserPayloadSize]
  cases T.any v with
  | integer i => simp [Outcome.mapErr_eq_ok, deserPayload_int]
  | string s => simp [Outcome.mapErr_eq_ok, deserPayload_str]
  | array | other => simp

theorem deserHostlist_items {items : List T.Value} {out hosts : List Str} :
    items.foldlM (fun out v => deserString T v >>= fun s => .ok (out ++ splitHosts s)) out =
        (.ok hosts : Outcome ValueError (List Str)) ↔
      ∃ ss, List.Forall₂ (fun v s => T.string v = .ok s) items ss ∧ hosts = out ++ ss.flatMap splitHosts := by
  induction items generalizing out with
  | nil => simp [eq_comm]
  | cons v items ih =>
      simp only [List.foldlM_cons, Outcome.bind_eq_ok, deserString_eq_ok, Outcome.ok.injEq, ih]
      constructor
      · rintro ⟨_, ⟨s, hs, rfl⟩, ss, hss, rfl⟩
        exact ⟨s :: ss, .cons hs hss, by simp⟩
      · rintro ⟨_, hss, rfl⟩
        cases hss with
        | @cons _ s _ ss hs hss => exact ⟨_, ⟨s, hs, rfl⟩, ss, hss, by simp⟩

theorem deserHostlist_eq_ok {v : T.Value} {hosts : List Str} :
    deserHostlist T v = .ok hosts ↔ (∃ s, T.any v = .string s ∧ hosts = splitHosts s) ∨
      ∃ items ss, T.any v = .array items ∧ List.Forall₂ (fun v s => T.string v = .ok s) items ss ∧
        hosts = ss.flatMap splitHosts := by
  rw [deserHostlist]
  cases T.any v with
  | string s => simp [eq_comm]
  | array items => simp [deserHostlist_items]
  | integer | other => simp

end Tperf.Config

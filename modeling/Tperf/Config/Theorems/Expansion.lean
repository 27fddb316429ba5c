import Mathlib.Algebra.Group.Nat.Defs
import Mathlib.Algebra.BigOperators.Group.List.Basic
import Mathlib.Data.List.Nodup
import Tperf.Config.Lemmas.Expand

/-!
# The expansion of a pattern without nesting
-/

namespace Tperf.Config
open Lib

/-! ## The product -/

namespace Pattern

theorem product_append (pre lead : Str) (parts : List Part) :
    product (pre ++ lead) parts = (product lead parts).map (pre ++ ·) := by
  cases parts with
  | nil => rfl
  | cons q parts => simp [product, List.map_flatMap, Function.comp_def]

theorem product_length (lead : Str) (parts : List Part) :
    (product lead parts).length = (parts.map fun q => q.1.val.size).prod := by
  induction parts generalizing lead with
  | nil => rfl
  | cons q parts ih =>
      obtain ⟨r, lit⟩ := q
      simp [product, List.length_flatMap, ih, ← r.val.names_length]

theorem expand_parts {lead : Str} (hlead : '{' ∉ lead) (parts : List Part) :
    expandPattern (lead ++ parts.flatMap Part.text) = .ok (product lead parts) := by
  induction parts generalizing lead with
  | nil =>
      rw [List.flatMap_nil, List.append_nil]
      exact expandPattern_plain (plain_of_literal hlead)
  | cons q parts ih =>
      obtain ⟨⟨r, hr⟩, lit⟩ := q
      have hfound := found_of_literal hlead r (lit.val ++ parts.flatMap Part.text)
      have hname : ∀ x ∈ r.names, expandPattern (lead ++ x ++ (lit.val ++ parts.flatMap Part.text)) =
          .ok ((product lit.val parts).map fun t => lead ++ x ++ t) := by
        intro x hx
        have hx : '{' ∉ x := List.count_eq_zero.mp (Range.count_name hx)
        have hopen : '{' ∉ lead ++ x ++ lit.val := by simp [hlead, hx, lit.property.1]
        rw [← product_append, ← ih hopen]
        simp
      rw [List.flatMap_cons, Part.text, List.append_assoc, ← List.append_assoc]
      rw [expandPattern_accepted hfound hr, List.mapM_map, Function.comp_def, Outcome.mapM_ok hname,
        Outcome.ok_bind]
      rfl

theorem expand_text (p : Pattern) : expandPattern p.text = .ok p.hosts :=
  expand_parts p.lead.property.1 p.parts

end Pattern

/-! ## Repeated names -/

theorem foldlM_pushHost {out : List Str} (hout : out.Nodup) (hs : List Str) :
    ((out ++ hs).Nodup → hs.foldlM pushHost out = .ok (out ++ hs)) ∧
      (¬ (out ++ hs).Nodup → ∃ h, hs.foldlM pushHost out = .err (.duplicateHost h)) := by
  induction hs generalizing out with
  | nil =>
      rw [List.append_nil]
      exact ⟨fun _ => rfl, fun h => absurd hout h⟩
  | cons h hs ih =>
      rw [List.foldlM_cons, pushHost]
      by_cases hmem : h ∈ out
      · rw [if_pos hmem]
        refine ⟨fun hnodup => ?_, fun _ => ⟨h, rfl⟩⟩
        exact absurd rfl ((List.nodup_append.mp hnodup).2.2 h hmem h List.mem_cons_self)
      · rw [if_neg hmem, Outcome.ok_bind, List.append_cons]
        exact ih (List.Nodup.append hout (List.nodup_singleton h) (by simpa using hmem))

theorem expandItems {out : List Str} (hout : out.Nodup) (ps : List Pattern) :
    let all := (ps.map Pattern.text).foldlM
      (fun out item => expandPattern item >>= fun hs => hs.foldlM pushHost out) out
    ((out ++ ps.flatMap Pattern.hosts).Nodup → all = .ok (out ++ ps.flatMap Pattern.hosts)) ∧
      (¬ (out ++ ps.flatMap Pattern.hosts).Nodup → ∃ h, all = .err (.duplicateHost h)) := by
  induction ps generalizing out with
  | nil =>
      rw [List.flatMap_nil, List.append_nil]
      exact ⟨fun _ => rfl, fun h => absurd hout h⟩
  | cons p ps ih =>
      simp only [List.map_cons, List.foldlM_cons, p.expand_text, Outcome.ok_bind, List.flatMap_cons,
        ← List.append_assoc]
      obtain ⟨hok, hdup⟩ := foldlM_pushHost hout p.hosts
      by_cases hp : (out ++ p.hosts).Nodup
      · rw [hok hp]
        exact ih hp
      · obtain ⟨h, herr⟩ := hdup hp
        rw [herr]
        exact ⟨fun hnodup => absurd (List.Nodup.of_append_left hnodup) hp, fun _ => ⟨h, rfl⟩⟩

/-- A pattern without nesting expands to the ordered product of its ranges; a hostlist of such patterns to
the concatenation, unless a name is repeated. -/
theorem expansion_is_product :
    (∀ p : Pattern, expandPattern p.text = .ok p.hosts ∧
      p.hosts.length = (p.parts.map fun q => q.1.val.size).prod) ∧
    ∀ ps : List Pattern,
      ((ps.flatMap Pattern.hosts).Nodup →
        expandHostlist (ps.map Pattern.text) = .ok (ps.flatMap Pattern.hosts)) ∧
      (¬ (ps.flatMap Pattern.hosts).Nodup →
        ∃ h, expandHostlist (ps.map Pattern.text) = .err (.duplicateHost h)) :=
  ⟨fun p => ⟨p.expand_text, Pattern.product_length p.lead.val p.parts⟩, fun ps => expandItems .nil ps⟩

end Tperf.Config

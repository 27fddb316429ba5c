import Tperf.Config.Lemmas.Validate
import Tperf.Db.Basic
import Tperf.Proto.Frame

/-!
# Tags and the files they name
-/

namespace Tperf.Config
open Lib Proto

/-- `db_filename` makes a name that `Db::create` takes, and keeps the name it made. -/
structure Usable (tag : Str) : Prop where
  slash : '/' ∉ dbFilename tag
  backslash : '\\' ∉ dbFilename tag
  nul : '\x00' ∉ dbFilename tag
  notDot : dbFilename tag ≠ ".".toList
  notDotDot : dbFilename tag ≠ "..".toList
  created : Db.ensurePath (dbFilename tag) = .ok ()
  again : dbFilename (dbFilename tag) = dbFilename tag

theorem dbFilename_stem (tag : Str) :
    ∃ stem, dbFilename tag = stem ++ ".db".toList ∧
      (tag = stem ++ ".db".toList ∨ tag = stem ++ ".DB".toList ∨ tag = stem) := by
  unfold dbFilename
  cases hlower : stripSuffix ".db".toList tag with
  | some stem => exact ⟨stem, rfl, .inl (stripSuffix_eq_some.mp hlower)⟩
  | none =>
      cases hupper : stripSuffix ".DB".toList tag with
      | some stem => exact ⟨stem, rfl, .inr (.inl (stripSuffix_eq_some.mp hupper))⟩
      | none => exact ⟨tag, rfl, .inr (.inr rfl)⟩

theorem dbFilename_suffix (stem : Str) : dbFilename (stem ++ ".db".toList) = stem ++ ".db".toList := by
  simp [dbFilename, stripSuffix_eq_some.mpr]

theorem dbFilename_dbFilename (tag : Str) : dbFilename (dbFilename tag) = dbFilename tag := by
  obtain ⟨stem, heq, -⟩ := dbFilename_stem tag
  rw [heq, dbFilename_suffix]

theorem not_mem_dbFilename {tag : Str} {c : Char} (hc : c ∉ tag) (hdb : c ∉ ".db".toList) :
    c ∉ dbFilename tag := by
  obtain ⟨stem, heq, htag⟩ := dbFilename_stem tag
  have hstem : c ∉ stem := by
    rcases htag with rfl | rfl | rfl
    · exact fun h => hc (List.mem_append_left _ h)
    · exact fun h => hc (List.mem_append_left _ h)
    · exact hc
  rw [heq, List.mem_append, not_or]
  exact ⟨hstem, hdb⟩

theorem plainName_dbFilename {tag : Str} (h : PlainName tag) : PlainName (dbFilename tag) := by
  obtain ⟨stem, heq, -⟩ := dbFilename_stem tag
  have hlen : 3 ≤ (dbFilename tag).length := by simp [heq]
  refine ⟨?_, not_mem_dbFilename h.slash (by decide), ?_, ?_⟩
  all_goals
    intro hname
    rw [hname] at hlen
    simp at hlen

theorem stem_eq_nil_iff {tag stem : Str} (hne : tag ≠ []) (heq : dbFilename tag = stem ++ ".db".toList)
    (htag : tag = stem ++ ".db".toList ∨ tag = stem ++ ".DB".toList ∨ tag = stem) :
    stem = [] ↔ tag = ".db".toList ∨ tag = ".DB".toList := by
  constructor
  · rintro rfl
    rcases htag with htag | htag | htag
    · exact .inl htag
    · exact .inr htag
    · exact absurd htag hne
  · intro hdb
    have hname : dbFilename tag = ".db".toList := by
      rcases hdb with rfl | rfl
      · exact dbFilename_suffix []
      · decide
    rw [hname] at heq
    have hlen := congrArg List.length heq
    simpa using hlen

theorem extension_dbFilename {tag stem : Str} (h : PlainName tag) (heq : dbFilename tag = stem ++ ".db".toList) :
    extension (dbFilename tag) = if stem = [] then none else some "db".toList := by
  have hplain := plainName_dbFilename h
  rw [heq] at hplain ⊢
  exact hplain.extension_append (by decide)

/-- The name has an extension when it has a stem. -/
theorem ensurePath_dbFilename {tag : Str} (h : PlainName tag) :
    Db.ensurePath (dbFilename tag) = .ok () ↔ tag ≠ ".db".toList ∧ tag ≠ ".DB".toList := by
  obtain ⟨stem, heq, htag⟩ := dbFilename_stem tag
  rw [← not_or, ← stem_eq_nil_iff h.nonempty heq htag, Db.ensurePath, extension_dbFilename h heq]
  by_cases hstem : stem = []
  · simp [hstem]
  · simp [hstem]

theorem usable_iff {tag : Str} (h : ValidTag tag) :
    Usable tag ↔ tag ≠ ".db".toList ∧ tag ≠ ".DB".toList := by
  have hplain := plainName_dbFilename h.toPlainName
  constructor
  · intro hu
    exact (ensurePath_dbFilename h.toPlainName).mp hu.created
  · intro htag
    exact {
      slash := hplain.slash
      backslash := not_mem_dbFilename h.backslash (by decide)
      nul := not_mem_dbFilename h.nul (by decide)
      notDot := hplain.notDot
      notDotDot := hplain.notDotDot
      created := (ensurePath_dbFilename h.toPlainName).mpr htag
      again := dbFilename_dbFilename tag }

/-- An accepted tag names a usable file, unless it is nothing but the suffix. -/
theorem accepted_tag_usable_iff (cfg : Config) (h : validate cfg = .ok ()) :
    Usable cfg.tag ↔ cfg.tag ≠ ".db".toList ∧ cfg.tag ≠ ".DB".toList :=
  usable_iff ((validate_iff cfg).mp h).tag

theorem accepted_tag_usable_iff_sample : Usable sampleConfig.tag ↔
    sampleConfig.tag ≠ ".db".toList ∧ sampleConfig.tag ≠ ".DB".toList :=
  accepted_tag_usable_iff sampleConfig (by decide)

/-- A config with the tag `.db` is accepted, and no database can be created for it. -/
theorem suffix_tag_refused :
    validate { sampleConfig with tag := ".db".toList } = .ok () ∧
      Db.ensurePath (dbFilename ".db".toList) =
        .error ("database path must end in .db, got ".toList ++ ".db".toList) ∧
      ¬ ∀ cfg, validate cfg = .ok () → Usable cfg.tag := by
  have hok : validate { sampleConfig with tag := ".db".toList } = .ok () := by decide
  have htag : PlainName ".db".toList := ((validate_iff _).mp hok).tag.toPlainName
  have hname : dbFilename ".db".toList = ".db".toList := dbFilename_suffix []
  have hrefused : Db.ensurePath (dbFilename ".db".toList) =
      .error ("database path must end in .db, got ".toList ++ ".db".toList) := by
    have hext : extension (dbFilename ".db".toList) = if ([] : Str) = [] then none else some "db".toList :=
      extension_dbFilename htag hname
    rw [Db.ensurePath, hext, if_pos rfl, if_neg (by simp), hname]
  refine ⟨hok, hrefused, fun h => ?_⟩
  have hcreated := (h _ hok).created
  rw [hrefused] at hcreated
  cases hcreated

end Tperf.Config

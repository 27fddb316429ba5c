import Tperf.Lib.Parse

/-!
# File names

Rust's `Path` on Unix, where `/` separates components.
-/

namespace Tperf.Lib

/-- `s.strip_suffix(suffix)`. -/
def stripSuffix (suffix s : Str) : Option Str := s.dropSuffix? suffix

theorem stripSuffix_eq_some {suffix s t : Str} : stripSuffix suffix s = some t ↔ s = t ++ suffix := by
  simp [stripSuffix, List.dropSuffix?_eq_some_iff]

/-- `path.file_name()`: the last component, if it is a name. -/
def fileName (path : Str) : Option Str :=
  ((path.splitOn '/').filter fun c => c ≠ [] ∧ c ≠ ".".toList).getLast?.filter fun name => name ≠ "..".toList

/-- `path.extension()`: what follows the last dot of the file name, unless the dot is its first character. -/
def extension (path : Str) : Option Str := do
  let name ← fileName path
  let (before, after) ← rsplitOnce '.' name
  if before = [] then none else some after

/-- A name of a file, without a directory. -/
structure PlainName (name : Str) : Prop where
  nonempty : name ≠ []
  slash : '/' ∉ name
  notDot : name ≠ ".".toList
  notDotDot : name ≠ "..".toList

theorem PlainName.fileName {name : Str} (h : PlainName name) : fileName name = some name := by
  have hdots : name ≠ ".".toList ∧ name ≠ "..".toList := ⟨h.notDot, h.notDotDot⟩
  simpa [Lib.fileName, List.splitOn_eq_singleton h.slash, h.nonempty] using hdots

/-- A name has the extension `ext` when something stands before its last dot. -/
theorem PlainName.extension_append {stem ext : Str} (h : PlainName (stem ++ '.' :: ext)) (hdot : '.' ∉ ext) :
    extension (stem ++ '.' :: ext) = if stem = [] then none else some ext := by
  simp [extension, h.fileName, rsplitOnce_append hdot]

end Tperf.Lib

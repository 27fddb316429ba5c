import Tperf.Lib.Text

/-!
# Host patterns

`find_range`, `expand_pattern` and `expand_hostlist`. The scan works on the bytes of the pattern and
slices the string at byte offsets, as the source does; a slice off a boundary would panic.
-/

namespace Tperf.Config
open Lib

/-- The errors of the expansion, with the values their texts print. -/
inductive HostError
  /-- `unterminated '{' in host pattern {s:?}` -/
  | unterminated (s : Str)
  /-- `invalid ellipsis in {pat:?}` -/
  | invalidEllipsis (pat : Str)
  /-- `ellipsis start in {pat:?}` -/
  | ellipsisStart (pat : Str)
  /-- `ellipsis end in {pat:?}` -/
  | ellipsisEnd (pat : Str)
  /-- `ellipsis in {pat:?} expands to too many hosts ({n})` -/
  | tooManyHosts (pat : Str) (n : Nat)
  /-- `duplicate host {h} after expanding hostlist` -/
  | duplicateHost (h : Str)
  deriving DecidableEq, Repr

/-- `s.split_once("..")`. -/
def splitOnceDots : Str → Option (Str × Str)
  | '.' :: '.' :: t => some ([], t)
  | c :: t => (splitOnceDots t).map fun p => (c :: p.1, p.2)
  | [] => none

def isRangeInner (inner : Str) : Bool :=
  match splitOnceDots inner with
  | none => false
  | some (a, b) => if a.isEmpty || b.isEmpty then false else a.all Char.isDigit && b.all Char.isDigit

/-- The scan of `find_range` over the bytes from offset `i` on. -/
def findRangeFrom (s : Str) : Nat → List UInt8 → Outcome HostError (Option (Nat × Nat × Str × Str))
  | _, [] => .ok none
  | i, b :: rest =>
      if b ≠ '{'.toUInt8 then findRangeFrom s (i + 1) rest
      else match rest.findIdx? (· == '}'.toUInt8) with
        | none => .err (.unterminated s)
        | some rel =>
            let close := i + 1 + rel
            slice s (i + 1) close >>= fun inner =>
            if isRangeInner inner then
              sliceTo s i >>= fun start =>
              sliceFrom s (close + 1) >>= fun stop =>
              .ok (some (i, close, start, stop))
            else findRangeFrom s (i + 1) rest

/-- The first range: the offsets of its braces, and the text before and after it. -/
def findRange (s : Str) : Outcome HostError (Option (Nat × Nat × Str × Str)) :=
  findRangeFrom s 0 (utf8 s)

/-! ## What the scan finds -/

theorem open_brace_split {s : Str} {i : Nat} {rest : List UInt8}
    (h : (utf8 s).drop i = '{'.toUInt8 :: rest) :
    ∃ start suf, s = start ++ '{' :: suf ∧ byteLen start = i ∧ rest = utf8 suf :=
  utf8_drop_ascii h (by decide)

theorem close_brace_split {suf : Str} {rel : Nat}
    (h : (utf8 suf).findIdx? (· == '}'.toUInt8) = some rel) :
    ∃ inner stop, suf = inner ++ '}' :: stop ∧ byteLen inner = rel := by
  obtain ⟨hlt, heq, -⟩ := List.findIdx?_eq_some_iff_getElem.mp h
  have hdrop : (utf8 suf).drop rel = '}'.toUInt8 :: (utf8 suf).drop (rel + 1) := by
    rw [List.drop_eq_getElem_cons hlt, eq_of_beq heq]
  obtain ⟨inner, stop, rfl, hlen, -⟩ := utf8_drop_ascii hdrop (by decide)
  exact ⟨inner, stop, rfl, hlen⟩

/-- At an opening brace with a closing one behind it, the three slices succeed. -/
theorem findRangeFrom_braces (start inner stop : Str) (rest : List UInt8)
    (h : rest.findIdx? (· == '}'.toUInt8) = some (byteLen inner)) :
    findRangeFrom (start ++ '{' :: inner ++ '}' :: stop) (byteLen start) ('{'.toUInt8 :: rest) =
      if isRangeInner inner then
        .ok (some (byteLen start, byteLen start + 1 + byteLen inner, start, stop))
      else findRangeFrom (start ++ '{' :: inner ++ '}' :: stop) (byteLen start + 1) rest := by
  have hone : '{'.utf8Size = 1 ∧ '}'.utf8Size = 1 := by decide
  have hinner := slice_append (ε := HostError) (start ++ ['{']) inner ('}' :: stop)
  have hstart := sliceTo_append (ε := HostError) start ('{' :: inner ++ '}' :: stop)
  have hstop := sliceFrom_append (ε := HostError) (start ++ '{' :: inner ++ ['}']) stop
  simp only [byteLen_append, byteLen_cons, byteLen_nil, hone, Nat.add_zero, List.append_assoc,
    List.cons_append, List.nil_append, ← Nat.add_assoc] at hinner hstart hstop
  simp only [findRangeFrom, ne_eq, not_true_eq_false, ↓reduceIte, h, List.append_assoc,
    List.cons_append, hinner, hstart, hstop, Outcome.ok_bind]

theorem findRangeFrom_some {s : Str} {i lo hi : Nat} {rest : List UInt8} {start stop : Str}
    (hrest : rest = (utf8 s).drop i) (h : findRangeFrom s i rest = .ok (some (lo, hi, start, stop))) :
    ∃ inner, s = start ++ '{' :: inner ++ '}' :: stop ∧ isRangeInner inner = true ∧
      byteLen start = lo ∧ lo + 1 + byteLen inner = hi := by
  induction rest generalizing i with
  | nil => simp [findRangeFrom] at h
  | cons b rest ih =>
      have hnext : rest = (utf8 s).drop (i + 1) := by rw [← List.tail_drop, ← hrest]; rfl
      by_cases hb : b = '{'.toUInt8
      · subst hb
        cases hidx : rest.findIdx? (· == '}'.toUInt8) with
        | none => simp [findRangeFrom, hidx] at h
        | some rel =>
            obtain ⟨start', suf, rfl, rfl, rfl⟩ := open_brace_split hrest.symm
            obtain ⟨inner, stop', rfl, rfl⟩ := close_brace_split hidx
            have hbraces := findRangeFrom_braces start' inner stop' _ hidx
            simp only [List.append_assoc, List.cons_append] at hbraces h ih hnext ⊢
            rw [hbraces] at h
            split at h
            · rename_i hr
              simp only [Outcome.ok.injEq, Option.some.injEq, Prod.mk.injEq] at h
              obtain ⟨rfl, rfl, rfl, rfl⟩ := h
              exact ⟨inner, by simp, hr, rfl, rfl⟩
            · exact ih hnext h
      · rw [findRangeFrom, if_pos hb] at h
        exact ih hnext h

theorem findRange_some {s : Str} {lo hi : Nat} {start stop : Str}
    (h : findRange s = .ok (some (lo, hi, start, stop))) :
    ∃ inner, s = start ++ '{' :: inner ++ '}' :: stop ∧ isRangeInner inner = true ∧
      byteLen start = lo ∧ lo + 1 + byteLen inner = hi :=
  findRangeFrom_some (by simp) h

/-! ## Expansion -/

/-- The number of a host, zero-padded if `width` is positive. -/
def fmtNumber (width : Nat) (n : Int) : Str := if 0 < width then fmtIntPad width n else fmtInt n

/-- Pasting a number for the range leaves one opening brace less. -/
theorem count_pasted_lt {pat : Str} {lo hi : Nat} {start stop : Str}
    (h : findRange pat = .ok (some (lo, hi, start, stop))) (width : Nat) (n : Int) :
    (start ++ fmtNumber width n ++ stop).count '{' < pat.count '{' := by
  obtain ⟨inner, rfl, -, -, -⟩ := findRange_some h
  have hnum : (fmtNumber width n).count '{' = 0 := by
    rw [List.count_eq_zero]
    intro hmem
    unfold fmtNumber at hmem
    split at hmem
    · rcases mem_fmtIntPad hmem with hd | hd <;> revert hd <;> decide
    · rcases mem_fmtInt hmem with hd | hd <;> revert hd <;> decide
  simp only [List.count_append, hnum, List.count_cons_self]
  have hclose : List.count '{' ('}' :: stop) = List.count '{' stop := List.count_cons_of_ne (by decide)
  omega

/-- `(a..=b).collect::<Vec<i64>>()`, which panics when the elements take over `isize::MAX` bytes. -/
def collectRange (a b : Int) : Outcome HostError (List Int) :=
  if 2 ^ 63 - 1 < 8 * (b - a + 1) then .panic
  else .ok ((List.range (b - a + 1).toNat).map fun k => a + k)

def expandPattern (pat : Str) : Outcome HostError (List Str) :=
  match _h : findRange pat with
  | .err e => .err e
  | .panic => .panic
  | .ok none => .ok [pat]
  | .ok (some (lo, hi, start, stop)) =>
      slice pat (lo + 1) hi >>= fun spec =>
      match splitOnceDots spec with
      | none => .err (.invalidEllipsis pat)
      | some (aStr, bStr) =>
      match parseI64 aStr with
      | none => .err (.ellipsisStart pat)
      | some a =>
      match parseI64 bStr with
      | none => .err (.ellipsisEnd pat)
      | some b =>
      let width := if 1 < byteLen aStr ∧ aStr.head? = some '0' then byteLen aStr else 0
      (if a ≤ b then collectRange a b else List.reverse <$> collectRange b a) >>= fun nums =>
      if 10000 < nums.length then .err (.tooManyHosts pat nums.length)
      else nums.foldlM (fun out n =>
        expandPattern (start ++ fmtNumber width n ++ stop) >>= fun hs => .ok (out ++ hs)) []
termination_by pat.count '{'
decreasing_by exact count_pasted_lt _h _ _

theorem expandPattern_plain {pat : Str} (h : findRange pat = .ok none) :
    expandPattern pat = .ok [pat] := by
  rw [expandPattern]
  split <;> simp_all

/-- `seen.insert(h)` and `out.push(h)`: the names seen are the names of `out`. -/
def pushHost (out : List Str) (h : Str) : Outcome HostError (List Str) :=
  if h ∈ out then .err (.duplicateHost h) else .ok (out ++ [h])

def expandHostlist (items : List Str) : Outcome HostError (List Str) :=
  items.foldlM (fun out item => expandPattern item >>= fun hs => hs.foldlM pushHost out) []

end Tperf.Config

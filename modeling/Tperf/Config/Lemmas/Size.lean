import Tperf.Config.Size

/-!
# How `parse_size` reads a number and a unit
-/

namespace Tperf.Config
open Lib

/-! ## Letters, digits and spaces -/

theorem unit_letters {name : Str} {f : Nat} (h : (name, f) ∈ units) :
    ∀ c ∈ name, c ∈ ['b', 'k', 'i', 'm', 'g'] := by
  have hall : ∀ q ∈ units, ∀ c ∈ q.1, c ∈ ['b', 'k', 'i', 'm', 'g'] := by simp [units]
  exact hall _ h

theorem letter_of_toLower {c : Char} (h : c.toLower ∈ ['b', 'k', 'i', 'm', 'g']) :
    65 ≤ c.toNat ∧ c.toNat ≤ 122 := by
  unfold Char.toLower at h
  split at h
  · rename_i hc
    have hlo : 65 ≤ c.toNat := hc.1
    have hhi : c.toNat ≤ 90 := hc.2
    exact ⟨hlo, by omega⟩
  · simp only [List.mem_cons, List.not_mem_nil, or_false] at h
    rcases h with rfl | rfl | rfl | rfl | rfl <;> decide

theorem Size.letter (t : Size) {c : Char} (hc : c ∈ t.unit) : 65 ≤ c.toNat ∧ c.toNat ≤ 122 :=
  letter_of_toLower (unit_letters t.known _ (List.mem_map.mpr ⟨c, hc, rfl⟩))

theorem isWhite_letter {c : Char} (h : 65 ≤ c.toNat ∧ c.toNat ≤ 122) : isWhite c = false := by
  simp only [isWhite, Bool.or_eq_false_iff, Bool.and_eq_false_iff, decide_eq_false_iff_not, beq_eq_false_iff_ne]
  omega

theorem isDigit_letter {c : Char} (h : 65 ≤ c.toNat) : c.isDigit = false := by
  rw [Bool.eq_false_iff]
  intro hc
  have := digit_toNat hc
  omega

theorem isSizeByte_ofNat {n : Nat} (h : n < 256) :
    isSizeByte (UInt8.ofNat n) = ((48 ≤ n && n ≤ 57) || n == 46) := by
  have hn : (UInt8.ofNat n).toNat = n := by
    rw [UInt8.toNat_ofNat']
    omega
  have hdot : (UInt8.ofNat n == '.'.toUInt8) = (n == 46) := by
    rw [Bool.eq_iff_iff, beq_iff_eq, beq_iff_eq, ← UInt8.toNat_inj, hn]
    rfl
  rw [isSizeByte, hdot]
  simp only [UInt8.le_iff_toNat_le, hn]
  rfl

/-! ## What is left after `trim` -/

namespace Size

variable (t : Size)

/-- What stands behind the number. -/
def tail : Str := if t.unit = [] then [] else List.replicate t.spaces ' ' ++ t.unit

theorem number_head {c : Char} {s : Str} (h : (t.number.val ++ s).head? = some c) : c.isDigit = true := by
  obtain ⟨d, ds, hd⟩ := List.exists_cons_of_ne_nil t.number.property.1
  have hall := t.number.property.2
  rw [hd] at h hall
  simp only [List.cons_append, List.head?_cons, Option.some.injEq] at h
  subst h
  exact List.all_eq_true.mp hall d List.mem_cons_self

theorem number_last {c : Char} (h : t.number.val.getLast? = some c) : c.isDigit = true :=
  List.all_eq_true.mp t.number.property.2 c (List.mem_of_getLast? h)

theorem isWhite_spaces {c : Char} (h : c ∈ List.replicate t.spaces ' ') : isWhite c = true := by
  rw [List.eq_of_mem_replicate h]
  decide

theorem trim_text : trim t.text = t.number.val ++ t.tail := by
  have hhead : t.text.dropWhile isWhite = t.text :=
    dropWhile_append_of_head t.number.property.1 fun c hc =>
      isWhite_digit (t.number_head (s := []) (by rw [List.append_nil]; exact hc))
  rw [trim, hhead, text, tail]
  by_cases hu : t.unit = []
  · rw [if_pos hu, hu]
    simp only [List.append_nil]
    rw [rdropWhile_append_all fun c hc => t.isWhite_spaces hc]
    exact rdropWhile_append_of_last (s := []) t.number.property.1 fun c hc =>
      isWhite_digit (t.number_last hc)
  · rw [if_neg hu, ← List.append_assoc]
    exact rdropWhile_append_of_last hu fun c hc => isWhite_letter (t.letter (List.mem_of_getLast? hc))

theorem trim_tail : trim t.tail = t.unit := by
  rw [tail]
  by_cases hu : t.unit = []
  · rw [if_pos hu, hu]
    rfl
  · have hunit : trim t.unit = t.unit := trim_self
      (fun c hc => isWhite_letter (t.letter (List.mem_of_head? hc)))
      (fun c hc => isWhite_letter (t.letter (List.mem_of_getLast? hc)))
    rw [if_neg hu, trim, List.dropWhile_append_of_pos fun c hc => t.isWhite_spaces hc]
    exact hunit

/-! ## The scan of the number -/

theorem tail_head {c : Char} (h : t.tail.head? = some c) :
    c.toNat = 32 ∨ 65 ≤ c.toNat ∧ c.toNat ≤ 122 := by
  have hmem := List.mem_of_head? h
  rw [tail] at hmem
  split at hmem
  · simp at hmem
  · rcases List.mem_append.mp hmem with hc | hc
    · rw [List.eq_of_mem_replicate hc]
      exact .inl rfl
    · exact .inr (t.letter hc)

theorem scan_number : ((utf8 (t.number.val ++ t.tail)).takeWhile isSizeByte).length =
    byteLen t.number.val := by
  have hnumber : ∀ b ∈ utf8 t.number.val, isSizeByte b = true := by
    intro b hb
    obtain ⟨c, hc, hb⟩ := List.mem_flatMap.mp hb
    have hdigit := digit_toNat (List.all_eq_true.mp t.number.property.2 c hc)
    rw [utf8EncodeChar_of_lt (by omega), List.mem_singleton] at hb
    rw [hb, isSizeByte_ofNat (by omega)]
    simp only [Bool.or_eq_true, Bool.and_eq_true, decide_eq_true_eq]
    exact .inl hdigit
  have htail : (utf8 t.tail).takeWhile isSizeByte = [] := by
    cases ht : t.tail with
    | nil => rfl
    | cons c s =>
        have hc : c.toNat = 32 ∨ 65 ≤ c.toNat ∧ c.toNat ≤ 122 := t.tail_head (by rw [ht]; rfl)
        have hbyte : isSizeByte (UInt8.ofNat c.toNat) = false := by
          rw [isSizeByte_ofNat (by omega)]
          simp only [Bool.or_eq_false_iff, Bool.and_eq_false_iff, decide_eq_false_iff_not, beq_eq_false_iff_ne]
          omega
        rw [utf8_cons, utf8EncodeChar_of_lt (by omega), List.singleton_append]
        exact List.takeWhile_cons_of_neg (by rw [hbyte]; exact Bool.false_ne_true)
  rw [utf8_append, List.takeWhile_append_of_pos hnumber, htail, List.append_nil, length_utf8]

end Size

/-! ## The two paths -/

/-- The check and the cast at the end of the unit path. -/
def checked (s : Str) (v : F64) : Outcome SizeError UInt64 :=
  if v.isFinite = false ∨ u64MaxAsF64.lt v = true then .err (.outOfRange s) else .ok v.round.toU64

theorem parseSize_number {t : Size} (hu : t.unit = []) (hv : t.number.value < 2 ^ 64) :
    parseSize t.text = .ok (UInt64.ofNat t.number.value) := by
  have htrim : trim t.text = t.number.val := by rw [t.trim_text, Size.tail, if_pos hu, List.append_nil]
  have hparse : parseUnsigned (2 ^ 64) t.number.val = some t.number.value := by
    rw [parseUnsigned_digits t.number.property.1 t.number.property.2]
    exact if_pos hv
  simp only [parseSize, htrim, if_neg t.number.property.1, hparse]

theorem sizeUnit_known {name : Str} {f : Nat} (h : (name, f) ∈ units) :
    sizeUnit name = some (.finite f) := by
  have hall : ∀ q ∈ units, sizeUnit q.1 = some (.finite q.2) := by decide +kernel
  exact hall _ h

theorem parseSize_unit {t : Size} (h : t.unit ≠ [] ∨ 2 ^ 64 ≤ t.number.value) :
    parseSize t.text =
      checked (t.number.val ++ t.tail) ((F64.ofRat t.number.value).mul (.finite t.factor)) := by
  have hne : t.number.val ++ t.tail ≠ [] := by simp [t.number.property.1]
  have hparse : parseUnsigned (2 ^ 64) (t.number.val ++ t.tail) = none := by
    by_cases hu : t.unit = []
    · rw [Size.tail, if_pos hu, List.append_nil,
        parseUnsigned_digits t.number.property.1 t.number.property.2]
      exact if_neg (Nat.not_lt.mpr (h.resolve_left (absurd hu)))
    · obtain ⟨c, u, hcu⟩ := List.exists_cons_of_ne_nil hu
      have hc : c ∈ t.unit := by rw [hcu]; exact List.mem_cons_self
      have hmem : c ∈ t.number.val ++ t.tail := by
        rw [Size.tail, if_neg hu]
        simp [hc]
      refine parseUnsigned_none hmem (isDigit_letter (t.letter hc).1) fun hplus => ?_
      have := t.number_head hplus
      cases this
  have hscan := t.scan_number
  have hpos : ¬ byteLen t.number.val = 0 := by
    rw [byteLen_digits t.number.property.2]
    simp [t.number.property.1]
  have hfloat : parseF64 t.number.val = some (F64.ofRat t.number.value) := by
    have hdigits : parseDigits t.number.val = some t.number.value := if_pos t.number.property
    have hdot : '.' ∉ t.number.val := fun h => by
      have := List.all_eq_true.mp t.number.property.2 '.' h
      cases this
    rw [parseF64, splitOnce_none hdot, hdigits]
    rfl
  have hnonneg : (F64.ofRat t.number.value).lt (.finite 0) = false := by
    obtain ⟨r, hr, -⟩ := F64.nearest_natCast t.number.value
    rw [F64.ofRat, hr]
    split
    · simp [F64.lt]
    · rfl
  simp only [parseSize, t.trim_text, if_neg hne, hparse, hscan, if_neg hpos, sliceTo_append,
    sliceFrom_append, Outcome.ok_bind, hfloat, hnonneg, t.trim_tail, sizeUnit_known t.known]
  rfl

end Tperf.Config

import Tperf.Lib.Bytes

/-!
# Length-prefixed frames

A frame is the length of its payload in four big-endian bytes, and the payload. A reader rejects the
length 0 and lengths above its limit.
-/

namespace Tperf.Lib

universe u v w

/-! ## Repeated reading -/

/-- `read`, called on what the last call left, returns `as` and then fails with `e`. -/
inductive Reads {β : Type u} {α : Type v} {ε : Type w} (read : β → Except ε (α × β)) :
    β → List α → ε → Prop
  | stop {b : β} {e : ε} : read b = .error e → Reads read b [] e
  | next {b b' : β} {a : α} {as : List α} {e : ε} :
      read b = .ok (a, b') → Reads read b' as e → Reads read b (a :: as) e

theorem Reads.unique {β : Type u} {α : Type v} {ε : Type w} {read : β → Except ε (α × β)} {b : β}
    {as as' : List α} {e e' : ε} (h : Reads read b as e) (h' : Reads read b as' e') :
    as = as' ∧ e = e' := by
  induction h generalizing as' with
  | stop hb =>
      cases h' with
      | stop hb' => rw [hb] at hb'; cases hb'; exact ⟨rfl, rfl⟩
      | next hb' _ => rw [hb] at hb'; cases hb'
  | next hb _ ih =>
      cases h' with
      | stop hb' => rw [hb] at hb'; cases hb'
      | next hb' h' =>
          rw [hb] at hb'
          cases hb'
          obtain ⟨rfl, rfl⟩ := ih h'
          exact ⟨rfl, rfl⟩

/-! ## Frames -/

def frame (data : List UInt8) : List UInt8 := beBytes 4 data.length ++ data

@[simp] theorem frame_length (data : List UInt8) : (frame data).length = 4 + data.length := by
  simp [frame]

theorem frame_ne_nil (data : List UInt8) : frame data ≠ [] := by
  intro h
  simpa using congrArg List.length h

inductive DeframeErr
  | eof
  | invalid (len : Nat)
  deriving DecidableEq, Repr

/-- The payload of the first frame, and what follows it. -/
def deframe (limit : Nat) (bs : List UInt8) : Except DeframeErr (List UInt8 × List UInt8) :=
  if bs.length < 4 then .error .eof
  else
    let len := ofBe (bs.take 4)
    if len = 0 ∨ limit < len then .error (.invalid len)
    else if (bs.drop 4).length < len then .error .eof
    else .ok ((bs.drop 4).take len, (bs.drop 4).drop len)

section
variable {limit : Nat} {data : List UInt8}

/-- Reading behind a complete length field. -/
theorem deframe_header (hlim : limit < 256 ^ 4) (hne : data ≠ []) (hle : data.length ≤ limit)
    (bs : List UInt8) :
    deframe limit (beBytes 4 data.length ++ bs) =
      if bs.length < data.length then .error .eof
      else .ok (bs.take data.length, bs.drop data.length) := by
  have h4 : (beBytes 4 data.length).length = 4 := beBytes_length _ _
  have htake : (beBytes 4 data.length ++ bs).take 4 = beBytes 4 data.length :=
    List.take_left' h4
  have hdrop : (beBytes 4 data.length ++ bs).drop 4 = bs := List.drop_left' h4
  have hlen : ofBe (beBytes 4 data.length) = data.length :=
    ofBe_beBytes_of_lt (Nat.lt_of_le_of_lt hle hlim)
  have hlong : ¬ (beBytes 4 data.length ++ bs).length < 4 := by
    rw [List.length_append, h4]; omega
  have hok : ¬ (data.length = 0 ∨ limit < data.length) := by
    rintro (h | h)
    · exact hne (List.length_eq_zero_iff.mp h)
    · exact absurd hle (Nat.not_le.mpr h)
  rw [deframe, if_neg hlong]
  simp only [htake, hdrop, hlen]
  rw [if_neg hok]

theorem deframe_frame (hlim : limit < 256 ^ 4) (hne : data ≠ []) (hle : data.length ≤ limit)
    (rest : List UInt8) : deframe limit (frame data ++ rest) = .ok (data, rest) := by
  rw [frame, List.append_assoc, deframe_header hlim hne hle, if_neg (by simp), List.take_left,
    List.drop_left]

/-- A frame that is not complete yet. -/
theorem deframe_cut (hlim : limit < 256 ^ 4) (hne : data ≠ []) (hle : data.length ≤ limit)
    {bs : List UInt8} (hpre : bs <+: frame data) (hbs : bs ≠ frame data) :
    deframe limit bs = .error .eof := by
  have hlt : bs.length < (frame data).length :=
    Nat.lt_of_le_of_ne hpre.length_le fun h => hbs (hpre.eq_of_length h)
  by_cases h4 : bs.length < 4
  · rw [deframe, if_pos h4]
  · have hsplit : beBytes 4 data.length ++ bs.drop 4 = bs := by
      rw [List.prefix_iff_eq_take] at hpre
      rw [hpre, frame, List.take_append, beBytes_length, List.drop_append,
        List.take_of_length_le (by rw [beBytes_length]; omega)]
      simp
    rw [← hsplit, deframe_header hlim hne hle, if_pos]
    rw [frame_length] at hlt
    rw [List.length_drop]
    omega

end

/-- What a successful read takes. -/
theorem deframe_ok {limit : Nat} {bs data rest : List UInt8} (h : deframe limit bs = .ok (data, rest)) :
    1 ≤ ofBe (bs.take 4) ∧ ofBe (bs.take 4) ≤ limit ∧ 4 + ofBe (bs.take 4) ≤ bs.length ∧
      data = (bs.drop 4).take (ofBe (bs.take 4)) ∧ rest = bs.drop (4 + ofBe (bs.take 4)) := by
  rw [deframe] at h
  split at h
  · cases h
  · rename_i h4
    simp only at h
    split at h
    · cases h
    · rename_i hlen
      split at h
      · cases h
      · rename_i hshort
        rw [List.length_drop] at hshort
        obtain ⟨rfl, rfl⟩ : _ = data ∧ _ = rest := by simpa using h
        exact ⟨by omega, by omega, by omega, rfl, rfl⟩

/-! ## Streams of frames -/

/-- A proper prefix of some strings, one after the other, ends within one of them. -/
theorem exists_cut {α : Type u} {fs : List (List α)} {p : List α} (hp : p <+: fs.flatten)
    (hne : p ≠ fs.flatten) :
    ∃ (k : Nat) (f rest : List α), fs[k]? = some f ∧ p = (fs.take k).flatten ++ rest ∧ rest <+: f ∧
      rest ≠ f := by
  induction fs generalizing p with
  | nil => exact absurd (List.prefix_nil.mp hp) hne
  | cons f fs ih =>
      rw [List.flatten_cons] at hp hne
      by_cases hlt : p.length < f.length
      · refine ⟨0, f, p, rfl, rfl, ?_, fun h => absurd (congrArg List.length h) (Nat.ne_of_lt hlt)⟩
        exact List.prefix_of_prefix_length_le hp (List.prefix_append f _) (Nat.le_of_lt hlt)
      · obtain ⟨p', rfl⟩ := List.prefix_of_prefix_length_le (List.prefix_append f _) hp
          (Nat.not_lt.mp hlt)
        obtain ⟨k, g, rest, hg, rfl, hpre, hrest⟩ := ih ((List.prefix_append_right_inj f).mp hp)
          fun h => hne (by rw [h])
        exact ⟨k + 1, g, rest, hg, by simp, hpre, hrest⟩

section
variable {γ : Type v} {α : Type u} {ε : Type w} {read : List UInt8 → Except ε (α × List UInt8)}
  {payload : γ → List UInt8} {value : γ → α}

/-- What is read from frames one after the other, if `read` reads each of them. -/
theorem Reads.frames {xs : List γ} {as : List α} {rest : List UInt8} {e : ε}
    (hread : ∀ x ∈ xs, ∀ r, read (frame (payload x) ++ r) = .ok (value x, r))
    (hrest : Reads read rest as e) :
    Reads read ((xs.map fun x => frame (payload x)).flatten ++ rest) (xs.map value ++ as) e := by
  induction xs with
  | nil => exact hrest
  | cons x xs ih =>
      rw [List.map_cons, List.flatten_cons, List.append_assoc]
      exact .next (hread x (List.mem_cons_self ..) _)
        (ih fun x' hx' => hread x' (List.mem_cons_of_mem x hx'))

/-- A reader finds the payloads of whole frames, and then the end. -/
theorem reads_deframe {limit : Nat} (hlim : limit < 256 ^ 4) {ds : List (List UInt8)}
    {rest d : List UInt8} (hds : ∀ d ∈ ds, d ≠ [] ∧ d.length ≤ limit)
    (hd : d ≠ []) (hle : d.length ≤ limit) (hpre : rest <+: frame d) (hne : rest ≠ frame d) :
    Reads (deframe limit) ((ds.map frame).flatten ++ rest) ds .eof := by
  have h : Reads (deframe limit) ((ds.map fun d => frame (id d)).flatten ++ rest) (ds.map id ++ [])
      .eof :=
    Reads.frames (fun d hd r => deframe_frame hlim (hds d hd).1 (hds d hd).2 r)
      (.stop (deframe_cut hlim hd hle hpre hne))
  simpa using h

end

end Tperf.Lib

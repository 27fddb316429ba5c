import Tperf.Proto.Frame

/-!
# What is written is read
-/

namespace Tperf.Proto
open Lib

variable {J : SerdeJson}

/-- The stream after `write_frame`. -/
def writeOn (J : SerdeJson) (out : List UInt8) (m : Msg) : List UInt8 :=
  match writeFrame J m with
  | .ok bs => out ++ bs
  | .error _ => out

def fits (J : SerdeJson) (m : Msg) : Bool := decide ((J.toVec m).length ≤ maxFrame)

def frames (J : SerdeJson) (ms : List Msg) : List (List UInt8) := ms.map fun m => frame (J.toVec m)

theorem writeOn_eq (out : List UInt8) (m : Msg) :
    writeOn J out m = out ++ (frames J ([m].filter (fits J))).flatten := by
  rw [writeOn, writeFrame]
  by_cases h : (J.toVec m).length > maxFrame
  · have hfit : fits J m = false := decide_eq_false (Nat.not_le.mpr h)
    rw [if_pos h, List.filter_cons_of_neg (by rw [hfit]; simp)]
    simp [frames]
  · have hfit : fits J m = true := decide_eq_true (Nat.not_lt.mp h)
    rw [if_neg h, List.filter_cons_of_pos hfit]
    simp [frames]

theorem writeAll_eq (out : List UInt8) (ms : List Msg) :
    ms.foldl (writeOn J) out = out ++ (frames J (ms.filter (fits J))).flatten := by
  induction ms generalizing out with
  | nil => simp [frames]
  | cons m ms ih =>
      have h : (m :: ms).filter (fits J) = [m].filter (fits J) ++ ms.filter (fits J) :=
        List.filter_append [m] ms
      rw [List.foldl_cons, ih, writeOn_eq, h, List.append_assoc, frames, frames, frames,
        List.map_append, List.flatten_append]

/-- What is written frame by frame is read back, but for the messages that do not fit; a stream that is cut off
gives the messages of its whole frames; and a frame that is read had the length that it announced. -/
theorem frames_roundtrip {ms : List Msg} (hJ : ∀ m ∈ ms, J.ReadsBack m) :
    ms.foldl (writeOn J) [] = (frames J (ms.filter (fits J))).flatten ∧
    (∀ m, fits J m = false → writeFrame J m = .error (.tooLarge (J.toVec m).length)) ∧
    Reads (readFrame J) (ms.foldl (writeOn J) []) (ms.filter (fits J)) .eof ∧
    (∀ p, p <+: ms.foldl (writeOn J) [] → p ≠ ms.foldl (writeOn J) [] →
      ∃ k m rest, (ms.filter (fits J))[k]? = some m ∧
        p = (frames J ((ms.filter (fits J)).take k)).flatten ++ rest ∧
        rest <+: frame (J.toVec m) ∧ rest ≠ frame (J.toVec m) ∧
        Reads (readFrame J) p ((ms.filter (fits J)).take k) .eof) ∧
    (∀ bs m rest, readFrame J bs = .ok (m, rest) →
      1 ≤ ofBe (bs.take 4) ∧ ofBe (bs.take 4) ≤ maxFrame ∧
        4 + ofBe (bs.take 4) ≤ bs.length ∧ rest = bs.drop (4 + ofBe (bs.take 4))) := by
  have hwritten := writeAll_eq (J := J) [] ms
  rw [List.nil_append] at hwritten
  have hfit : ∀ m ∈ ms.filter (fits J), J.ReadsBack m ∧ (J.toVec m).length ≤ maxFrame := by
    intro m hm
    obtain ⟨hm, hf⟩ := List.mem_filter.mp hm
    exact ⟨hJ m hm, of_decide_eq_true hf⟩
  have hread : ∀ m ∈ ms.filter (fits J), ∀ r,
      readFrame J (frame (J.toVec m) ++ r) = .ok (m, r) :=
    fun m hm r => readFrame_frame (hfit m hm).1 (hfit m hm).2 r
  -- some of the messages, and then a rest that holds no frame
  have htake : ∀ (l : List Msg) (rest : List UInt8), (∀ m ∈ l, m ∈ ms.filter (fits J)) →
      readFrame J rest = .error .eof →
      Reads (readFrame J) ((frames J l).flatten ++ rest) l .eof := by
    intro l rest hl hrest
    have h : Reads (readFrame J) ((l.map fun m => frame (J.toVec m)).flatten ++ rest)
        (l.map id ++ []) .eof := Reads.frames (fun m hm r => hread m (hl m hm) r) (.stop hrest)
    simpa [frames] using h
  refine ⟨hwritten, fun m hm => ?_, ?_, fun p hp hne => ?_, fun bs m rest h => ?_⟩
  · rw [writeFrame, if_pos (Nat.not_le.mp (of_decide_eq_false hm))]
  · have := htake (ms.filter (fits J)) [] (fun _ h => h) readFrame_nil
    rwa [List.append_nil, ← hwritten] at this
  · rw [hwritten] at hp hne
    obtain ⟨k, f, rest, hf, hp, hpre, hrest⟩ := exists_cut hp hne
    rw [frames, List.getElem?_map, Option.map_eq_some_iff] at hf
    obtain ⟨m, hm, rfl⟩ := hf
    have hp' : p = (frames J ((ms.filter (fits J)).take k)).flatten ++ rest := by
      rw [hp, frames, frames, List.map_take]
    obtain ⟨hback, hle⟩ := hfit m (List.mem_of_getElem? hm)
    have hstop := readFrame_cut hback.1 hle hpre hrest
    refine ⟨k, m, rest, hm, hp', hpre, hrest, ?_⟩
    rw [hp']
    exact htake _ rest (fun m' hm' => List.mem_of_mem_take hm') hstop
  · rw [readFrame] at h
    split at h
    · cases h
    · cases h
    · rename_i buf rest' hd
      obtain ⟨h₁, h₂, h₃, _, rfl⟩ := deframe_ok hd
      split at h
      · cases h
        exact ⟨h₁, h₂, h₃, rfl⟩
      · cases h

theorem frames_roundtrip_acks :
    Reads (readFrame sampleJson)
      (([.ack "start".toList, .metrics sampleWindow, .ack "stop".toList] : List Msg).foldl
        (writeOn sampleJson) [])
      [.ack "start".toList, .metrics sampleWindow, .ack "stop".toList] .eof := by
  have hback : ∀ m ∈ ([.ack "start".toList, .metrics sampleWindow, .ack "stop".toList] : List Msg),
      sampleJson.ReadsBack m := by
    intro m hm
    have h : sampleJson.toVec m ≠ [] ∧ sampleJson.fromSlice (sampleJson.toVec m) = some m := by
      simp only [List.mem_cons, List.not_mem_nil, or_false] at hm
      rcases hm with rfl | rfl | rfl <;> decide +kernel
    exact h
  have hall : ([.ack "start".toList, .metrics sampleWindow, .ack "stop".toList] : List Msg).filter
      (fits sampleJson) = [.ack "start".toList, .metrics sampleWindow, .ack "stop".toList] := by
    decide +kernel
  have := (frames_roundtrip hback).2.2.1
  rwa [hall] at this

end Tperf.Proto

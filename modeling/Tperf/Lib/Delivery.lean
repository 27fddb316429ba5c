import Tperf.Lib.Framing

/-!
# The two ends of a stream of frames

What a writer has put on a stream, and what a reader has taken from it.
-/

namespace Tperf.Lib

universe u v w x

variable {γ : Type u} {β : Type v} {α : Type w} {ε : Type x}

/-- A stream that ends, behind whole frames, with a piece of one more at most. -/
structure Cut (ok : γ → Prop) (frame : γ → List β) (sent : List γ) (out : List β) : Prop where
  fits : ∀ m ∈ sent, ok m
  out : ∃ rest, out = (sent.map frame).flatten ++ rest ∧
    (rest = [] ∨ ∃ m, ok m ∧ rest <+: frame m ∧ rest ≠ frame m)

/-- The reader has taken `n` bytes: the frames of the first messages, which it has got. -/
structure Taken (frame : γ → List β) (value : γ → α) (sent : List γ) (got : List α) (n : Nat) : Prop where
  first : got <+: sent.map value
  bytes : n = ((sent.take got.length).map frame).flatten.length

variable {ok : γ → Prop} {frame : γ → List β} {value : γ → α} {sent : List γ} {got : List α} {n : Nat}
  {out : List β}

theorem Cut.whole (h : ∀ m ∈ sent, ok m) : Cut ok frame sent (sent.map frame).flatten where
  fits := h
  out := ⟨[], by simp⟩

theorem Taken.init : Taken frame value sent [] 0 := ⟨List.nil_prefix, by simp⟩

theorem Taken.length_le (h : Taken frame value sent got n) : got.length ≤ sent.length := by
  simpa using h.first.length_le

/-- More is written. -/
theorem Taken.grow (h : Taken frame value sent got n) {sent' : List γ} (hs : sent <+: sent') :
    Taken frame value sent' got n where
  first := h.first.trans (hs.map value)
  bytes := by
    obtain ⟨more, rfl⟩ := hs
    rw [h.bytes, List.take_append_of_le_length h.length_le]

/-- What a read returns is the next message that was written. -/
theorem Taken.next {read : List β → Except ε (α × List β)} (h : Taken frame value sent got n)
    (hcut : Cut ok frame sent out)
    (hread : ∀ m ∈ sent, ∀ r, read (frame m ++ r) = .ok (value m, r))
    (hstop : ∀ m r, ok m → r <+: frame m → r ≠ frame m → ∃ e, read r = .error e)
    (hnil : ∃ e, read [] = .error e) {a : α} {r : List β} (hr : read (out.drop n) = .ok (a, r)) :
    ∃ m, sent[got.length]? = some m ∧ value m = a ∧
      Taken frame value sent (got ++ [a]) (out.length - r.length) := by
  obtain ⟨rest, rfl, hrest⟩ := hcut.out
  have hsplit : (sent.map frame).flatten =
      ((sent.take got.length).map frame).flatten ++ ((sent.drop got.length).map frame).flatten := by
    rw [← List.flatten_append, ← List.map_append, List.take_append_drop]
  have hdrop : ((sent.map frame).flatten ++ rest).drop n = ((sent.drop got.length).map frame).flatten ++ rest := by
    rw [hsplit, h.bytes, List.append_assoc, List.drop_left]
  rw [hdrop] at hr
  cases hmore : sent.drop got.length with
  | nil =>
      rw [hmore, List.map_nil, List.flatten_nil, List.nil_append] at hr
      rcases hrest with rfl | ⟨m, hm, hpre, hne⟩
      · obtain ⟨e, he⟩ := hnil
        rw [he] at hr; cases hr
      · obtain ⟨e, he⟩ := hstop m rest hm hpre hne
        rw [he] at hr; cases hr
  | cons m more =>
      have hget : sent[got.length]? = some m := by
        have := congrArg List.head? hmore
        simpa [List.head?_drop] using this
      rw [hmore, List.map_cons, List.flatten_cons, List.append_assoc, hread m (List.mem_of_getElem? hget)] at hr
      obtain ⟨rfl, rfl⟩ : value m = a ∧ (more.map frame).flatten ++ rest = r := by simpa using hr
      have htake : sent.take (got.length + 1) = sent.take got.length ++ [m] := by
        rw [List.take_add_one, hget]
        rfl
      refine ⟨m, hget, rfl, ?_, ?_⟩
      · have hlen := h.length_le
        obtain ⟨ms, hms⟩ := h.first
        have hnext : ms.head? = some (value m) := by
          have : (got ++ ms)[got.length]? = some (value m) := by rw [hms, List.getElem?_map, hget]; rfl
          simpa [List.getElem?_append_right, List.head?_eq_getElem?] using this
        obtain ⟨ms', rfl⟩ := List.head?_eq_some_iff.mp hnext
        exact ⟨ms', by rw [← hms]; simp⟩
      · have hlen : (got ++ [value m]).length = got.length + 1 := by simp
        rw [hsplit, hmore, hlen, htake]
        simp only [List.map_append, List.map_cons, List.map_nil, List.flatten_append, List.flatten_cons,
          List.flatten_nil, List.length_append, List.append_nil]
        omega

end Tperf.Lib

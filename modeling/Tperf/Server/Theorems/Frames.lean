import Tperf.Server.Lemmas.Stream

/-!
# The socket of a session carries whole frames
-/

namespace Tperf.Server
open Lib Proto

variable {J : SerdeJson}

/-- The bytes written so far are whole frames and at most one proper prefix of a frame, what is
written later continues that prefix, and a reader reads the messages of the whole frames and then
finds the end of the stream. -/
def Session.Whole (J : SerdeJson) (M : Machine Session SessionLabel) (s : Session) : Prop :=
  ∃ rest, s.out = (s.sent.map (Session.bytes J)).flatten ++ rest ∧
    (rest = [] ∨ ∃ m bs, writeFrame J m = .ok bs ∧ rest <+: bs ∧ rest ≠ bs ∧
      ∀ ks t, M.run s ks = some t → t.sockErr = false →
        ∃ q, t.out = s.out ++ q ∧ (rest ++ q <+: bs ∨ bs <+: rest ++ q)) ∧
    ((∀ m, J.toVec m ≠ []) → (∀ x ∈ s.sent, J.fromSlice (J.toVec x.msg) = some x.msg) →
      Reads (readFrame J) s.out (s.sent.map Sent.msg) .eof)

theorem Session.init_wire : Session.init.wire = Wire.init := rfl

theorem Session.bytes_ne_nil (x : Sent) : Session.bytes J x ≠ [] := frame_ne_nil _

/-- As long as no metrics task is aborted amid its frame and the session goes on, the stream is made of whole
frames. -/
theorem frames_whole {s : Session} {ls : List SessionLabel}
    (h : ((session J).guard fun s l => s.tears l = false).run .init ls = some s)
    (hok : s.sockErr = false) :
    s.Whole J ((session J).guard fun s l => s.tears l = false) := by
  have hinv : s.Inv := Machine.guard_invariant (fun hi _ hs => hi.step hs) h Session.init_inv
  obtain ⟨ks, hw⟩ := Session.run_sim Session.init_inv h hok
  have hframed : Wire.Framed (Session.fits J) (Session.bytes J) s.wire :=
    Wire.run_framed Session.bytes_ne_nil (Session.init_wire ▸ Wire.framed_init) hw
  obtain ⟨rest, hout, hrest⟩ := hframed.whole
  refine ⟨rest, hout, ?_, fun hne hback => ?_⟩
  · rcases hrest with hnil | ⟨x, hfit, hpre, hproper, hlater⟩
    · exact .inl hnil
    · refine .inr ⟨x.msg, Session.bytes J x, writeFrame_eq_ok.mpr ⟨of_decide_eq_true hfit, rfl⟩, hpre,
        hproper, fun ks t ht hok => ?_⟩
      obtain ⟨ks', ht'⟩ := Session.run_sim hinv ht hok
      exact hlater ks' t.wire ht'
  · have hread : ∀ x ∈ s.sent, ∀ r,
        readFrame J (frame (J.toVec x.msg) ++ r) = .ok (x.msg, r) := fun x hx r =>
      readFrame_frame ⟨hne _, hback x hx⟩ (of_decide_eq_true (hframed.sent x hx)) r
    have hstop : readFrame J rest = .error .eof := by
      rcases hrest with rfl | ⟨x, hfit, hpre, hproper, _⟩
      · exact readFrame_nil
      · exact readFrame_cut (hne _) (of_decide_eq_true hfit) hpre hproper
    have hall : Reads (readFrame J) ((s.sent.map (Session.bytes J)).flatten ++ rest)
        (s.sent.map Sent.msg ++ []) .eof := Reads.frames hread (.stop hstop)
    rw [List.append_nil] at hall
    rw [show s.out = _ from hout]
    exact hall

/-! ## Sample runs -/

/-- A start is answered, and `k` bytes of the first window are written. -/
def openingRun (k : Nat) : List SessionLabel :=
  .recv (.start sampleConfig ⟨"a".toList, 0, [], []⟩) :: List.replicate 8 .startStep ++
    [.lockMain, .write 30, .emit 0 sampleWindow, .lockMetrics 0, .write k]

theorem frames_whole_opening :
    ∃ s, ((session sampleJson).guard fun s l => s.tears l = false).run .init (openingRun 100) = some s ∧
      s.out.length = 130 ∧
      s.Whole sampleJson ((session sampleJson).guard fun s l => s.tears l = false) := by
  have h : (((session sampleJson).guard fun s l => s.tears l = false).run .init (openingRun 100)).map
      (fun s => (s.out.length, s.sockErr)) = some (130, false) := by decide +kernel
  obtain ⟨s, hs, h⟩ := Option.map_eq_some_iff.mp h
  simp only [Prod.mk.injEq] at h
  exact ⟨s, hs, h.1, frames_whole hs h.2⟩

/-- The window is written up to its last five bytes when the client asks for a stop. The two seconds
pass, the metrics task is aborted, and the stop is answered. -/
def tornRun : List SessionLabel :=
  openingRun 263 ++ [.recv .stop, .stopTimeout, .joined, .lockMain, .write 29]

def tornBytes : List UInt8 :=
  frame (utf8 (ackJson "start".toList)) ++ (frame (utf8 windowJson)).take 263 ++
    frame (utf8 (ackJson "stop".toList))

/-- The second payload a reader finds ends with the length and the first byte of the next frame. -/
theorem tornBytes_reads : ∃ ds n, Reads (deframe maxFrame) tornBytes ds (.invalid n) := by
  have h₁ : deframe maxFrame tornBytes =
      .ok (utf8 (ackJson "start".toList), tornBytes.drop 30) := by decide +kernel
  have h₂ : deframe maxFrame (tornBytes.drop 30) =
      .ok ((tornBytes.drop 34).take 264, tornBytes.drop 298) := by decide +kernel
  have h₃ : deframe maxFrame (tornBytes.drop 298) = .error (.invalid 577728546) := by decide +kernel
  exact ⟨_, _, .next h₁ (.next h₂ (.stop h₃))⟩

theorem frame_torn :
    ∃ s, (session sampleJson).run .init tornRun = some s ∧ s.sockErr = false ∧
      ¬ ∃ (ds : List (List UInt8)) (rest d : List UInt8),
        (∀ x ∈ ds, x ≠ [] ∧ x.length ≤ maxFrame) ∧ d ≠ [] ∧ d.length ≤ maxFrame ∧
        rest <+: frame d ∧ rest ≠ frame d ∧ s.out = (ds.map frame).flatten ++ rest := by
  have h : ((session sampleJson).run .init tornRun).map (fun s => (s.out, s.sockErr)) =
      some (tornBytes, false) := by decide +kernel
  obtain ⟨s, hs, h⟩ := Option.map_eq_some_iff.mp h
  simp only [Prod.mk.injEq] at h
  refine ⟨s, hs, h.2, ?_⟩
  rintro ⟨ds, rest, d, hds, hd, hle, hpre, hne, hout⟩
  have hclean := reads_deframe (by decide) hds hd hle hpre hne
  obtain ⟨ds', n, htorn⟩ := tornBytes_reads
  rw [← hout, h.1] at hclean
  cases (hclean.unique htorn).2

end Tperf.Server

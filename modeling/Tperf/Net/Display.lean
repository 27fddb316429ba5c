import Tperf.Lib.Digits
import Tperf.Net.Resolve

/-!
# Addresses as text

`to_string` of the addresses of the standard library, which `fill_resolved` writes into the assignments.
-/

namespace Tperf.Net
open Lib Dataplane

/-! ## IPv4 -/

/-- `{}.{}.{}.{}` -/
def showOctets : List Nat → Str
  | [] => []
  | o :: os => Nat.toDigits 10 o ++ os.flatMap fun o => '.' :: Nat.toDigits 10 o

def showIpv4 (bits : Nat) : Str := showOctets (beDigits 256 4 bits)

/-! ## IPv6 -/

/-- A run of groups that are zero. -/
structure Span where
  start : Nat
  len : Nat
  deriving DecidableEq, Repr

/-- One group of the search: the longest run so far, and the current one. -/
def Span.note (s : Span × Span) (g : Nat × Nat) : Span × Span :=
  if g.1 = 0 then
    let current := ⟨if s.2.len = 0 then g.2 else s.2.start, s.2.len + 1⟩
    (if s.1.len < current.len then current else s.1, current)
  else (s.1, ⟨0, 0⟩)

/-- The first of the longest runs of zeros. -/
def zeroes (groups : List Nat) : Span := (groups.zipIdx.foldl Span.note (⟨0, 0⟩, ⟨0, 0⟩)).1

/-- `fmt_subslice` -/
def showGroups : List Nat → Str
  | [] => []
  | g :: gs => Nat.toDigits 16 g ++ gs.flatMap fun g => ':' :: Nat.toDigits 16 g

def showIpv6 (groups : List Nat) : Str :=
  match groups with
  | [0, 0, 0, 0, 0, 0xffff, hi, lo] => "::ffff:".toList ++ showIpv4 (65536 * hi + lo)
  | _ =>
      let z := zeroes groups
      if 1 < z.len then
        showGroups (groups.take z.start) ++ "::".toList ++ showGroups (groups.drop (z.start + z.len))
      else showGroups groups

/-- `ip.to_string()` -/
def showIp : IpAddr → Str
  | .v4 bits => showIpv4 bits.toNat
  | .v6 bits => showIpv6 (beDigits 65536 8 bits.toNat)

/-- `addr.to_string()`, for an address without a scope. -/
def showSocketAddr (addr : SocketAddr) : Str :=
  let port := ':' :: Nat.toDigits 10 addr.port.toNat
  match addr.ip with
  | .v4 _ => showIp addr.ip ++ port
  | .v6 _ => '[' :: showIp addr.ip ++ ']' :: port

example : showSocketAddr ⟨.v6 0x20010db8000000000001000000000001, 9⟩ = "[2001:db8::1:0:0:1]:9".toList ∧
    showSocketAddr ⟨.v6 0xffff0a000005, 9⟩ = "[::ffff:10.0.0.5]:9".toList := by decide

/-! ## The runs of zeros -/

/-- A run ends before `i`, within groups that are zero. -/
structure Span.Zero (groups : List Nat) (i : Nat) (s : Span) : Prop where
  le : s.start + s.len ≤ i
  zero : ∀ k, s.start ≤ k → k < s.start + s.len → groups[k]? = some 0

theorem Span.Zero.note {groups : List Nat} {i g : Nat} {s : Span × Span} (hg : groups[i]? = some g)
    (h₁ : s.1.Zero groups i) (h₂ : s.2.Zero groups i) (hend : 0 < s.2.len → s.2.start + s.2.len = i) :
    (Span.note s (g, i)).1.Zero groups (i + 1) ∧ (Span.note s (g, i)).2.Zero groups (i + 1) ∧
      (0 < (Span.note s (g, i)).2.len → (Span.note s (g, i)).2.start + (Span.note s (g, i)).2.len = i + 1) := by
  have hkeep : s.1.Zero groups (i + 1) := ⟨Nat.le_succ_of_le h₁.le, h₁.zero⟩
  rw [Span.note]
  split
  · rename_i hzero
    have hzero : g = 0 := hzero
    subst hzero
    -- the current run goes on, or a new one starts here
    obtain ⟨c, hc, hcend⟩ : ∃ c : Span, c = ⟨if s.2.len = 0 then i else s.2.start, s.2.len + 1⟩ ∧
        c.start + c.len = i + 1 := by
      refine ⟨_, rfl, ?_⟩
      by_cases hlen : s.2.len = 0
      · simp [hlen]
      · have := hend (Nat.pos_of_ne_zero hlen)
        simp only [if_neg hlen]
        omega
    have hrun : c.Zero groups (i + 1) := by
      refine ⟨Nat.le_of_eq hcend, fun k hk hlt => ?_⟩
      by_cases hki : k = i
      · rw [hki]; exact hg
      · have hstart : ¬ s.2.len = 0 := by
          intro hlen
          rw [hc] at hk hlt
          simp only [hlen, if_true] at hk hlt
          omega
        refine h₂.zero k ?_ ?_
        · rw [hc] at hk
          simpa only [if_neg hstart] using hk
        · have := hend (Nat.pos_of_ne_zero hstart)
          omega
    simp only
    rw [← hc]
    refine ⟨?_, hrun, fun _ => by rw [hc] at hcend; exact hcend⟩
    split
    · exact hrun
    · exact hkeep
  · exact ⟨hkeep, ⟨Nat.zero_le _, fun k h h' => absurd h' (by simp)⟩, fun h => absurd h (Nat.lt_irrefl 0)⟩

theorem zeroes_zero (groups : List Nat) : (zeroes groups).Zero groups groups.length := by
  have hgen : ∀ (rest : List Nat) (i : Nat) (s : Span × Span), groups.drop i = rest → i ≤ groups.length →
      s.1.Zero groups i → s.2.Zero groups i → (0 < s.2.len → s.2.start + s.2.len = i) →
      ((rest.zipIdx i).foldl Span.note s).1.Zero groups groups.length := by
    intro rest
    induction rest with
    | nil =>
        intro i s hrest hi h₁ _ _
        have hle : groups.length ≤ i := List.drop_eq_nil_iff.mp hrest
        exact ⟨Nat.le_trans h₁.le hi, h₁.zero⟩
    | cons g rest ih =>
        intro i s hrest _ h₁ h₂ hend
        have hlt : i < groups.length := by
          have := congrArg List.length hrest
          rw [List.length_drop, List.length_cons] at this
          omega
        have hg : groups[i]? = some g := by
          have := congrArg List.head? hrest
          rwa [List.head?_drop, List.head?_cons] at this
        obtain ⟨h₁', h₂', hend'⟩ := Span.Zero.note hg h₁ h₂ hend
        refine ih (i + 1) _ ?_ hlt h₁' h₂' hend'
        rw [← List.tail_drop, hrest, List.tail_cons]
  exact hgen groups 0 _ rfl (Nat.zero_le _) ⟨Nat.le_refl 0, fun k h h' => absurd h' (by simp)⟩
    ⟨Nat.le_refl 0, fun k h h' => absurd h' (by simp)⟩ fun h => absurd h (Nat.lt_irrefl 0)

/-- The run is what separates the groups before it from those behind it. -/
theorem take_zeroes_drop (groups : List Nat) :
    groups.take (zeroes groups).start ++ List.replicate (zeroes groups).len 0 ++
      groups.drop ((zeroes groups).start + (zeroes groups).len) = groups := by
  obtain ⟨hle, hzero⟩ := zeroes_zero groups
  have hrun : (groups.drop (zeroes groups).start).take (zeroes groups).len =
      List.replicate (zeroes groups).len 0 := by
    apply List.ext_getElem?
    intro k
    rw [List.getElem?_take, List.getElem?_replicate]
    by_cases hk : k < (zeroes groups).len
    · rw [if_pos hk, if_pos hk, List.getElem?_drop]
      exact hzero _ (Nat.le_add_right _ _) (by omega)
    · rw [if_neg hk, if_neg hk]
  rw [← hrun, List.append_assoc, ← List.drop_drop, List.take_append_drop, List.take_append_drop]

end Tperf.Net

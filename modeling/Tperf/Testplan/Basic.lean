import Tperf.Proto.Basic

/-!
# Test plans

Who sends to whom: the rounds of pairs mode, and the assignments of both modes.
-/

namespace Tperf.Testplan
open Lib Proto

/-! ## Rounds -/

/-- The array of `round_robin_rounds`. Its length never changes, so no index into it is out of range
and `pop` never meets an empty array. -/
structure Slots (n : Nat) where
  arr : List (Option Str)
  size : arr.length = n

namespace Slots

variable {n : Nat} (s : Slots n)

def get (i : Nat) (h : i < n) : Option Str := s.arr.get ⟨i, by rw [s.size]; exact h⟩

theorem front_lt (i : Fin (n / 2)) : i.val < n := by omega

theorem back_lt (i : Fin (n / 2)) : n - 1 - i.val < n := by omega

/-- The pairs of one round: slot `i` with slot `n - 1 - i`, unless one of them is the bye. -/
def pairs : List (Str × Str) :=
  (List.finRange (n / 2)).filterMap fun (i : Fin (n / 2)) =>
    match s.get i (front_lt i), s.get (n - 1 - i) (back_lt i) with
    | some a, some b => some (a, b)
    | _, _ => none

/-- `arr.pop()` put back at slot 1, for `n > 2`. -/
def rotate : Slots n :=
  if h : 2 < n then
    have hne : s.arr ≠ [] := List.length_pos_iff.mp (by rw [s.size]; omega)
    ⟨s.arr.dropLast.insertIdx 1 (s.arr.getLast hne), by
      rw [List.length_insertIdx_of_le_length] <;> simp only [List.length_dropLast, s.size] <;> omega⟩
  else s

end Slots

/-- `k` rounds from the array `s` on. -/
def roundsFrom {n : Nat} : Nat → Slots n → List (List (Str × Str))
  | 0, _ => []
  | k + 1, s => s.pairs :: roundsFrom k s.rotate

def roundRobinRounds (hosts : List Str) : List (List (Str × Str)) :=
  if hosts.length < 2 then []
  else
    let arr := hosts.map some
    let arr := if arr.length % 2 = 1 then arr ++ [none] else arr
    roundsFrom (arr.length - 1) ⟨arr, rfl⟩

/-! ## Assignments -/

/-- The assignment of host `i` before it has targets. -/
def blank (i : Nat) (name : Str) : Assignment :=
  { selfName := name, selfId := .ofNat i, bind := [], targets := [] }

def target (j : Nat) (name : Str) : Target := { name := name, id := .ofNat j, addr := [] }

def assignmentsMesh (hosts : List Str) : List Assignment :=
  hosts.mapIdx fun i name =>
    { blank i name with
      targets := (hosts.zipIdx.filter fun p => p.2 ≠ i).map fun p => target p.2 p.1 }

/-- `out[i].targets.push(t)`. -/
def pushTarget (i : Nat) (t : Target) (out : List Assignment) : Outcome Empty (List Assignment) :=
  Outcome.index out i >>= fun a => .ok (out.set i { a with targets := a.targets ++ [t] })

/-- `hosts.iter().position(|h| h == a).expect(..)`. -/
def position (hosts : List Str) (a : Str) : Outcome Empty Nat :=
  Outcome.expect (hosts.findIdx? (· == a))

/-- One pair of `assignments_for_pairs`: each host becomes the other's target. -/
def assignPair (hosts : List Str) (out : List Assignment) (p : Str × Str) :
    Outcome Empty (List Assignment) :=
  position hosts p.1 >>= fun ia =>
  position hosts p.2 >>= fun ib =>
  pushTarget ia (target ib p.2) out >>= fun out =>
  pushTarget ib (target ia p.1) out

def assignmentsForPairs (hosts : List Str) (pairs : List (Str × Str)) :
    Outcome Empty (List Assignment) :=
  pairs.foldlM (assignPair hosts) (hosts.mapIdx blank)

section Resolved

variable {SocketAddr : Type} (toStr : SocketAddr → Str) (resolved : List SocketAddr)

/-- `resolved[id as usize].to_string()`. -/
def resolvedStr (id : UInt32) : Outcome Empty Str :=
  Outcome.index resolved id.toNat >>= fun a => .ok (toStr a)

def fillTarget (t : Target) : Outcome Empty Target :=
  resolvedStr toStr resolved t.id >>= fun addr => .ok { t with addr := addr }

def fillAssignment (a : Assignment) : Outcome Empty Assignment :=
  resolvedStr toStr resolved a.selfId >>= fun bind =>
  a.targets.mapM (fillTarget toStr resolved) >>= fun targets =>
  .ok { a with bind := bind, targets := targets }

def fillResolved (asg : List Assignment) : Outcome Empty (List Assignment) :=
  asg.mapM (fillAssignment toStr resolved)

/-- What `run_pair_rounds` sends in one round. -/
def roundAssignments (hosts : List Str) (pairs : List (Str × Str)) :
    Outcome Empty (List Assignment) :=
  assignmentsForPairs hosts pairs >>= fillResolved toStr resolved

/-- What `run_pair_rounds` sends over the rounds of one tournament. -/
def tournament (hosts : List Str) : Outcome Empty (List (List Assignment)) :=
  (roundRobinRounds hosts).mapM (roundAssignments toStr resolved hosts)

end Resolved

end Tperf.Testplan

import Tperf.Lib.Checked
import Tperf.Net.Addr

/-!
# Resolving a host

`resolve_retry` goes round its loop until a lookup gives a usable address, the deadline is over or the
token is cancelled. What it meets on the way is a parameter of each turn.
-/

namespace Tperf.Net
open Lib Dataplane

/-! ## `parse::<SocketAddr>()` -/

/-- `read_number(10, None, true)` to an unsigned type of `bound` values. -/
def readNumber (bound : Nat) (s : Str) : Option (Nat × Str) :=
  let digits := s.takeWhile Char.isDigit
  if digits = [] ∨ bound ≤ digitsVal digits then none else some (digitsVal digits, s.drop digits.length)

def readPort (s : Str) : Option (UInt16 × Str) := do
  let (port, s) ← readNumber (2 ^ 16) (← readChar ':' s)
  some (UInt16.ofNat port, s)

/-- An IPv6 address in brackets, with or without a scope. -/
def readSocketAddrV6 (s : Str) : Option (IpAddr × Str) := do
  let s ← readChar '[' s
  let (groups, s) ← readIpv6 s
  let s := (((readChar '%' s).bind (readNumber (2 ^ 32))).map Prod.snd).getD s
  let s ← readChar ']' s
  some (.v6 (BitVec.ofNat 128 (groups.foldl (fun n g => 65536 * n + g) 0)), s)

def readSocketAddrV4 (s : Str) : Option (IpAddr × Str) := do
  let ((hi, lo), s) ← readIpv4 s
  some (.v4 (BitVec.ofNat 32 (65536 * hi + lo)), s)

/-- `s.parse::<SocketAddr>()`, from the whole of the text; the scope is not kept. -/
def parseSocketAddr (s : Str) : Option SocketAddr :=
  let v4 := do
    let (ip, s) ← readSocketAddrV4 s
    let (port, s) ← readPort s
    some (SocketAddr.mk ip port, s)
  let v6 := do
    let (ip, s) ← readSocketAddrV6 s
    let (port, s) ← readPort s
    some (SocketAddr.mk ip port, s)
  match v4.orElse fun _ => v6 with
  | some (addr, []) => some addr
  | _ => none

example : parseSocketAddr "[::1]:9100".toList = some ⟨.v6 1, 9100⟩ ∧
    parseSocketAddr "10.0.0.1".toList = none := by decide

/-! ## Choosing an address -/

def isLoopback : IpAddr → Bool
  | .v4 bits => bits.toNat / 2 ^ 24 = 127
  | .v6 bits => bits = 1

def isLoopbackHost (host : Str) : Bool :=
  host.map Char.toLower = "localhost".toList || ((parseIp host).map isLoopback).getD false

inductive ResolveError
  /-- `DNS lookup for {query}` -/
  | lookup
  /-- `no matching addresses` -/
  | noMatching
  /-- `giving up DNS for {host} after {deadline:?}` -/
  | givingUp (e : ResolveError)
  /-- `resolve {host} cancelled` -/
  | cancelled
  deriving DecidableEq, Repr

/-- The addresses of the family, if one is given. -/
def filterFamily (addrs : List SocketAddr) : Option AddrFamily → List SocketAddr
  | some fam => addrs.filter fam.fits
  | none => addrs

def pickAddr (addrs : List SocketAddr) (family : Option AddrFamily) : Outcome ResolveError SocketAddr :=
  let filtered := filterFamily addrs family
  if filtered = [] then .err .noMatching
  else match filtered.find? fun a => AddrFamily.v4.fits a && !isLoopback a.ip with
    | some a => .ok a
    | none => match filtered.find? fun a => AddrFamily.v6.fits a && !isLoopback a.ip with
      | some a => .ok a
      | none => match filtered.find? AddrFamily.v4.fits with
        | some a => .ok a
        | none => Outcome.index filtered 0

/-- `resolve_one`, when `lookup_host` returns `addrs`. -/
def resolveOne (addrs : Option (List SocketAddr)) (family : Option AddrFamily) :
    Outcome ResolveError SocketAddr :=
  match addrs with
  | none => .err .lookup
  | some addrs => pickAddr addrs family

/-! ## One turn of `resolve_retry` -/

structure Turn where
  /-- The token is cancelled before the lookup. -/
  cancelled : Bool
  addrs : Option (List SocketAddr)
  /-- The deadline is over. -/
  expired : Bool
  /-- The token is cancelled during the sleep. -/
  woken : Bool

inductive Retry
  | done (addr : SocketAddr)
  /-- The loop goes on, with the delay in milliseconds. -/
  | again (delay : Nat)
  deriving DecidableEq, Repr

/-- The delay before the first turn. -/
def firstDelay : Nat := 20

/-- `(delay * 2).min(400 ms)`: the product of a `Duration` panics beyond `u64::MAX` seconds. -/
def nextDelay {ε : Type} (delay : Nat) : Outcome ε Nat :=
  if 2 * delay < 2 ^ 64 * 1000 then .ok (min (2 * delay) 400) else .panic

def resolveTurn (family : Option AddrFamily) (delay : Nat) (t : Turn) : Outcome ResolveError Retry :=
  if t.cancelled then .err .cancelled
  else match resolveOne t.addrs family with
    | .ok a => .ok (.done a)
    | .err e =>
        if t.expired then .err (.givingUp e)
        else if t.woken then .err .cancelled
        else nextDelay delay >>= fun delay => .ok (.again delay)
    | .panic => .panic

/-! ## No turn panics -/

theorem pickAddr_ne_panic (addrs : List SocketAddr) (family : Option AddrFamily) :
    pickAddr addrs family ≠ .panic := by
  unfold pickAddr
  simp only
  generalize filterFamily addrs family = filtered
  by_cases hnil : filtered = []
  · rw [if_pos hnil]
    exact fun h => by cases h
  · rw [if_neg hnil, Outcome.index_of_lt (List.length_pos_of_ne_nil hnil)]
    split
    · exact fun h => by cases h
    · split
      · exact fun h => by cases h
      · split <;> exact fun h => by cases h

theorem resolveOne_ne_panic (addrs : Option (List SocketAddr)) (family : Option AddrFamily) :
    resolveOne addrs family ≠ .panic := by
  cases addrs with
  | none => exact fun h => by cases h
  | some addrs => exact pickAddr_ne_panic addrs family

/-- The delay is never more than 400 milliseconds, so doubling it never overflows. -/
theorem nextDelay_ok {ε : Type} {delay : Nat} (h : delay ≤ 400) :
    nextDelay delay = (.ok (min (2 * delay) 400) : Outcome ε _) := if_pos (by omega)

theorem resolveTurn_bounded (family : Option AddrFamily) {delay : Nat} (h : delay ≤ 400) (t : Turn) :
    resolveTurn family delay t ≠ .panic ∧
      ∀ delay', resolveTurn family delay t = .ok (.again delay') → delay' ≤ 400 := by
  have hne := resolveOne_ne_panic t.addrs family
  unfold resolveTurn
  rw [nextDelay_ok h, Outcome.ok_bind]
  split
  · simp
  · split
    · simp
    · split
      · simp
      · split
        · simp
        · simp
    · contradiction

theorem pickAddr_singleton {family : Option AddrFamily} {a : SocketAddr}
    (h : (family.map (·.fits a)).getD true = true) : pickAddr [a] family = .ok a := by
  have hfiltered : filterFamily [a] family = [a] := by
    cases family with
    | none => rfl
    | some fam => simpa [filterFamily] using h
  unfold pickAddr
  rw [hfiltered]
  obtain ⟨ip, port⟩ := a
  cases ip with
  | v4 bits => cases hloop : isLoopback (.v4 bits) <;> simp [hloop, AddrFamily.fits, List.find?]
  | v6 bits => cases hloop : isLoopback (.v6 bits) <;> simp [hloop, AddrFamily.fits, List.find?, Outcome.index]

end Tperf.Net

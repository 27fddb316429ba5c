import Tperf.Dataplane.Io
import Tperf.Lib.Parse

/-!
# Addresses in text

`parse_host_port`, and the addresses of the standard library that `validate` looks for.
-/

namespace Tperf.Net
open Lib Dataplane

/-- The errors of `parse_host_port`, with the values their texts print. -/
inductive AddrError
  /-- `empty address` -/
  | empty
  /-- `missing ']' in IPv6 address {s:?}` -/
  | missingBracket (s : Str)
  /-- `missing port in {s:?}` -/
  | missingPort (s : Str)
  /-- `invalid port in {s:?}` -/
  | invalidPort (s : Str)
  /-- `empty host in {s:?}` -/
  | emptyHost (s : Str)
  /-- `address {s:?} must be host:port or [ipv6]:port` -/
  | form (s : Str)
  deriving DecidableEq, Repr

/-- `port_str.parse::<u16>()`, and `invalid port in {s:?}`. -/
def parsePort (s portStr : Str) : Outcome AddrError UInt16 :=
  match parseUnsigned (2 ^ 16) portStr with
  | some port => .ok (UInt16.ofNat port)
  | none => .err (.invalidPort s)

def parseHostPort (s : Str) : Outcome AddrError (Str × UInt16) :=
  let s := trim s
  match s with
  | [] => .err .empty
  | '[' :: rest =>
      match find ']' rest with
      | none => .err (.missingBracket s)
      | some close =>
          sliceTo rest close >>= fun host =>
          sliceFrom rest (close + 1) >>= fun after =>
          match after with
          | ':' :: portStr =>
              parsePort s portStr >>= fun port =>
              if host = [] then .err (.emptyHost s) else .ok (host, port)
          | _ => .err (.missingPort s)
  | _ =>
      match rsplitOnce ':' s with
      | some (host, portStr) =>
          if host ≠ [] ∧ portStr ≠ [] ∧ ':' ∉ host then
            parsePort s portStr >>= fun port => .ok (host, port)
          else .err (.form s)
      | none => .err (.form s)

/-! ## `host.parse::<IpAddr>()` -/

/-- `read_given_char` -/
def readChar (c : Char) : Str → Option Str
  | d :: s => if d = c then some s else none
  | [] => none

/-- `read_separator`: the separator stands before every group but the first. -/
def readSeparator (c : Char) (i : Nat) (s : Str) : Option Str := if i = 0 then some s else readChar c s

/-- `c.to_digit(16)` -/
def hexDigit (c : Char) : Option Nat :=
  if c.isDigit then some (c.toNat - '0'.toNat)
  else if 'a' ≤ c ∧ c ≤ 'f' then some (c.toNat - 'a'.toNat + 10)
  else if 'A' ≤ c ∧ c ≤ 'F' then some (c.toNat - 'A'.toNat + 10)
  else none

/-- The number of an octet: at most three digits, without a zero in front. -/
def readOctet (s : Str) : Option (Nat × Str) :=
  let digits := s.takeWhile Char.isDigit
  if digits = [] ∨ 3 < digits.length ∨ (digits.head? = some '0' ∧ 1 < digits.length) ∨
      256 ≤ digitsVal digits then none
  else some (digitsVal digits, s.drop digits.length)

/-- The number of a group: at most four hexadecimal digits. -/
def readGroup (s : Str) : Option (Nat × Str) :=
  let digits := s.takeWhile fun c => (hexDigit c).isSome
  if digits = [] ∨ 4 < digits.length then none
  else some (digits.foldl (fun n c => 16 * n + (hexDigit c).getD 0) 0, s.drop digits.length)

/-- `read_ipv4_addr`: the two halves. -/
def readIpv4 (s : Str) : Option ((Nat × Nat) × Str) := do
  let (a, s) ← readOctet s
  let (b, s) ← readOctet (← readChar '.' s)
  let (c, s) ← readOctet (← readChar '.' s)
  let (d, s) ← readOctet (← readChar '.' s)
  some ((256 * a + b, 256 * c + d), s)

/-- `read_groups` with room for `left` groups after `i`: the groups, and whether an IPv4 address ended
them. -/
def readGroups : (left i : Nat) → Str → List Nat × Bool × Str
  | 0, _, s => ([], false, s)
  | left + 1, i, s =>
      match if 0 < left then (readSeparator ':' i s).bind readIpv4 else none with
      | some ((hi, lo), s) => ([hi, lo], true, s)
      | none =>
          match (readSeparator ':' i s).bind readGroup with
          | some (group, s) =>
              let (groups, ipv4, s) := readGroups left (i + 1) s
              (group :: groups, ipv4, s)
          | none => ([], false, s)

/-- `read_ipv6_addr` -/
def readIpv6 (s : Str) : Option (List Nat × Str) :=
  let (head, ipv4, s) := readGroups 8 0 s
  if head.length = 8 then some (head, s)
  else if ipv4 then none
  else do
    let s ← readChar ':' s
    let s ← readChar ':' s
    let (tail, _, s) := readGroups (8 - (head.length + 1)) 0 s
    some (head ++ List.replicate (8 - head.length - tail.length) 0 ++ tail, s)

/-- `host.parse::<IpAddr>()`, from the whole of the text. -/
def parseIp (s : Str) : Option IpAddr :=
  match readIpv4 s with
  | some ((hi, lo), []) => some (.v4 (BitVec.ofNat 32 (65536 * hi + lo)))
  | some (_, _ :: _) => none
  | none => match readIpv6 s with
      | some (groups, []) => some (.v6 (BitVec.ofNat 128 (groups.foldl (fun n g => 65536 * n + g) 0)))
      | _ => none

/-- `ip.is_unspecified()` -/
def isUnspecified : IpAddr → Bool
  | .v4 bits => bits = 0
  | .v6 bits => bits = 0

def isUnspecifiedHost (host : Str) : Bool :=
  match parseIp host with
  | some ip => isUnspecified ip
  | none => host = ['*'] || host.map Char.toLower = "unspecified".toList

/-- `AddrFamily::from_host` -/
def familyOfHost (host : Str) : Option AddrFamily :=
  (parseIp host).map fun
    | .v4 _ => .v4
    | .v6 _ => .v6

example : isUnspecifiedHost "::0".toList = true ∧ isUnspecifiedHost "127.0.0.1".toList = false ∧
    parseIp "1::2:3.4.5.6".toList = some (.v6 0x00010000000000000000000203040506) := by decide

end Tperf.Net

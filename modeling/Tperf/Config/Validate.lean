import Tperf.Lib.Path
import Tperf.Net.Addr

/-!
# `Config::validate`

The checks in their order, what the server reads off a config that passed them, and the name of the
database file.
-/

namespace Tperf.Config
open Lib Net Proto

/-- The errors of `validate`, with the values their texts print. -/
inductive ConfigError
  /-- `invalid tag {:?}: used as sqlite filename, must be a plain name` -/
  | tag (tag : Str)
  /-- `workers must be >= 1` -/
  | workers
  /-- `payload_size must be >= 1` -/
  | payloadSize
  /-- `hostlist is empty after expansion` -/
  | noHosts
  /-- `hostlist must contain at least 2 hosts, got {}` -/
  | fewHosts (got : Nat)
  /-- `client_addr {:?}`, and the error of the address -/
  | clientAddr (addr : Str) (e : AddrError)
  /-- `client_addr port must be non-zero` -/
  | clientPort
  /-- `test_addr {:?}`, and the error of the address -/
  | testAddr (addr : Str) (e : AddrError)
  /-- `test_addr has no host (a host/ip is required; 0.0.0.0 is not accepted)` -/
  | testHost
  /-- `test_addr port must be non-zero` -/
  | testPort
  /-- `test_addr must not use an unspecified address (0.0.0.0 / ::)` -/
  | testUnspecified
  deriving DecidableEq, Repr

def validate (cfg : Config) : Outcome ConfigError Unit :=
  if cfg.tag = [] ∨ '/' ∈ cfg.tag ∨ '\\' ∈ cfg.tag ∨ '\x00' ∈ cfg.tag ∨ cfg.tag = ".".toList ∨
      cfg.tag = "..".toList then .err (.tag cfg.tag)
  else if cfg.workers = 0 then .err .workers
  else if cfg.payloadSize = 0 then .err .payloadSize
  else if cfg.hostlist = [] then .err .noHosts
  else if cfg.hostlist.length < 2 then .err (.fewHosts cfg.hostlist.length)
  else
    (parseHostPort cfg.clientAddr).mapErr (.clientAddr cfg.clientAddr) >>= fun (_, cPort) =>
    if cPort = 0 then .err .clientPort
    else
      (parseHostPort cfg.testAddr).mapErr (.testAddr cfg.testAddr) >>= fun (tHost, tPort) =>
      if tHost = [] then .err .testHost
      else if tPort = 0 then .err .testPort
      else if isUnspecifiedHost tHost then .err .testUnspecified
      else .ok ()

def testPort (cfg : Config) : Outcome AddrError UInt16 :=
  parseHostPort cfg.testAddr >>= fun p => .ok p.2

def testFamily (cfg : Config) : Outcome AddrError (Option Dataplane.AddrFamily) :=
  parseHostPort cfg.testAddr >>= fun p => .ok (familyOfHost p.1)

def dbFilename (tag : Str) : Str :=
  let stem := ((stripSuffix ".db".toList tag).orElse fun _ => stripSuffix ".DB".toList tag).getD tag
  stem ++ ".db".toList

def dbPath (cfg : Config) : Str := dbFilename cfg.tag

end Tperf.Config

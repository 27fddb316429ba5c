import Mathlib.Logic.Function.Basic
import Tperf.Config.Hostlist
import Tperf.Config.Size
import Tperf.Config.Validate

/-!
# The config file

The TOML parser and serde's own deserializers stand for themselves: what a text is parsed to, and what a value
is as a string, as a number, as a variant, is theirs to say. The loop over the table is the one that serde
derives for `ConfigFile`.
-/

namespace Tperf.Config
open Lib Proto

/-! ## TOML -/

/-- The keys in their order. The parser refuses a key that is given twice. -/
structure Table (ν : Type) where
  entries : List (Str × ν)
  nodup : (entries.map Prod.fst).Nodup

def Table.get {ν : Type} (t : Table ν) (key : Str) : Option ν := t.entries.lookup key

/-- What `deserialize_any` shows a visitor. -/
inductive Shown (ν : Type)
  | string (s : Str)
  | integer (v : Int64)
  | array (items : List ν)
  /-- A float, a boolean, a date or a table. -/
  | other

/-- The crates `toml` and `serde`; a failure has its message. -/
structure Toml where
  Value : Type
  parse : Str → Except Str (Table Value)
  any : Value → Shown Value
  string : Value → Except Str Str
  u32 : Value → Except Str UInt32
  /-- An enum without data, by the names of its variants. -/
  variant {α : Type} (name : α → Str) (variants : List α) : Value → Except Str α

/-! ## Values -/

/-- The errors of a value. -/
inductive ValueError
  | toml (message : Str)
  /-- A visitor is shown what it does not expect. -/
  | invalidType
  | payload (e : PayloadError)
  deriving DecidableEq

def ofToml {α : Type} : Except Str α → Outcome ValueError α
  | .ok a => .ok a
  | .error message => .err (.toml message)

variable (T : Toml)

def deserString (v : T.Value) : Outcome ValueError Str := ofToml (T.string v)

def deserU32 (v : T.Value) : Outcome ValueError UInt32 := ofToml (T.u32 v)

def Network.name : Network → Str
  | .tcp => "tcp".toList
  | .udp => "udp".toList

def TestType.name : TestType → Str
  | .pairs => "pairs".toList
  | .mesh => "mesh".toList

def deserNetwork (v : T.Value) : Outcome ValueError Network := ofToml (T.variant Network.name [.tcp, .udp] v)

def deserTestType (v : T.Value) : Outcome ValueError TestType :=
  ofToml (T.variant TestType.name [.pairs, .mesh] v)

def deserPayloadSize (v : T.Value) : Outcome ValueError UInt64 :=
  match T.any v with
  | .integer i => (deserPayload (.int i)).mapErr .payload
  | .string s => (deserPayload (.str s)).mapErr .payload
  | _ => .err .invalidType

def splitHosts (s : Str) : List Str := ((s.splitOn ',').map trim).filter fun x => !x.isEmpty

def deserHostlist (v : T.Value) : Outcome ValueError (List Str) :=
  match T.any v with
  | .string s => .ok (splitHosts s)
  | .array items => items.foldlM (fun out v => deserString T v >>= fun s => .ok (out ++ splitHosts s)) []
  | _ => .err .invalidType

/-! ## `ConfigFile` -/

inductive Field
  | clientAddr
  | testAddr
  | network
  | payloadSize
  | workers
  | testType
  | hostlist
  | tag
  deriving DecidableEq

namespace Field

def all : List Field := [clientAddr, testAddr, network, payloadSize, workers, testType, hostlist, tag]

/-- The key of the field. -/
def key : Field → Str
  | clientAddr => "client_addr".toList
  | testAddr => "test_addr".toList
  | network => "network".toList
  | payloadSize => "payload_size".toList
  | workers => "workers".toList
  | testType => "type".toList
  | hostlist => "hostlist".toList
  | tag => "tag".toList

/-- The field of a key; other keys are ignored. -/
def ofKey (key : Str) : Option Field := all.find? fun f => f.key = key

abbrev Val : Field → Type
  | clientAddr | testAddr | tag => Str
  | network => Network
  | payloadSize => UInt64
  | workers => UInt32
  | testType => TestType
  | hostlist => List Str

def deser : (f : Field) → T.Value → Outcome ValueError f.Val
  | clientAddr | testAddr | tag => deserString T
  | network => deserNetwork T
  | payloadSize => deserPayloadSize T
  | workers => deserU32 T
  | testType => deserTestType T
  | hostlist => deserHostlist T

end Field

def defaultClientAddr : Str := "0.0.0.0:7777".toList
def defaultPayloadSize : UInt64 := 100 * 1024 * 1024
def defaultWorkers : UInt32 := 10

/-- The value of a field that the file does not give. -/
def Field.default : (f : Field) → Option f.Val
  | clientAddr => some defaultClientAddr
  | network => some .tcp
  | payloadSize => some defaultPayloadSize
  | workers => some defaultWorkers
  | testType => some .pairs
  | testAddr | hostlist | tag => none

/-- The errors of a load, with the values their texts print. -/
inductive FileError
  /-- `parsing config toml`: the parser's error. -/
  | parse (message : Str)
  /-- `parsing config toml`: the value of a key. -/
  | value (key : Str) (e : ValueError)
  /-- `parsing config toml`: missing field. -/
  | missingField (key : Str)
  | hosts (e : HostError)
  | config (e : ConfigError)
  deriving DecidableEq

/-- A value for each field. -/
abbrev ConfigFile := (f : Field) → f.Val

/-- The fields that have been read. -/
abbrev Fields := (f : Field) → Option f.Val

def Fields.visit (fs : Fields) (e : Str × T.Value) : Outcome FileError Fields :=
  match Field.ofKey e.1 with
  | none => .ok fs
  | some f => (f.deser T e.2).mapErr (.value e.1) >>= fun x => .ok (Function.update fs f (some x))

/-- The value of a field after the loop. -/
def Fields.value (fs : Fields) (f : Field) : Outcome FileError f.Val :=
  match fs f, f.default with
  | some x, _ => .ok x
  | none, some x => .ok x
  | none, none => .err (.missingField f.key)

/-- The fields are looked at in the order of their declaration. -/
def Fields.finish (fs : Fields) : Outcome FileError ConfigFile := do
  let clientAddr ← fs.value .clientAddr
  let testAddr ← fs.value .testAddr
  let network ← fs.value .network
  let payloadSize ← fs.value .payloadSize
  let workers ← fs.value .workers
  let testType ← fs.value .testType
  let hostlist ← fs.value .hostlist
  let tag ← fs.value .tag
  .ok fun
    | .clientAddr => clientAddr
    | .testAddr => testAddr
    | .network => network
    | .payloadSize => payloadSize
    | .workers => workers
    | .testType => testType
    | .hostlist => hostlist
    | .tag => tag

/-- `toml::from_str::<ConfigFile>`, behind the parser. -/
def configFile (t : Table T.Value) : Outcome FileError ConfigFile :=
  t.entries.foldlM (Fields.visit T) (fun _ => none) >>= Fields.finish

def fromToml (text : Str) : Outcome FileError Config :=
  match T.parse text with
  | .error message => .err (.parse message)
  | .ok t =>
      configFile T t >>= fun f =>
      let hostlistRaw := f .hostlist
      (expandHostlist hostlistRaw).mapErr .hosts >>= fun hostlist =>
      let cfg : Config := {
        clientAddr := f .clientAddr
        testAddr := f .testAddr
        network := f .network
        payloadSize := f .payloadSize
        workers := f .workers
        testType := f .testType
        hostlist := hostlist
        hostlistRaw := hostlistRaw
        tag := f .tag }
      (validate cfg).mapErr .config >>= fun _ => .ok cfg

end Tperf.Config

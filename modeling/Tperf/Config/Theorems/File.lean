import Tperf.Config.Lemmas.File
import Tperf.Config.Lemmas.Hosts
import Tperf.Config.Lemmas.Size
import Tperf.Config.Lemmas.Validate
import Tperf.Proto.Frame

/-!
# What a config file says
-/

namespace Tperf.Config
open Lib Proto

variable {T : Toml}

/-! ## Reading -/

/-- What the value of a key says of its field. -/
def Denotes : (f : Field) → T.Value → f.Val → Prop
  | .clientAddr, v, s => T.string v = .ok s
  | .testAddr, v, s => T.string v = .ok s
  | .network, v, n => T.variant Network.name [.tcp, .udp] v = .ok n
  | .payloadSize, v, n =>
      (∃ i, T.any v = .integer i ∧ i.toInt = n.toNat) ∨ ∃ s, T.any v = .string s ∧ parseSize s = .ok n
  | .workers, v, n => T.u32 v = .ok n
  | .testType, v, t => T.variant TestType.name [.pairs, .mesh] v = .ok t
  | .hostlist, v, hosts =>
      (∃ s, T.any v = .string s ∧ hosts = splitHosts s) ∨
        ∃ items ss, T.any v = .array items ∧ List.Forall₂ (fun v s => T.string v = .ok s) items ss ∧
          hosts = ss.flatMap splitHosts
  | .tag, v, s => T.string v = .ok s

/-- The part of a config that a field of the file gives. -/
def Field.of (cfg : Config) : (f : Field) → f.Val
  | .clientAddr => cfg.clientAddr
  | .testAddr => cfg.testAddr
  | .network => cfg.network
  | .payloadSize => cfg.payloadSize
  | .workers => cfg.workers
  | .testType => cfg.testType
  | .hostlist => cfg.hostlistRaw
  | .tag => cfg.tag

/-- Each key says what `cfg` holds, and where a key is missing `cfg` holds the default. -/
def Table.Describes (t : Table T.Value) (cfg : Config) : Prop :=
  ∀ f : Field, match t.get f.key with
    | none => f.default = some (f.of cfg)
    | some v => Denotes f v (f.of cfg)

theorem deser_eq_ok {f : Field} {v : T.Value} {x : f.Val} : f.deser T v = .ok x ↔ Denotes f v x := by
  cases f with
  | clientAddr | testAddr | tag => exact deserString_eq_ok
  | network | workers | testType => exact ofToml_eq_ok
  | payloadSize => exact deserPayloadSize_eq_ok
  | hostlist => exact deserHostlist_eq_ok

theorem configFile_describes {t : Table T.Value} {cfg : Config} :
    configFile T t = .ok (Field.of cfg) ↔ t.Describes cfg := by
  rw [configFile_eq_ok]
  apply forall_congr'
  intro f
  cases t.get f.key with
  | none => exact Iff.rfl
  | some v => exact deser_eq_ok

theorem fromToml_eq_ok {text : Str} {cfg : Config} :
    fromToml T text = .ok cfg ↔
      ∃ t, T.parse text = .ok t ∧ t.Describes cfg ∧ expandHostlist cfg.hostlistRaw = .ok cfg.hostlist ∧
        Valid cfg := by
  unfold fromToml
  cases T.parse text with
  | error => simp
  | ok t =>
      simp only [Outcome.bind_eq_ok, Outcome.mapErr_eq_ok, Outcome.ok.injEq, Except.ok.injEq,
        exists_eq_left']
      constructor
      · rintro ⟨file, hfile, hosts, hhosts, _, hvalid, rfl⟩
        refine ⟨configFile_describes.mp ?_, hhosts, (validate_iff _).mp hvalid⟩
        rw [hfile, Outcome.ok.injEq]
        funext f
        cases f <;> rfl
      · rintro ⟨hdesc, hhosts, hvalid⟩
        exact ⟨_, configFile_describes.mpr hdesc, _, hhosts, (), (validate_iff cfg).mpr hvalid, rfl⟩

/-! ## Writing again -/

/-- The key is given, and its value is as `P` says. -/
def Table.At {ν : Type} (t : Table ν) (f : Field) (P : ν → Prop) : Prop := ∃ v, t.get f.key = some v ∧ P v

/-- `t` gives every key of `cfg`, in one of the ways a person may write it, and `hosts` for its hosts. -/
structure Table.Spells (t : Table T.Value) (cfg : Config) (hosts : List Str) : Prop where
  clientAddr : t.At .clientAddr fun v => T.string v = .ok cfg.clientAddr
  testAddr : t.At .testAddr fun v => T.string v = .ok cfg.testAddr
  network : t.At .network fun v => T.variant Network.name [.tcp, .udp] v = .ok cfg.network
  payloadSize : t.At .payloadSize fun v =>
    (∃ i, T.any v = .integer i ∧ i.toInt = cfg.payloadSize.toNat) ∨
      T.any v = .string (Nat.toDigits 10 cfg.payloadSize.toNat)
  workers : t.At .workers fun v => T.u32 v = .ok cfg.workers
  testType : t.At .testType fun v => T.variant TestType.name [.pairs, .mesh] v = .ok cfg.testType
  hostlist : t.At .hostlist fun v =>
    (∃ items, T.any v = .array items ∧ List.Forall₂ (fun v s => T.string v = .ok s) items hosts) ∨
      T.any v = .string ([','].intercalate hosts)
  tag : t.At .tag fun v => T.string v = .ok cfg.tag

theorem parseSize_toDigits (n : UInt64) : parseSize (Nat.toDigits 10 n.toNat) = .ok n := by
  have hdigits : (Nat.toDigits 10 n.toNat).all Char.isDigit = true :=
    List.all_eq_true.mpr fun c hc => toDigits_isDigit hc
  let size : Size :=
    { number := ⟨Nat.toDigits 10 n.toNat, Nat.toDigits_ne_nil, hdigits⟩
      spaces := 0
      unit := []
      factor := 1
      known := by decide }
  have htext : size.text = Nat.toDigits 10 n.toNat := List.append_nil _
  have hvalue : size.number.value = n.toNat := digitsVal_toDigits n.toNat
  have hparse := @parseSize_number size rfl (hvalue ▸ n.toNat_lt)
  rwa [htext, hvalue, UInt64.ofNat_toNat] at hparse

theorem Table.Spells.describes {t : Table T.Value} {cfg : Config} (h : t.Spells cfg cfg.hostlistRaw)
    (hraw : ∀ x ∈ cfg.hostlistRaw, HostText x) : t.Describes cfg := by
  have hgiven : ∀ {f : Field} {P : T.Value → Prop}, t.At f P → (∀ v, P v → Denotes f v (f.of cfg)) →
      match t.get f.key with
        | none => f.default = some (f.of cfg)
        | some v => Denotes f v (f.of cfg) := by
    rintro f P ⟨v, hv, hP⟩ hdenotes
    rw [hv]
    exact hdenotes v hP
  intro f
  cases f with
  | clientAddr => exact hgiven h.clientAddr fun _ hv => hv
  | testAddr => exact hgiven h.testAddr fun _ hv => hv
  | network => exact hgiven h.network fun _ hv => hv
  | payloadSize =>
      refine hgiven h.payloadSize fun v hv => ?_
      rcases hv with hi | hs
      · exact .inl hi
      · exact .inr ⟨_, hs, parseSize_toDigits _⟩
  | workers => exact hgiven h.workers fun _ hv => hv
  | testType => exact hgiven h.testType fun _ hv => hv
  | hostlist =>
      refine hgiven h.hostlist fun v hv => ?_
      rcases hv with ⟨items, ha, hitems⟩ | hs
      · exact .inr ⟨items, _, ha, hitems, (flatMap_split hraw).symm⟩
      · exact .inl ⟨_, hs, ((splitHosts_join _).trans (flatMap_split hraw)).symm⟩
  | tag => exact hgiven h.tag fun _ hv => hv

theorem Table.Describes.hosts_text {t : Table T.Value} {cfg : Config} (h : t.Describes cfg) :
    ∀ x ∈ cfg.hostlistRaw, HostText x := by
  have hhosts := h .hostlist
  intro x hx
  cases hv : t.get Field.hostlist.key with
  | none =>
      rw [hv] at hhosts
      cases hhosts
  | some v =>
      rw [hv] at hhosts
      rcases hhosts with ⟨s, -, hs⟩ | ⟨items, ss, -, -, hs⟩
      · change cfg.hostlistRaw = splitHosts s at hs
        rw [hs] at hx
        exact splitHosts_text hx
      · change cfg.hostlistRaw = ss.flatMap splitHosts at hs
        rw [hs] at hx
        obtain ⟨s, -, hxs⟩ := List.mem_flatMap.mp hx
        exact splitHosts_text hxs

theorem Valid.raw {cfg : Config} (h : Valid cfg) (raw : List Str) : Valid { cfg with hostlistRaw := raw } :=
  ⟨h.tag, h.workers, h.payloadSize, h.hostlist, h.clientAddr, h.testAddr⟩

/-- A file is loaded as `cfg` exactly when its keys, in any order and among any others, describe `cfg`, and
its hosts expand to those of `cfg`, which is valid. A loaded config, written out with the hosts as they were
given, is loaded as itself; written out with the hosts they expand to, it is loaded with the same hosts. -/
theorem loaded_as_written (T : Toml) :
    (∀ text cfg, fromToml T text = .ok cfg ↔
      ∃ t, T.parse text = .ok t ∧ t.Describes cfg ∧ expandHostlist cfg.hostlistRaw = .ok cfg.hostlist ∧
        Valid cfg) ∧
    ∀ text text' cfg t, fromToml T text = .ok cfg → T.parse text' = .ok t →
      (t.Spells cfg cfg.hostlistRaw → fromToml T text' = .ok cfg) ∧
        (t.Spells cfg cfg.hostlist → fromToml T text' = .ok { cfg with hostlistRaw := cfg.hostlist }) := by
  refine ⟨fun text cfg => fromToml_eq_ok, fun text text' cfg t h ht => ?_⟩
  obtain ⟨t₀, -, hdesc, hexpand, hvalid⟩ := fromToml_eq_ok.mp h
  have hraw := hdesc.hosts_text
  constructor
  · intro hspells
    exact fromToml_eq_ok.mpr ⟨t, ht, hspells.describes hraw, hexpand, hvalid⟩
  · intro hspells
    have hspells : t.Spells { cfg with hostlistRaw := cfg.hostlist } cfg.hostlist :=
      ⟨hspells.clientAddr, hspells.testAddr, hspells.network, hspells.payloadSize, hspells.workers,
        hspells.testType, hspells.hostlist, hspells.tag⟩
    refine fromToml_eq_ok.mpr ⟨t, ht, ?_, expandHostlist_again hexpand, hvalid.raw _⟩
    exact @Table.Spells.describes T t { cfg with hostlistRaw := cfg.hostlist } hspells
      (expandHostlist_text hexpand hraw)

/-- `n{1..2}` -/
def twoHosts : Pattern where
  lead := ⟨"n".toList, by decide⟩
  parts := [(⟨⟨"1".toList, "2".toList, by decide, by decide, by decide, by decide⟩, by decide⟩, ⟨[], by decide⟩)]

def loaded : Config where
  clientAddr := defaultClientAddr
  testAddr := "10.0.0.1:9100".toList
  network := .tcp
  payloadSize := defaultPayloadSize
  workers := defaultWorkers
  testType := .mesh
  hostlist := twoHosts.hosts
  hostlistRaw := [twoHosts.text]
  tag := "t".toList

/-- A value of TOML, as far as the two files have any. -/
inductive SampleValue
  | string (s : Str)
  | integer (v : Int64)
  | float
  | array (items : List SampleValue)
  | table (entries : List (Str × SampleValue))

namespace SampleValue

def any : SampleValue → Shown SampleValue
  | string s => .string s
  | integer v => .integer v
  | array items => .array items
  | _ => .other

def asString : SampleValue → Except Str Str
  | string s => .ok s
  | _ => .error "invalid type: expected a string".toList

def asU32 : SampleValue → Except Str UInt32
  | integer v =>
      if 0 ≤ v.toInt ∧ v.toInt < 2 ^ 32 then .ok (UInt32.ofNat v.toInt.toNat)
      else .error "invalid value: expected u32".toList
  | _ => .error "invalid type: expected u32".toList

/-- The name of a variant, or a table with that key alone and nothing under it. -/
def asVariant {α : Type} (name : α → Str) (variants : List α) : SampleValue → Except Str α
  | string s | table [(s, table [])] =>
      match variants.find? fun a => name a = s with
      | some a => .ok a
      | none => .error "unknown variant".toList
  | _ => .error "wanted string or table".toList

end SampleValue

/-- The keys without a default, the type and a key that is not known. -/
def shortFile : Table SampleValue where
  entries := [("tag".toList, .string "t".toList), ("type".toList, .string "mesh".toList),
    ("colour".toList, .float), ("hostlist".toList, .string ", n{1..2} ".toList),
    ("test_addr".toList, .string "10.0.0.1:9100".toList)]
  nodup := by decide

def shortText : Str :=
  "tag = 't'\ntype = 'mesh'\ncolour = 0.5\nhostlist = ', n{1..2} '\ntest_addr = '10.0.0.1:9100'".toList

/-- Every key, the network as a table and the hosts one by one. -/
def longFile : Table SampleValue where
  entries := [("client_addr".toList, .string "0.0.0.0:7777".toList),
    ("test_addr".toList, .string "10.0.0.1:9100".toList),
    ("network".toList, .table [("tcp".toList, .table [])]),
    ("payload_size".toList, .string "104857600".toList), ("workers".toList, .integer 10),
    ("type".toList, .string "mesh".toList),
    ("hostlist".toList, .array [.string "n1".toList, .string "n2".toList]),
    ("tag".toList, .string "t".toList)]
  nodup := by decide

def longText : Str :=
  ("client_addr = '0.0.0.0:7777'\ntest_addr = '10.0.0.1:9100'\nnetwork = { tcp = { } }\n" ++
    "payload_size = '104857600'\nworkers = 10\ntype = 'mesh'\nhostlist = ['n1', 'n2']\ntag = 't'").toList

/-- What the parser makes of the two texts. -/
def parseSample (text : Str) : Except Str (Table SampleValue) :=
  if text = shortText then .ok shortFile
  else if text = longText then .ok longFile
  else .error "neither of the two".toList

def sampleToml : Toml where
  Value := SampleValue
  parse := parseSample
  any := SampleValue.any
  string := SampleValue.asString
  u32 := SampleValue.asU32
  variant := SampleValue.asVariant

theorem sampleToml_parse (text : Str) : sampleToml.parse text = parseSample text := rfl

theorem sampleToml_short : sampleToml.parse shortText = .ok shortFile :=
  (sampleToml_parse shortText).trans (if_pos rfl)

theorem sampleToml_long : sampleToml.parse longText = .ok longFile := by
  have hne : longText ≠ shortText := by decide +kernel
  exact (sampleToml_parse longText).trans ((if_neg hne).trans (if_pos rfl))

theorem loaded_as_written_short_long :
    fromToml sampleToml shortText = .ok loaded ∧
      fromToml sampleToml longText = .ok { loaded with hostlistRaw := loaded.hostlist } := by
  obtain ⟨hloads, hagain⟩ := loaded_as_written sampleToml
  have hshort : fromToml sampleToml shortText = .ok loaded := by
    refine (hloads _ _).mpr ⟨shortFile, sampleToml_short, ?_, ?_, ?_⟩
    · intro f
      cases f with
      | hostlist => exact .inl ⟨", n{1..2} ".toList, rfl, by decide +kernel⟩
      | clientAddr | testAddr | network | payloadSize | workers | testType | tag => rfl
    · exact (expandItems .nil [twoHosts]).1 (by decide +kernel)
    · exact (validate_iff loaded).mp (by decide +kernel)
  refine ⟨hshort, (hagain shortText longText loaded longFile hshort sampleToml_long).2 ?_⟩
  refine ⟨⟨_, rfl, rfl⟩, ⟨_, rfl, rfl⟩, ⟨_, rfl, rfl⟩, ⟨_, rfl, .inr rfl⟩, ⟨_, rfl, rfl⟩, ⟨_, rfl, rfl⟩,
    ⟨_, rfl, .inl ⟨_, rfl, .cons rfl (.cons rfl .nil)⟩⟩, ⟨_, rfl, rfl⟩⟩

end Tperf.Config

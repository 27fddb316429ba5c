import Tperf.Lib.F64
import Tperf.Lib.Parse

/-!
# Sizes
-/

namespace Tperf.Config
open Lib

/-- The errors of `parse_size`, with the values their texts print. -/
inductive SizeError
  /-- `empty size` -/
  | empty
  /-- `invalid size {s:?}` -/
  | invalid (s : Str)
  /-- `invalid size number in {s:?}` -/
  | number (s : Str)
  /-- `size must be non-negative` -/
  | negative
  /-- `unknown size unit {other:?} in {s:?}` -/
  | unknownUnit (other s : Str)
  /-- `size {s:?} is out of range` -/
  | outOfRange (s : Str)
  deriving DecidableEq, Repr

/-- `c.is_ascii_digit() || c == b'.'` -/
def isSizeByte (c : UInt8) : Bool := ('0'.toUInt8 ≤ c && c ≤ '9'.toUInt8) || c == '.'.toUInt8

/-- `s.parse::<f64>()` for a text of digits and dots: one dot at most, and a digit. -/
def parseF64 (s : Str) : Option F64 :=
  match splitOnce '.' s with
  | none => (parseDigits s).map fun n => F64.ofRat n
  | some (whole, fraction) =>
      (parseDigits (whole ++ fraction)).map fun n => F64.ofRat (n / 10 ^ fraction.length)

/-- The table of units; the products of the source are exact. -/
def sizeUnit : Str → Option F64
  | [] | ['b'] => some (.finite 1)
  | ['k'] | ['k', 'b'] => some (.finite 1000)
  | ['k', 'i'] | ['k', 'i', 'b'] => some (.finite 1024)
  | ['m'] | ['m', 'b'] => some (.finite (1000 * 1000))
  | ['m', 'i'] | ['m', 'i', 'b'] => some (.finite (1024 * 1024))
  | ['g'] | ['g', 'b'] => some (.finite (1000 * 1000 * 1000))
  | ['g', 'i'] | ['g', 'i', 'b'] => some (.finite (1024 * 1024 * 1024))
  | _ => none

/-- `u64::MAX as f64` -/
def u64MaxAsF64 : F64 := F64.ofRat (2 ^ 64 - 1)

def parseSize (s : Str) : Outcome SizeError UInt64 :=
  let s := trim s
  if s = [] then .err .empty
  else match parseUnsigned (2 ^ 64) s with
    | some n => .ok (UInt64.ofNat n)
    | none =>
        let i := ((utf8 s).takeWhile isSizeByte).length
        if i = 0 then .err (.invalid s)
        else sliceTo s i >>= fun digits =>
          match parseF64 digits with
          | none => .err (.number s)
          | some num =>
              if num.lt (.finite 0) then .err .negative
              else sliceFrom s i >>= fun rest =>
                let unit := (trim rest).map Char.toLower
                match sizeUnit unit with
                | none => .err (.unknownUnit unit s)
                | some mul =>
                    let v := num.mul mul
                    if v.isFinite = false ∨ u64MaxAsF64.lt v = true then .err (.outOfRange s)
                    else .ok v.round.toU64

/-- The TOML values that `deser_payload` visits. -/
inductive PayloadValue
  | int (v : Int64)
  | str (s : Str)

/-- The errors of `deser_payload`. -/
inductive PayloadError
  /-- `payload_size must be >= 0` -/
  | negative
  | size (e : SizeError)
  deriving DecidableEq, Repr

def deserPayload : PayloadValue → Outcome PayloadError UInt64
  | .int v => if v < 0 then .err .negative else .ok v.toUInt64
  | .str s => match parseSize s with
      | .ok n => .ok n
      | .err e => .err (.size e)
      | .panic => .panic

/-! ## What a size says -/

/-- A nonempty string of digits. -/
abbrev Numeral := { s : Str // s ≠ [] ∧ s.all Char.isDigit = true }

def Numeral.value (d : Numeral) : Nat := digitsVal d.val

/-- The units and their factors. -/
def units : List (Str × Nat) :=
  [([], 1), ("b".toList, 1), ("k".toList, 1000), ("kb".toList, 1000), ("ki".toList, 1024),
    ("kib".toList, 1024), ("m".toList, 1000 ^ 2), ("mb".toList, 1000 ^ 2), ("mi".toList, 1024 ^ 2),
    ("mib".toList, 1024 ^ 2), ("g".toList, 1000 ^ 3), ("gb".toList, 1000 ^ 3), ("gi".toList, 1024 ^ 3),
    ("gib".toList, 1024 ^ 3)]

/-- A number, spaces, and a unit in any letter case. -/
structure Size where
  number : Numeral
  spaces : Nat
  unit : Str
  factor : Nat
  known : (unit.map Char.toLower, factor) ∈ units

namespace Size

def text (t : Size) : Str := t.number.val ++ (List.replicate t.spaces ' ' ++ t.unit)

def bytes (t : Size) : Nat := t.number.value * t.factor

end Size

end Tperf.Config

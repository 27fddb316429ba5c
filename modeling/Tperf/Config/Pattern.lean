import Tperf.Config.Hostlist

/-!
# What a host pattern says

A range is a pair of digit strings; a pattern is text and ranges in turn, and stands for every way of
writing a number of the range in its place. The statements about the expansion are in these terms.
-/

namespace Tperf.Config
open Lib

/-- `{a..b}` -/
structure Range where
  a : Str
  b : Str
  a_ne : a ≠ []
  b_ne : b ≠ []
  a_digits : a.all Char.isDigit = true
  b_digits : b.all Char.isDigit = true

namespace Range

variable (r : Range)

def inner : Str := r.a ++ '.' :: '.' :: r.b

def text : Str := '{' :: r.inner ++ ['}']

def first : Nat := digitsVal r.a

def last : Nat := digitsVal r.b

def size : Nat := max r.first r.last - min r.first r.last + 1

/-- From `a` to `b`, upwards or downwards. -/
def numbers : List Nat :=
  (List.range r.size).map fun k => if r.first ≤ r.last then r.first + k else r.first - k

/-- The length of `a` when it has more than one digit and starts with 0. -/
def width : Nat := if 1 < r.a.length ∧ r.a.head? = some '0' then r.a.length else 0

def name (n : Nat) : Str :=
  let digits := Nat.toDigits 10 n
  List.replicate (r.width - digits.length) '0' ++ digits

def names : List Str := r.numbers.map r.name

/-- The range is in `i64` and has at most 10,000 numbers. -/
def Accepted : Prop := r.first < 2 ^ 63 ∧ r.last < 2 ^ 63 ∧ r.size ≤ 10000

instance : Decidable r.Accepted := inferInstanceAs (Decidable (_ ∧ _ ∧ _))

theorem names_length : r.names.length = r.size := by simp [names, numbers]

end Range

/-! ## Patterns without nesting -/

/-- Text without braces. -/
abbrev Literal := { s : Str // '{' ∉ s ∧ '}' ∉ s }

/-- A range and the text behind it. -/
abbrev Part := { r : Range // r.Accepted } × Literal

def Part.text (q : Part) : Str := q.1.val.text ++ q.2.val

/-- `L0 R1 L1 … Rk Lk` -/
structure Pattern where
  lead : Literal
  parts : List Part

namespace Pattern

def text (p : Pattern) : Str := p.lead.val ++ p.parts.flatMap Part.text

/-- Every choice of one name for each range; the leftmost range varies slowest. -/
def product (lead : Str) : List Part → List Str
  | [] => [lead]
  | (r, lit) :: parts =>
      r.val.names.flatMap fun x => (product lit.val parts).map fun t => lead ++ x ++ t

def hosts (p : Pattern) : List Str := product p.lead.val p.parts

end Pattern

/-! ## Substitution in any text -/

/-- The first range that the scan finds in `pat`, between `start` and `stop`. -/
structure Found (pat start : Str) (r : Range) (stop : Str) : Prop where
  text : pat = start ++ r.text ++ stop
  scan : findRange pat = .ok (some (byteLen start, byteLen start + 1 + byteLen r.inner, start, stop))

/-- Substituting names for the first range again and again, by their places in the range, makes `p` of
`pat`. -/
inductive Reaches : Str → List Nat → Str → Prop
  | here (pat : Str) : Reaches pat [] pat
  | there {pat start stop x p : Str} {r : Range} {i : Nat} {path : List Nat}
      (found : Found pat start r stop) (accepted : r.Accepted) (name : r.names[i]? = some x)
      (rest : Reaches (start ++ x ++ stop) path p) : Reaches pat (i :: path) p

/-- Nothing is left to substitute. -/
def Plain (p : Str) : Prop := findRange p = .ok none

/-- The range of `p` has too many numbers to be collected into a vector. -/
def Huge (p : Str) : Prop :=
  ∃ start r stop, Found p start r stop ∧ r.first < 2 ^ 63 ∧ r.last < 2 ^ 63 ∧ 2 ^ 60 ≤ r.size

/-- A brace of `p` is not closed, or its range is not in `i64` or has more than 10,000 numbers but is not
huge. -/
def Rejected (p : Str) : Prop :=
  findRange p = .err (.unterminated p) ∨
    ∃ start r stop, Found p start r stop ∧
      (r.first < 2 ^ 63 ∧ r.last < 2 ^ 63 → 10000 < r.size ∧ r.size < 2 ^ 60)

end Tperf.Config

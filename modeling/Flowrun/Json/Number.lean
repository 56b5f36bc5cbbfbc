import Flowrun.Decimal.Shortest

/-!
# Numbers of a JSON text

A number is an integer or a double precision number, and the two never compare equal: `1` and
`1.0` are different values. A `Numeral` is a number as written; `Numeral.number?` gives it its
value:

* without a fraction and an exponent, a numeral from -2^63 to 2^64 - 1 is an integer, except `-0`;
* every other one is a double precision number. Its leading digits are taken as long as they fit
  in 64 bits; the number they make is rounded, and scaled by a power of ten that is rounded too.
  A numeral beyond the greatest number has no value.

The scaling is exact for short numerals, and its two roundings are part of the value of long ones.
-/

namespace Flowrun.Json

open Decimal

/-- An integer or a double precision number. -/
inductive Number
  | integer (n : Int)
  | real (x : Binary64)
  deriving DecidableEq, Repr, Inhabited

/-- A number as written: sign, digits, digits after the point, exponent. -/
structure Numeral where
  negative : Bool
  whole : List Char
  fraction : Option (List Char)
  /-- Whether the exponent is negative, and its digits. -/
  exponent : Option (Bool × List Char)
  deriving DecidableEq, Repr

def digitValue (c : Char) : Nat := c.toNat - 48

def digitsValue (ds : List Char) : Nat := ds.foldl (fun n c => n * 10 + digitValue c) 0

/-- The first number that no longer fits in 64 bits. -/
def wordLimit : Nat := Nat.pow 2 64

/-- Append digits to `n` as long as the result fits in 64 bits; also the digits left over. -/
def absorb (n : Nat) : List Char → Nat × List Char
  | [] => (n, [])
  | c :: cs =>
    let m := n * 10 + digitValue c
    if m < wordLimit then absorb m cs else (n, c :: cs)

/-- The double nearest to `10^k`, for `k` up to 308. -/
def powerOfTen (k : Nat) : Magnitude := (Magnitude.nearest (Nat.pow 10 k) 1).getD .zero

/-- The greatest power of ten that is scaled by in one step. -/
def greatestPower : Nat := 308

/-- Divide `n` times by the greatest power of ten, as long as that leaves anything. -/
def shrink : Nat → Magnitude → Magnitude
  | 0, x => x
  | n + 1, x => if x.isZero then x else shrink n ((x.dividedBy (powerOfTen greatestPower)).getD .zero)

/-- Scale by `10^k`, in steps of at most the greatest power of ten. -/
def scaleTen (x : Magnitude) (k : Int) : Option Magnitude :=
  let n := k.natAbs
  if 0 ≤ k then
    if n ≤ greatestPower then x.times (powerOfTen n)
    else if x.isZero then some x else none
  else
    let steps := (n - 1) / greatestPower
    (shrink steps x).dividedBy (powerOfTen (n - greatestPower * steps))

/-- The double precision number of a numeral. -/
def Numeral.real? (t : Numeral) : Option Binary64 :=
  let (head, dropped) := absorb 0 t.whole
  let after := t.fraction.getD []
  let (digits, ignored) := absorb head after
  let shift : Int := (dropped.length : Int) - ((after.length - ignored.length : Nat) : Int)
  match t.exponent with
  | none =>
    (Magnitude.nearest digits 1).bind fun x => (scaleTen x shift).map (Binary64.mk t.negative)
  | some (below, ds) =>
    let e := digitsValue ds
    if e < Nat.pow 2 31 then
      let k : Int := if below then shift - e else shift + e
      (Magnitude.nearest digits 1).bind fun x => (scaleTen x k).map (Binary64.mk t.negative)
    else if digits ≠ 0 ∧ below = false then none
    else some ⟨t.negative, .zero⟩

/-- The integer of a numeral without fraction and exponent, if it is in range. -/
def Numeral.integer? (t : Numeral) : Option Int :=
  if t.fraction.isSome || t.exponent.isSome then none
  else
    let n := digitsValue t.whole
    if t.negative then
      if 0 < n ∧ n ≤ Nat.pow 2 63 then some (-(n : Int)) else none
    else if n < wordLimit then some n else none

def Numeral.number? (t : Numeral) : Option Number :=
  match t.integer? with
  | some n => some (.integer n)
  | none => t.real?.map .real

/-! ### Reading a numeral -/

/-- The digits at the front, and what follows them. -/
def digitRun (cs : List Char) : List Char × List Char :=
  (cs.takeWhile Char.isDigit, cs.dropWhile Char.isDigit)

/-- The digits before the point: a zero, or a run that does not start with one. -/
def wholePart : List Char → Option (List Char × List Char)
  | [] => none
  | '0' :: cs => some (['0'], cs)
  | c :: cs => if c.isDigit then some (digitRun (c :: cs)) else none

/-- The digits after a point; at least one is required. -/
def fractionPart : List Char → Option (Option (List Char) × List Char)
  | '.' :: cs => match digitRun cs with
    | ([], _) => none
    | (ds, rest) => some (some ds, rest)
  | cs => some (none, cs)

/-- The exponent; at least one digit is required. -/
def exponentPart (cs : List Char) : Option (Option (Bool × List Char) × List Char) :=
  match cs with
  | c :: rest =>
    if c = 'e' ∨ c = 'E' then
      let (below, rest) := match rest with
        | '-' :: r => (true, r)
        | '+' :: r => (false, r)
        | r => (false, r)
      match digitRun rest with
      | ([], _) => none
      | (ds, rest) => some (some (below, ds), rest)
    else some (none, cs)
  | [] => some (none, [])

/-- The numeral at the front of a text, and what follows it. -/
def Numeral.scan (cs : List Char) : Option (Numeral × List Char) := do
  let (negative, cs) := match cs with
    | '-' :: rest => (true, rest)
    | rest => (false, rest)
  let (whole, cs) ← wholePart cs
  let (fraction, cs) ← fractionPart cs
  let (exponent, cs) ← exponentPart cs
  return (⟨negative, whole, fraction, exponent⟩, cs)

/-! ### Writing a number -/

/-- Sixteen digits may stand before the point and four zeros after it; all else has an exponent. A
number without a fraction is written with `.0`, which tells it from an integer. -/
def Number.layout : Layout := ⟨-4, 16, "e", "+", ".0"⟩

def Number.text : Number → String
  | .integer n => toString n
  | .real x => Number.layout.text x

end Flowrun.Json

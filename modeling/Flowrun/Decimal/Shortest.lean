import Flowrun.Decimal.Binary64

/-!
# The shortest decimal of a double precision number

Many decimals round to one magnitude; they are the points of its `Rounding` interval. `shortest`
finds the one with the fewest digits and, among those, the nearest to the magnitude itself; two
that are equally near are told apart by an even last digit.

It looks at the grids `10^p` one after the other, from one digit to seventeen. If some point of
a grid lies in the interval, then so does one of the two neighbours of the magnitude on that grid,
so these two are all that has to be tested.

`Layout` holds how a decimal is written: where the point may stand without an exponent, and how an
exponent looks.
-/

namespace Flowrun.Decimal

/-- The number `digits · 10^exponent`. -/
structure Scaled where
  digits : Nat
  exponent : Int
  deriving DecidableEq, Repr, Inhabited

/-- The reals that round to one magnitude, in quarters of its unit in the last place. -/
structure Rounding where
  lower : Nat
  value : Nat
  upper : Nat
  /-- Whether the two ends round to the magnitude as well. -/
  closed : Bool
  /-- The unit is `2^exponent`. -/
  exponent : Int

/-- A power of two has a nearer neighbour below; the ends belong to an even mantissa. -/
def Magnitude.rounding (x : Magnitude) : Rounding :=
  let m := x.mantissa
  let nearBelow := m == Nat.pow 2 52 && decide (-1074 < x.exponent)
  { lower := 4 * m - (if nearBelow then 1 else 2), value := 4 * m, upper := 4 * m + 2,
    closed := m % 2 == 0, exponent := x.exponent - 2 }

namespace Rounding

/-- A point of the grid `10^p` and a number of units, brought to one scale. -/
def onScale (i : Rounding) (p : Int) (point units : Nat) : Nat × Nat :=
  (point * Nat.pow 10 p.toNat * Nat.pow 2 (-i.exponent).toNat,
    units * Nat.pow 10 (-p).toNat * Nat.pow 2 i.exponent.toNat)

/-- Whether `point · 10^p` rounds to the magnitude. -/
def holds (i : Rounding) (p : Int) (point : Nat) : Bool :=
  let (c, lo) := i.onScale p point i.lower
  let (_, hi) := i.onScale p point i.upper
  if i.closed then lo ≤ c && c ≤ hi else lo < c && c < hi

/-- The last point of the grid `10^p` that is not above the magnitude. -/
def below (i : Rounding) (p : Int) : Nat :=
  let (unit, v) := i.onScale p 1 i.value
  v / unit

/-- Whether the point after `q` is nearer to the magnitude than `q` itself, or as near and even. -/
def upperWins (i : Rounding) (p : Int) (q : Nat) : Bool :=
  let (c, v) := i.onScale p q i.value
  let (c', _) := i.onScale p (q + 1) i.value
  decide (c' - v < v - c) || (c' - v == v - c && q % 2 == 1)

/-- The best point of the grid `10^p` in the interval. -/
def pick (i : Rounding) (p : Int) : Option Nat :=
  let q := i.below p
  match i.holds p q, i.holds p (q + 1) with
  | true, true => some (if i.upperWins p q then q + 1 else q)
  | true, false => some q
  | false, true => some (q + 1)
  | false, false => none

/-- The exponent of the greatest power of ten that is at most the magnitude, found by stepping
down from `p`. -/
def topPower (i : Rounding) : Nat → Int → Int
  | 0, p => p
  | n + 1, p => if i.below p = 0 then topPower i n (p - 1) else p

end Rounding

/-- Move the zeros at the end of the digits into the exponent. -/
def Scaled.trimmed (x : Scaled) : Scaled :=
  go x.digits x.digits x.exponent
where
  go : Nat → Nat → Int → Scaled
    | 0, d, e => ⟨d, e⟩
    | n + 1, d, e => if d ≠ 0 ∧ d % 10 = 0 then go n (d / 10) (e + 1) else ⟨d, e⟩

/-- The shortest decimal that rounds to `x`. -/
def Magnitude.shortest (x : Magnitude) : Scaled :=
  if x.isZero then ⟨0, 0⟩
  else
    let i := x.rounding
    let top := i.topPower 640 310
    let tries := (List.range 17).filterMap fun (n : Nat) =>
      let p := top - n
      (i.pick p).map fun d => Scaled.mk d p
    match tries with
    | d :: _ => d.trimmed
    | [] => ⟨x.mantissa, 0⟩

/-- How a decimal is written. The position of the point counts the digits before it. -/
structure Layout where
  /-- The least position that is written without an exponent. -/
  leastPosition : Int
  /-- The greatest one. -/
  greatestPosition : Int
  /-- Stands before the exponent. -/
  mark : String
  /-- The sign of an exponent that is not negative. -/
  plus : String
  /-- Closes a positional number that has no digit after the point. -/
  whole : String

/-- Write a decimal that is not negative. -/
def Layout.render (l : Layout) (x : Scaled) : String :=
  let ds := (Nat.toDigits 10 x.digits)
  let n : Int := ds.length
  let k : Int := if x.digits = 0 then 1 else n + x.exponent
  let zeros (c : Int) : List Char := List.replicate c.toNat '0'
  if k < l.leastPosition ∨ l.greatestPosition < k then
    let e := k - 1
    let head := match ds with
      | [] => []
      | [d] => [d]
      | d :: rest => d :: '.' :: rest
    String.ofList head ++ l.mark ++ (if e < 0 then "-" else l.plus) ++ toString e.natAbs
  else if k ≤ 0 then String.ofList ('0' :: '.' :: (zeros (-k) ++ ds))
  else if k < n then String.ofList (ds.take k.toNat ++ '.' :: ds.drop k.toNat)
  else String.ofList (ds ++ zeros (k - n)) ++ l.whole

/-- Write a number, with a sign in front of a negative one. -/
def Layout.text (l : Layout) (x : Binary64) : String :=
  (if x.negative then "-" else "") ++ l.render x.magnitude.shortest

end Flowrun.Decimal

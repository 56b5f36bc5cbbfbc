/-!
# Double precision numbers

A `Binary64` is a finite number `±m · 2^e` of the double precision format, kept as its sign, its
mantissa and its exponent; there is no machine arithmetic behind it. `Magnitude` is the part
without the sign.

`nearest n d` is the magnitude that lies closest to the fraction `n / d`; of two equally close ones
it takes the one with the even mantissa. Products and quotients are the exact ones, rounded
once by `nearest`.
-/

namespace Flowrun.Decimal

/-- A number `m · 2^e`. -/
structure Magnitude where
  /-- Fewer than 2^53. -/
  mantissa : Nat
  /-- From -1074 to 971. -/
  exponent : Int
  deriving DecidableEq, Repr, Inhabited

/-- A finite number of the double precision format. -/
structure Binary64 where
  /-- The sign, also of zero. -/
  negative : Bool
  magnitude : Magnitude
  deriving DecidableEq, Repr, Inhabited

/-- `n / d` as a whole number; a half goes to the even neighbour. -/
def roundHalfEven (n d : Nat) : Nat :=
  let q := n / d
  let r := n % d
  if 2 * r < d || (2 * r == d && q % 2 == 0) then q else q + 1

/-- The two sides of the comparison of `n / d` with powers of `b`: `n / d` relates to `b^k` as the
first number to the second. -/
def atPower (b : Nat) (n d : Nat) (k : Int) : Nat × Nat :=
  (n * Nat.pow b (-k).toNat, d * Nat.pow b k.toNat)

namespace Magnitude

/-- Zero, with the least exponent. -/
def zero : Magnitude := ⟨0, -1074⟩

def isZero (x : Magnitude) : Bool := x.mantissa == 0

/-- The number as a fraction. -/
def fraction (x : Magnitude) : Nat × Nat := atPower 2 x.mantissa 1 (-x.exponent)

/-- The exponent of the greatest power of two that is at most `n / d`. -/
def topExponent (n d : Nat) : Int :=
  let k : Int := Nat.log2 n - Nat.log2 d
  let (a, b) := atPower 2 n d k
  if b ≤ a then k else k - 1

/-- The magnitude nearest to `n / d`, or `none` beyond the greatest one. -/
def nearest (n d : Nat) : Option Magnitude :=
  if n = 0 then some zero
  else
    let e := max (topExponent n d - 52) (-1074)
    let (a, b) := atPower 2 n d e
    let m := roundHalfEven a b
    let x : Magnitude := if m = Nat.pow 2 53 then ⟨Nat.pow 2 52, e + 1⟩ else ⟨m, e⟩
    if x.exponent ≤ 971 then some x else none

/-- The rounded product. -/
def times (x y : Magnitude) : Option Magnitude :=
  let (a, b) := x.fraction
  let (c, d) := y.fraction
  nearest (a * c) (b * d)

/-- The rounded quotient. -/
def dividedBy (x y : Magnitude) : Option Magnitude :=
  let (a, b) := x.fraction
  let (c, d) := y.fraction
  nearest (a * d) (b * c)

/-- The magnitude nearest to `n · 10^k`. Exponents that lie far outside the format are answered
without computing the power. -/
def ofDecimal (n : Nat) (k : Int) : Option Magnitude :=
  if n = 0 then some zero
  else if 400 < k then none
  else if k + (Nat.log2 n : Int) < -1200 then some zero
  else nearest (n * Nat.pow 10 k.toNat) (Nat.pow 10 (-k).toNat)

end Magnitude

namespace Binary64

def zero : Binary64 := ⟨false, .zero⟩

def isNegativeZero (x : Binary64) : Bool := x.negative && x.magnitude.isZero

example : Magnitude.nearest 1 10 = some ⟨0x1999999999999A, -56⟩ := by decide +kernel
example : Magnitude.ofDecimal 5 (-324) = some ⟨1, -1074⟩ := by decide +kernel
example : Magnitude.ofDecimal 2 (-324) = some ⟨0, -1074⟩ := by decide +kernel
example : Magnitude.ofDecimal 18 307 = none := by decide +kernel

end Binary64
end Flowrun.Decimal

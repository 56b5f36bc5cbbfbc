import Flowrun.Json.Token
import Flowrun.Json.Value

/-!
# The values of scalars

A plain scalar without a tag has the value that its text looks like: nothing, a truth value, a whole
number, a number with a fraction or an exponent, and a text otherwise.

* A whole number is decimal, or has the prefix `0x`, `0o` or `0b`. Digits with a needless zero in
  front are a text. A number of more than 64 bits has no value; one of more than 128 bits is not
  taken for a whole number.
* Any other number is the double precision number nearest to it; beyond the greatest one it is a
  text. The infinities and not-a-number become null.
-/

namespace Flowrun.Yaml

open Decimal Json

/-- The spellings of null. -/
def isNullWord (s : String) : Bool := ["null", "Null", "NULL", "~"].contains s

/-- The spellings of the truth values. -/
def flagOf? (s : String) : Option Bool :=
  if ["true", "True", "TRUE"].contains s then some true
  else if ["false", "False", "FALSE"].contains s then some false
  else none

/-- The number that digits of a base spell. -/
def digitsOf? (base : Nat) (cs : List Char) : Option Nat := do
  guard (cs ≠ [])
  let ds ← cs.mapM hexValue?
  guard (ds.all (· < base))
  return ds.foldl (fun n d => n * base + d) 0

/-- A text without a sign in front. -/
def unsigned (cs : List Char) : List Char := match cs with
  | '-' :: rest => rest
  | '+' :: rest => rest
  | _ => cs

/-- Digits with a needless zero in front. -/
def hasLeadingZero (cs : List Char) : Bool := match unsigned cs with
  | '0' :: d :: rest => (d :: rest).all Char.isDigit
  | _ => false

def natOf? : List Char → Option Nat
  | '0' :: 'x' :: rest => digitsOf? 16 rest
  | '0' :: 'o' :: rest => digitsOf? 8 rest
  | '0' :: 'b' :: rest => digitsOf? 2 rest
  | cs => if hasLeadingZero cs then none else digitsOf? 10 cs

def integerOf? : List Char → Option Int
  | '-' :: rest => (natOf? rest).map fun n => -(n : Int)
  | '+' :: rest => (natOf? rest).map fun n => (n : Int)
  | cs => (natOf? cs).map fun n => (n : Int)

/-- Whether a number fits in words of so many bits, with a sign or without. -/
def fitsBits (bits : Nat) (n : Int) : Bool :=
  -(Nat.pow 2 (bits - 1) : Int) ≤ n && n < (Nat.pow 2 bits : Int)

/-- Digits, a point and digits, of which one run may be empty, and an exponent. -/
def decimalOf? (cs : List Char) : Option Magnitude := do
  let (whole, cs) := digitRun cs
  let (fraction, cs) := match cs with
    | '.' :: rest => digitRun rest
    | _ => ([], cs)
  guard (whole ≠ [] ∨ fraction ≠ [])
  let (exponent, cs) ← exponentPart cs
  guard (cs = [])
  let shift : Int := match exponent with
    | none => 0
    | some (true, ds) => -(digitsValue ds : Int)
    | some (false, ds) => digitsValue ds
  Magnitude.ofDecimal (digitsValue (whole ++ fraction)) (shift - fraction.length)

/-- The names of the infinities, without a sign. -/
def isInfinity (cs : List Char) : Bool := [".inf", ".Inf", ".INF"].contains (String.ofList cs)

def isNaN (cs : List Char) : Bool := [".nan", ".NaN", ".NAN"].contains (String.ofList cs)

/-- A number that need not be whole, as a value. -/
def realOf? (cs : List Char) : Option Value :=
  let finite (negative : Bool) (cs : List Char) :=
    (decimalOf? cs).map fun x => Value.number (.real ⟨negative, x⟩)
  if isInfinity (unsigned cs) || isNaN cs then some .null
  else match cs with
    | '-' :: rest => finite true rest
    | '+' :: rest => finite false rest
    | _ => finite false cs

/-- The value of a text that is no whole number. -/
def realOrText (s : String) : Value :=
  if hasLeadingZero s.toList then .string s else (realOf? s.toList).getD (.string s)

def plainValue? (s : String) : Option Value :=
  if s = "" ∨ isNullWord s then some .null
  else match flagOf? s, integerOf? s.toList with
    | some b, _ => some (.bool b)
    | none, some n =>
      if fitsBits 64 n then some (.number (.integer n))
      else if fitsBits 128 n then none
      else some (realOrText s)
    | none, none => some (realOrText s)

/-- The value of a text with the tag of a whole number. -/
def integerValue? (s : String) : Option Value := do
  let n ← integerOf? s.toList
  guard (fitsBits 64 n)
  return .number (.integer n)

end Flowrun.Yaml

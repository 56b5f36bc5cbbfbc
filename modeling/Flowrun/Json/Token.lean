import Flowrun.Json.Number

/-!
# Tokens of a JSON text

    text (List Char) ──tokens──▶ tokens (List Token) ──Tree.ofTokens──▶ Tree

`tokens` cuts a text into brackets, separators, literals, numbers and strings, and drops the white
space between them. A string is first read as a run of `Unit`s, since an escape names half of a
character when it stands for a surrogate; `decodeUnits` joins the halves.

A number beyond the greatest one and a string with a lone surrogate are well-formed tokens that have
no value. They carry `none`, so a reader that skips them need not refuse them.
-/

namespace Flowrun.Json

/-- A token of a JSON text. -/
inductive Token
  | openArray
  | closeArray
  | openObject
  | closeObject
  | comma
  | colon
  | null
  | bool (b : Bool)
  | number (n : Option Number)
  | string (s : Option String)
  deriving DecidableEq, Repr

/-- A piece of a string: a character, or the 16 bit unit of a hexadecimal escape. -/
inductive StringUnit
  | char (c : Char)
  | escaped (n : Nat)
  deriving DecidableEq, Repr

def hexValue? (c : Char) : Option Nat :=
  if '0' ≤ c ∧ c ≤ '9' then some (c.toNat - 48)
  else if 'a' ≤ c ∧ c ≤ 'f' then some (c.toNat - 87)
  else if 'A' ≤ c ∧ c ≤ 'F' then some (c.toNat - 55)
  else none

/-- The number that four hexadecimal digits spell. -/
def hexUnit? (a b c d : Char) : Option Nat := do
  let a ← hexValue? a
  let b ← hexValue? b
  let c ← hexValue? c
  let d ← hexValue? d
  return ((a * 16 + b) * 16 + c) * 16 + d

def isHighSurrogate (n : Nat) : Bool := 0xD800 ≤ n && n ≤ 0xDBFF
def isLowSurrogate (n : Nat) : Bool := 0xDC00 ≤ n && n ≤ 0xDFFF

/-- The character of a short escape such as `\n`. -/
def shortEscape? : Char → Option Char
  | '"' => some '"'
  | '\\' => some '\\'
  | '/' => some '/'
  | 'b' => some '\x08'
  | 'f' => some '\x0c'
  | 'n' => some '\n'
  | 'r' => some '\r'
  | 't' => some '\t'
  | _ => none

/-- The units up to the closing quote, and what follows it. Control characters are refused. -/
def stringUnits : List Char → Option (List StringUnit × List Char)
  | [] => none
  | '"' :: rest => some ([], rest)
  | '\\' :: 'u' :: a :: b :: c :: d :: rest => do
    let n ← hexUnit? a b c d
    let (us, rest) ← stringUnits rest
    return (.escaped n :: us, rest)
  | '\\' :: e :: rest => do
    let c ← shortEscape? e
    let (us, rest) ← stringUnits rest
    return (.char c :: us, rest)
  | c :: rest =>
    if c.toNat < 0x20 ∨ c = '\\' then none
    else do
      let (us, rest) ← stringUnits rest
      return (.char c :: us, rest)

/-- The characters of a run of units; `none` at a surrogate without its other half. -/
def decodeUnits : List StringUnit → Option (List Char)
  | [] => some []
  | .char c :: us => (decodeUnits us).map (c :: ·)
  | .escaped n :: us =>
    if isHighSurrogate n then
      match us with
      | .escaped m :: us =>
        if isLowSurrogate m then
          (decodeUnits us).map (Char.ofNat ((n - 0xD800) * 0x400 + (m - 0xDC00) + 0x10000) :: ·)
        else none
      | _ => none
    else if isLowSurrogate n then none
    else (decodeUnits us).map (Char.ofNat n :: ·)

def isSpace (c : Char) : Bool := c == ' ' || c == '\n' || c == '\t' || c == '\r'

/-- The token at the front of a text, and what follows it. -/
def Token.scan : List Char → Option (Token × List Char)
  | [] => none
  | '[' :: cs => some (.openArray, cs)
  | ']' :: cs => some (.closeArray, cs)
  | '\x7b' :: cs => some (.openObject, cs)
  | '\x7d' :: cs => some (.closeObject, cs)
  | ',' :: cs => some (.comma, cs)
  | ':' :: cs => some (.colon, cs)
  | 'n' :: 'u' :: 'l' :: 'l' :: cs => some (.null, cs)
  | 't' :: 'r' :: 'u' :: 'e' :: cs => some (.bool true, cs)
  | 'f' :: 'a' :: 'l' :: 's' :: 'e' :: cs => some (.bool false, cs)
  | '"' :: cs => (stringUnits cs).map fun (us, rest) =>
    (.string ((decodeUnits us).map String.ofList), rest)
  | cs => (Numeral.scan cs).map fun (t, rest) => (.number t.number?, rest)

/-- The tokens of a text. Every token takes a character, so the length of the text bounds their
number. -/
def tokensUpTo : Nat → List Char → Option (List Token)
  | 0, cs => if cs.all isSpace then some [] else none
  | n + 1, cs => match cs.dropWhile isSpace with
    | [] => some []
    | c :: cs => do
      let (t, rest) ← Token.scan (c :: cs)
      let ts ← tokensUpTo n rest
      return t :: ts

def tokens (cs : List Char) : Option (List Token) := tokensUpTo cs.length cs

end Flowrun.Json

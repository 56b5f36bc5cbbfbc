import Flowrun.Json.Token
import Flowrun.Yaml.Scalar.Basic

/-!
# Quoted scalars

In single quotes only the quote itself is special, and is written twice. In double quotes a
backslash starts an escape; before a line break it joins the two lines without a space.
-/

namespace Flowrun.Yaml

open Json (hexValue?)

/-- The character of an escape of one letter. -/
def shortEscape? : Char → Option Char
  | '0' => some '\x00'
  | 'a' => some '\x07'
  | 'b' => some '\x08'
  | 't' => some '\t'
  | '\t' => some '\t'
  | 'n' => some '\n'
  | 'v' => some '\x0b'
  | 'f' => some '\x0c'
  | 'r' => some '\r'
  | 'e' => some '\x1b'
  | ' ' => some ' '
  | '"' => some '"'
  | '/' => some '/'
  | '\\' => some '\\'
  | 'N' => some '\u0085'
  | '_' => some '\u00a0'
  | 'L' => some '\u2028'
  | 'P' => some '\u2029'
  | _ => none

/-- The number of hexadecimal digits of an escape by number. -/
def escapeDigits? : Char → Option Nat
  | 'x' => some 2
  | 'u' => some 4
  | 'U' => some 8
  | _ => none

/-- The character with the number that hexadecimal digits spell. -/
def charOfHex? (digits : List Char) : Option Char := do
  let values ← digits.mapM hexValue?
  let n := values.foldl (fun n d => n * 16 + d) 0
  if n < 0xD800 ∨ (0xDFFF < n ∧ n ≤ 0x10FFFF) then some (Char.ofNat n) else none

def singleQuotedFrom : List Char → Mark → Gap → List Char → Option Scanned
  | [], _, _, _ => none
  | '\r' :: '\n' :: cs, m, gap, done => singleQuotedFrom cs m.down (gap.addBreak '\n') done
  | '\'' :: '\'' :: cs, m, gap, done => singleQuotedFrom cs (m.right 2) {} ('\'' :: gap.onto done)
  | c :: cs, m, gap, done =>
    if isBreak c then singleQuotedFrom cs m.down (gap.addBreak c) done
    else if isBlank c then singleQuotedFrom cs (m.past c) (gap.addBlank c) done
    else if m.column = 0 ∧ startsMarker (c :: cs) then none
    else if c = '\'' then
      some ⟨String.ofList (gap.onto done).reverse, false, ⟨cs, m.past c⟩⟩
    else singleQuotedFrom cs (m.past c) {} (c :: gap.onto done)

def doubleQuotedFrom (text : List Char) (m : Mark) (gap : Gap) (done : List Char) :
    Option Scanned :=
  match text with
  | [] => none
  | '\r' :: '\n' :: cs => doubleQuotedFrom cs m.down (gap.addBreak '\n') done
  | c :: cs =>
    if isBreak c then doubleQuotedFrom cs m.down (gap.addBreak c) done
    else if isBlank c then doubleQuotedFrom cs (m.past c) (gap.addBlank c) done
    else if m.column = 0 ∧ startsMarker (c :: cs) then none
    else
      let done := gap.onto done
      if c = '"' then some ⟨String.ofList done.reverse, false, ⟨cs, m.past c⟩⟩
      else if c = '\\' then match cs with
        | [] => none
        | '\r' :: '\n' :: cs => doubleQuotedFrom cs m.down ⟨[], [], true⟩ done
        | e :: cs =>
          if isBreak e then doubleQuotedFrom cs m.down ⟨[], [], true⟩ done
          else match escapeDigits? e with
            | some n =>
              if cs.length < n then none
              else (charOfHex? (cs.take n)).bind fun x =>
                doubleQuotedFrom (cs.drop n) (m.right (n + 2)) {} (x :: done)
            | none => (shortEscape? e).bind fun x =>
              doubleQuotedFrom cs (m.right 2) {} (x :: done)
      else doubleQuotedFrom cs (m.past c) {} (c :: done)
termination_by text.length
decreasing_by
  all_goals
    simp only [List.length_cons, List.length_drop]
    omega

/-- The scalar in single quotes that starts here. -/
def scanSingleQuoted (c : Cursor) : Option Scanned :=
  let c := c.skip 1
  singleQuotedFrom c.rest c.mark {} []

/-- The scalar in double quotes that starts here. -/
def scanDoubleQuoted (c : Cursor) : Option Scanned :=
  let c := c.skip 1
  doubleQuotedFrom c.rest c.mark {} []

end Flowrun.Yaml

import Flowrun.Json.Token
import Flowrun.Json.Value

/-!
# JSON documents as written

A `Tree` is a JSON document with its fields in the order in which they were written, repeated
ones included. Typed objects are read from trees, where a repeated field can still be refused, and
written as trees, where the fields keep the order of their declaration.

`Tree.ofTokens` runs a small machine over the tokens: a stack of the containers that are still
open, and what may come next. The machine takes one token at a time, so containers may be nested
to any depth.

A `Tree.void` stands for a part that is well formed and yet has no value, such as a string with a
lone surrogate; it can only be skipped.
-/

namespace Flowrun.Json

/-- A JSON document as written. -/
inductive Tree
  | null
  | bool (b : Bool)
  | number (n : Number)
  | string (s : String)
  | array (items : List Tree)
  | object (fields : List (String × Tree))
  /-- Well formed, without a value. -/
  | void
  deriving Repr, Inhabited

/-- A container that is still open; what it holds so far, newest first. -/
inductive Frame
  | array (items : List Tree)
  | object (fields : List (Option String × Tree))
  /-- An object whose next field has its key. -/
  | field (fields : List (Option String × Tree)) (key : Option String)
  deriving Repr

/-- What may come next. -/
inductive Expecting
  | value
  /-- A value, or the end of an array that is still empty. -/
  | valueOrClose
  | key
  /-- A key, or the end of an object that is still empty. -/
  | keyOrClose
  | colon
  | commaOrClose
  deriving DecidableEq, Repr

/-- Reading a document: in the middle of it, or at its end. -/
inductive Reading
  | open (stack : List Frame) (next : Expecting)
  | done (t : Tree)
  deriving Repr

/-- The object of fields that are listed newest first. A key without a value makes the whole object
void. -/
def closeObject (fields : List (Option String × Tree)) : Tree :=
  match fields.reverse.mapM fun f => f.1.map fun k => (k, f.2) with
  | some fs => .object fs
  | none => .void

/-- Put a finished value into the innermost open container. -/
def deliver (t : Tree) : List Frame → Option Reading
  | [] => some (.done t)
  | .array items :: stack => some (.open (.array (t :: items) :: stack) .commaOrClose)
  | .field fields key :: stack =>
    some (.open (.object ((key, t) :: fields) :: stack) .commaOrClose)
  | .object _ :: _ => none

def onValue (stack : List Frame) : Token → Option Reading
  | .null => deliver .null stack
  | .bool b => deliver (.bool b) stack
  | .number n => deliver (match n with | some n => .number n | none => .void) stack
  | .string s => deliver (match s with | some s => .string s | none => .void) stack
  | .openArray => some (.open (.array [] :: stack) .valueOrClose)
  | .openObject => some (.open (.object [] :: stack) .keyOrClose)
  | _ => none

def onKey (stack : List Frame) : Token → Option Reading
  | .string s => match stack with
    | .object fields :: stack => some (.open (.field fields s :: stack) .colon)
    | _ => none
  | _ => none

def onClose (stack : List Frame) (t : Token) : Option Reading :=
  match t, stack with
  | .closeArray, .array items :: stack => deliver (.array items.reverse) stack
  | .closeObject, .object fields :: stack => deliver (closeObject fields) stack
  | _, _ => none

def Reading.step (r : Reading) (t : Token) : Option Reading :=
  match r with
  | .done _ => none
  | .open stack .value => onValue stack t
  | .open stack .valueOrClose => if t = .closeArray then onClose stack t else onValue stack t
  | .open stack .key => onKey stack t
  | .open stack .keyOrClose => if t = .closeObject then onClose stack t else onKey stack t
  | .open stack .colon => if t = .colon then some (.open stack .value) else none
  | .open stack .commaOrClose =>
    if t = .comma then
      match stack with
      | .array _ :: _ => some (.open stack .value)
      | .object _ :: _ => some (.open stack .key)
      | _ => none
    else onClose stack t

namespace Tree

def ofTokens (ts : List Token) : Option Tree :=
  match ts.foldlM Reading.step (.open [] .value) with
  | some (.done t) => some t
  | _ => none

def ofText (s : String) : Option Tree := (tokens s.toList).bind ofTokens

/-! ### Trees and values -/

mutual

def ofValue : Value → Tree
  | .null => .null
  | .bool b => .bool b
  | .number n => .number n
  | .string s => .string s
  | .array items => .array (ofItems items)
  | .object fields => .object (ofFields fields)

def ofItems : List Value → List Tree
  | [] => []
  | v :: vs => ofValue v :: ofItems vs

def ofFields : List (String × Value) → List (String × Tree)
  | [] => []
  | (k, v) :: fs => (k, ofValue v) :: ofFields fs

end

mutual

/-- The value of a document: of two fields with one key the later one stays, and there may be at
most `room` containers inside each other. -/
def value? (room : Nat) : Tree → Option Value
  | .null => some .null
  | .bool b => some (.bool b)
  | .number n => some (.number n)
  | .string s => some (.string s)
  | .array items => match room with
    | 0 => none
    | room + 1 => (items? room items).map .array
  | .object fields => match room with
    | 0 => none
    | room + 1 => (fields? room fields).map fun fs => .object (Dict.ofEntries fs)
  | .void => none

/-- The values of the items of an array. -/
def items? (room : Nat) : List Tree → Option (List Value)
  | [] => some []
  | t :: ts => do
    let v ← value? room t
    let vs ← items? room ts
    return v :: vs

/-- The values of the fields of an object. -/
def fields? (room : Nat) : List (String × Tree) → Option (List (String × Value))
  | [] => some []
  | (k, t) :: fs => do
    let v ← value? room t
    let vs ← fields? room fs
    return (k, v) :: vs

end

/-! ### Building documents -/

def count (n : Nat) : Tree := .number (.integer n)

def optional (s : Option String) : Tree := match s with
  | some s => .string s
  | none => .null

def strings (ss : List String) : Tree := .array (ss.map .string)

/-- A field that is left out when there is nothing to write. -/
def field? (key : String) (t : Option Tree) : List (String × Tree) := match t with
  | some t => [(key, t)]
  | none => []

end Tree

/-- The number of containers that may be nested in a document that is read. -/
def depthLimit : Nat := 127

def Value.ofText (s : String) : Option Value := (Tree.ofText s).bind (Tree.value? depthLimit)

end Flowrun.Json

import Flowrun.Json.Tree

/-!
# Reading typed objects

A typed object is read the same way from every format that can hold it. `Source ν` says what a
format offers at one of its parts: a text, a flag, a list, the fields of an object. The rules that
all typed objects share stand here:

* a field is known by its name or by a second spelling, and may be given once;
* unknown fields are skipped;
* a field may be required, have a default, or be optional, and only an optional field may be absent.

`Json.Spot` is a part of a JSON document together with the number of containers that may still be
opened inside it.
-/

namespace Flowrun

open Json

/-- The name of a field, and another spelling that is accepted. -/
structure FieldName where
  name : String
  other : Option String := none

/-- A field without another spelling. -/
instance : Coe String FieldName := ⟨fun name => ⟨name, none⟩⟩

def FieldName.accepts (f : FieldName) (key : String) : Bool := f.name == key || f.other == some key

/-- What a reader looks at, through any lists: everything, or of an object only the fields that it
knows. -/
inductive Outline
  | all
  | object (fields : List (FieldName × Outline))

namespace Outline

/-- The fields that are known by name. -/
def names : Outline → List FieldName
  | .all => []
  | .object fields => fields.map Prod.fst

/-- What is looked at under a key, unless it is skipped. -/
def under? : Outline → String → Option Outline
  | .all, _ => some .all
  | .object fields, key => (fields.find? fun f => f.1.accepts key).map Prod.snd

/-- Everything in fields without another spelling. -/
def ofNames (names : List FieldName) : Outline := .object (names.map fun name => (name, .all))

end Outline

/-- The fields of an object, under their names. -/
structure Fields (ν : Type) where
  entries : List (String × ν)
  /-- The fields were given by their position, not by name. -/
  byPosition : Bool

/-- The name under which a key is known. -/
def FieldName.resolve? (names : List FieldName) (key : String) : Option String :=
  (names.find? fun f => f.accepts key).map FieldName.name

/-- The known fields of an object that is given by name; `none` if one is given twice. -/
def Fields.ofPairs? (names : List FieldName) (pairs : List (String × ν)) : Option (Fields ν) :=
  let known := pairs.filterMap fun p => (FieldName.resolve? names p.1).map fun k => (k, p.2)
  if (known.map Prod.fst).Nodup then some ⟨known, false⟩ else none

/-- The fields of an object that is given by position; `none` if there are too many. -/
def Fields.ofItems? (names : List FieldName) (items : List ν) : Option (Fields ν) :=
  if items.length ≤ names.length then some ⟨(names.map FieldName.name).zip items, true⟩ else none

/-- What a format offers to the readers of typed objects. -/
class Source (ν : Type) where
  text? : ν → Option String
  flag? : ν → Option Bool
  /-- The name of a case of an enumeration. -/
  word? : ν → Option String
  items? : ν → Option (List ν)
  fields? : List FieldName → ν → Option (Fields ν)
  /-- A free value. -/
  value? : ν → Option Value
  /-- Whether this stands for nothing where a field is optional. -/
  absent? : ν → Option Bool

namespace Fields

variable {ν : Type} {α : Type}

def at? (fs : Fields ν) (name : String) : Option ν := Dict.at? fs.entries name

/-- A field that has to be given. -/
def required (fs : Fields ν) (name : String) (read : ν → Option α) : Option α :=
  (fs.at? name).bind read

def defaulted (fs : Fields ν) (name : String) (read : ν → Option α) (default : α) : Option α :=
  match fs.at? name with
  | none => some default
  | some v => read v

variable [Source ν]

/-- Read what is given unless it stands for nothing. -/
def present (read : ν → Option α) (v : ν) : Option (Option α) :=
  (Source.absent? v).bind fun absent => if absent then some none else (read v).map some

/-- A field that may be left out or absent. -/
def optional (fs : Fields ν) (name : String) (read : ν → Option α) : Option (Option α) :=
  fs.defaulted name (present read) none

/-- A field that may be absent, and may be left out where fields are given by name. -/
def nullable (fs : Fields ν) (name : String) (read : ν → Option α) : Option (Option α) :=
  match fs.at? name with
  | none => if fs.byPosition then none else some none
  | some v => present read v

end Fields

def Source.list? [Source ν] (read : ν → Option α) (v : ν) : Option (List α) :=
  (Source.items? v).bind (List.mapM read)

/-- A case of an enumeration, by its name. -/
def Source.case? [Source ν] (cases : List (String × α)) (v : ν) : Option α :=
  (Source.word? v).bind (Dict.at? cases)

namespace Json

/-- A part of a document, and how many containers may be opened inside each other from here on. -/
structure Spot where
  tree : Tree
  room : Nat

namespace Spot

def enter (s : Spot) (f : (Tree → Spot) → Option α) : Option α :=
  match s.room with
  | 0 => none
  | room + 1 => f fun t => ⟨t, room⟩

def text? (s : Spot) : Option String := match s.tree with
  | .string t => some t
  | _ => none

/-- A number of things: a whole number that is not negative and fits in 64 bits. -/
def count? (s : Spot) : Option Nat := match s.tree with
  | .number (.integer n) => if 0 ≤ n then some n.toNat else none
  | _ => none

/-- A case is named by a string, or by an object with the name as its only key and nothing in
it. -/
def word? (s : Spot) : Option String := match s.tree with
  | .string t => some t
  | .object [(k, .null)] => s.enter fun _ => some k
  | _ => none

def items? (s : Spot) : Option (List Spot) := match s.tree with
  | .array ts => s.enter fun spot => some (ts.map spot)
  | _ => none

/-- An object is given by name, or as the array of its fields. -/
def fields? (names : List FieldName) (s : Spot) : Option (Fields Spot) := match s.tree with
  | .object fs => s.enter fun spot => Fields.ofPairs? names (fs.map fun f => (f.1, spot f.2))
  | .array ts => s.enter fun spot => Fields.ofItems? names (ts.map spot)
  | _ => none

instance : Source Spot where
  text? := text?
  flag? s := match s.tree with
    | .bool b => some b
    | _ => none
  word? := word?
  items? := items?
  fields? := fields?
  value? s := s.tree.value? s.room
  absent? s := some <| match s.tree with
    | .null => true
    | _ => false

end Spot

/-- Read a typed object from a document. -/
def Tree.read? (read : Spot → Option α) (t : Tree) : Option α := read ⟨t, depthLimit⟩

/-- Read a typed object from a text. -/
def readText? (read : Spot → Option α) (s : String) : Option α :=
  (Tree.ofText s).bind (Tree.read? read)

end Json
end Flowrun

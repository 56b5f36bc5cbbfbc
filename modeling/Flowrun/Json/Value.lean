import Flowrun.Dict
import Flowrun.Json.Number

/-!
# JSON values

A `Value` is a free value of a workflow: a node's output, a literal parameter, a default. The
fields of an object are a `Dict`, so they are walked in the order of their keys, and a key occurs
once.

`project path v` walks into nested objects and answers `null` where a segment is missing;
`assign path v old` writes at the end of a path and makes the objects on the way.
-/

namespace Flowrun.Json

/-- A JSON value. -/
inductive Value
  | null
  | bool (b : Bool)
  | number (n : Number)
  | string (s : String)
  | array (items : List Value)
  /-- The fields are a `Dict`. -/
  | object (fields : List (String × Value))
  deriving Repr, Inhabited

namespace Value

mutual

def decEq : (v w : Value) → Decidable (v = w)
  | .null, w => by cases w <;> first | exact isTrue rfl | exact isFalse nofun
  | .bool a, w => by
    cases w
    case bool b => exact decidable_of_iff (a = b) (by simp)
    all_goals exact isFalse nofun
  | .number a, w => by
    cases w
    case number b => exact decidable_of_iff (a = b) (by simp)
    all_goals exact isFalse nofun
  | .string a, w => by
    cases w
    case string b => exact decidable_of_iff (a = b) (by simp)
    all_goals exact isFalse nofun
  | .array vs, w => by
    cases w
    case array ws => exact match decEqItems vs ws with
      | isTrue h => isTrue (by rw [h])
      | isFalse h => isFalse (by simpa using h)
    all_goals exact isFalse nofun
  | .object vs, w => by
    cases w
    case object ws => exact match decEqFields vs ws with
      | isTrue h => isTrue (by rw [h])
      | isFalse h => isFalse (by simpa using h)
    all_goals exact isFalse nofun

/-- Equality of the items of two arrays. -/
def decEqItems : (vs ws : List Value) → Decidable (vs = ws)
  | [], [] => isTrue rfl
  | [], _ :: _ => isFalse nofun
  | _ :: _, [] => isFalse nofun
  | v :: vs, w :: ws =>
    match decEq v w, decEqItems vs ws with
    | isTrue h, isTrue h' => isTrue (by rw [h, h'])
    | isFalse h, _ => isFalse (by simp [h])
    | _, isFalse h => isFalse (by simp [h])

/-- Equality of the fields of two objects. -/
def decEqFields : (vs ws : List (String × Value)) → Decidable (vs = ws)
  | [], [] => isTrue rfl
  | [], _ :: _ => isFalse nofun
  | _ :: _, [] => isFalse nofun
  | (k, v) :: vs, (l, w) :: ws =>
    match decEq v w, decEqFields vs ws with
    | isTrue h, isTrue h' =>
      if hk : k = l then isTrue (by rw [hk, h, h']) else isFalse (by simp [hk])
    | isFalse h, _ => isFalse (by simp [h])
    | _, isFalse h => isFalse (by simp [h])

end

instance : DecidableEq Value := decEq

def isNull : Value → Bool
  | .null => true
  | _ => false

/-- The fields of an object; anything else has none. -/
def fields : Value → Dict Value
  | .object fs => fs
  | _ => []

def field? (v : Value) (key : String) : Option Value := Dict.at? v.fields key

def string? : Value → Option String
  | .string s => some s
  | _ => none

def array? : Value → Option (List Value)
  | .array items => some items
  | _ => none

/-- A whole number that is not negative. -/
def count? : Value → Option Nat
  | .number (.integer n) => if 0 ≤ n then some n.toNat else none
  | _ => none

/-- Walk into nested objects; `null` where a segment is missing. -/
def project : List String → Value → Value
  | [], v => v
  | segment :: path, v => match v.field? segment with
    | some next => project path next
    | none => .null

/-- Write `v` at the end of a path into `old`. What stands in the way of an object is replaced by
one. -/
def assign : List String → Value → Value → Value
  | [], v, _ => v
  | segment :: path, v, old =>
    .object (Dict.put old.fields segment (assign path v ((old.field? segment).getD .null)))

/-! ### Reading after writing at a path -/

@[simp] theorem project_nil (v : Value) : project [] v = v := rfl

@[simp] theorem project_null (path : List String) : project path .null = .null := by
  cases path <;> rfl

theorem project_append (p q : List String) (v : Value) :
    project (p ++ q) v = project q (project p v) := by
  induction p generalizing v with
  | nil => rfl
  | cons s p ih =>
    simp only [List.cons_append, project]
    split
    · exact ih _
    · simp

@[simp] theorem project_assign_self (path : List String) (v old : Value) :
    project path (assign path v old) = v := by
  induction path generalizing old with
  | nil => rfl
  | cons s path ih => simp [assign, project, field?, fields, ih]

theorem assign_assign_self (path : List String) (v w old : Value) :
    assign path w (assign path v old) = assign path w old := by
  induction path generalizing old with
  | nil => rfl
  | cons s path ih => simp [assign, field?, fields, ih]

end Value
end Flowrun.Json

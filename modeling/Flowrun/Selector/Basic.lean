import Flowrun.Text.Blank
import Flowrun.Text.Pieces
import Flowrun.Json.Tree

/-!
# Selectors

A `Selector` is the address of a variable: the id of the node that owns it or the name of a global
namespace, the key of the variable, and a path into its value. It is written `owner.key.path`, and
as a reference with a dollar sign and braces around that.

`ofText?` reads the dotted form. Blanks at the two ends and empty segments do not count, and two
segments are required. `read?` takes either form.
-/

namespace Flowrun

open Json

/-- The address of a variable. -/
structure Selector where
  /-- A node id or a global namespace. -/
  owner : String
  key : String
  /-- Leads into the value of the variable. -/
  path : List String := []
  deriving DecidableEq, Repr, Inhabited

/-- The namespaces whose variables every node may use. -/
def sysNamespace : String := "sys"
def envNamespace : String := "env"
def conversationNamespace : String := "conversation"
def globalNamespaces : List String := [sysNamespace, envNamespace, conversationNamespace]

namespace Selector

/-- Whether the owner is a global namespace. -/
def isGlobal (s : Selector) : Bool := s.owner ∈ globalNamespaces

def segments (s : Selector) : List String := s.owner :: s.key :: s.path

/-- The selector of a list of segments; two are required. -/
def ofSegments? : List String → Option Selector
  | owner :: key :: path => some ⟨owner, key, path⟩
  | _ => none

/-- The segments of a dotted text: the runs between dots that are not empty. -/
def dottedSegments (cs : List Char) : List String :=
  ((Text.pieces '.' (Text.trim cs)).filter (· ≠ [])).map String.ofList

def ofChars? (cs : List Char) : Option Selector := ofSegments? (dottedSegments cs)

/-- What stands between the braces of a reference. -/
def referenceBody? (cs : List Char) : Option (List Char) :=
  match Text.trim cs with
  | '$' :: '\x7b' :: rest => match rest.reverse with
    | '\x7d' :: body => some body.reverse
    | _ => none
  | _ => none

def ofText? (s : String) : Option Selector := ofChars? s.toList

/-- Read a reference; plain text is none. -/
def ofReference? (s : String) : Option Selector := (referenceBody? s.toList).bind ofChars?

/-- Read a reference or, failing that, the dotted form. -/
def read? (s : String) : Option Selector := (ofReference? s).or (ofText? s)

def text (s : Selector) : String :=
  String.ofList (Text.joined '.' (s.segments.map String.toList))

/-- The form of a reference. -/
def reference (s : Selector) : String := "$\x7b" ++ s.text ++ "\x7d"

/-- The value at the path inside the value of the variable. -/
def project (s : Selector) (root : Value) : Value := root.project s.path

def tree (s : Selector) : Tree := .string s.text

end Selector
end Flowrun

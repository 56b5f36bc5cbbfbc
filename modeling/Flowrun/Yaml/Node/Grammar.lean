import Flowrun.Yaml.Layout
import Flowrun.Yaml.Node.Basic

/-!
# From tokens to nodes

The grammar of a document, by recursive descent. A node that is left out is a plain scalar without
text. A key in a flow sequence makes a mapping of a single entry. A sequence that is the key or the
value of a block mapping need not be indented; such a sequence has no tokens for its beginning and
its end.

`Node.ofTokens?` reads a whole text: at most one document, with its directives in front.
-/

namespace Flowrun.Yaml

/-- Where a node stands. -/
inductive Place
  | inFlow
  | inSequence
  /-- Here a sequence need not be indented. -/
  | inMapping
  deriving DecidableEq, Repr

/-- Whether a node with these properties may be left without content. -/
def Properties.isGiven (p : Properties String) : Bool := p.anchor.isSome || p.tag.isSome

namespace Node

def readAnchor : List Token → Option String × List Token
  | .anchor name :: ts => (some name, ts)
  | ts => (none, ts)

def readTag (prefixes : TagPrefixes) : List Token → Option (Option Tag × List Token)
  | .tag t :: ts => (t.resolve? prefixes).map fun tag => (some tag, ts)
  | ts => some (none, ts)

/-- The properties at the front, in either order. -/
def readProperties (prefixes : TagPrefixes) (ts : List Token) :
    Option (Properties String × List Token) := do
  match readAnchor ts with
  | (some name, ts) =>
    let (tag, ts) ← readTag prefixes ts
    return (⟨some name, tag⟩, ts)
  | (none, ts) =>
    let (tag, ts) ← readTag prefixes ts
    let (anchor, ts) := if tag.isSome then readAnchor ts else (none, ts)
    return (⟨anchor, tag⟩, ts)

/-- Whether the next token is one of these. -/
def before (stops ts : List Token) : Bool := ts.head?.any stops.contains

mutual

def read (prefixes : TagPrefixes) : Nat → Place → List Token → Option (Node String × List Token)
  | 0, _, _ => none
  | _ + 1, _, .alias name :: ts => some (.alias name, ts)
  | n + 1, place, ts => do
    let (p, ts) ← readProperties prefixes ts
    readContent prefixes n place p ts

/-- The content of a node with properties. -/
def readContent (prefixes : TagPrefixes) : Nat → Place → Properties String → List Token →
    Option (Node String × List Token)
  | 0, _, _, _ => none
  | n + 1, place, p, ts => match ts, place with
    | .scalar style text :: ts, _ => some (.scalar p style text, ts)
    | .flowSequenceStart :: ts, _ => do
      let (items, ts) ← readFlowItems prefixes n true ts
      return (.sequence p items, ts)
    | .flowMappingStart :: ts, _ => do
      let (entries, ts) ← readFlowEntries prefixes n true ts
      return (.mapping p entries, ts)
    | .blockEntry :: _, .inMapping => do
      let (items, ts) ← readLooseItems prefixes n ts
      return (.sequence p items, ts)
    | ts, place => match ts, place == .inFlow with
      | .blockSequenceStart :: ts, false => do
        let (items, ts) ← readBlockItems prefixes n ts
        return (.sequence p items, ts)
      | .blockMappingStart :: ts, false => do
        let (entries, ts) ← readBlockEntries prefixes n ts
        return (.mapping p entries, ts)
      | ts, _ => if p.isGiven then some (.scalar p .plain "", ts) else none

/-- The node at the front, or a missing one before one of the tokens `stops`. -/
def readUnless (prefixes : TagPrefixes) : Nat → Place → List Token → List Token →
    Option (Node String × List Token)
  | 0, _, _, _ => none
  | n + 1, place, stops, ts =>
    if before stops ts then some (missing, ts) else read prefixes n place ts

def readBlockItems (prefixes : TagPrefixes) : Nat → List Token →
    Option (List (Node String) × List Token)
  | 0, _ => none
  | n + 1, .blockEntry :: ts => do
    let (item, ts) ← readUnless prefixes n .inSequence [.blockEntry, .blockEnd] ts
    let (items, ts) ← readBlockItems prefixes n ts
    return (item :: items, ts)
  | _ + 1, .blockEnd :: ts => some ([], ts)
  | _ + 1, _ => none

/-- The items of a sequence that is not indented. -/
def readLooseItems (prefixes : TagPrefixes) : Nat → List Token →
    Option (List (Node String) × List Token)
  | 0, _ => none
  | n + 1, .blockEntry :: ts => do
    let (item, ts) ← readUnless prefixes n .inSequence [.blockEntry, .key, .value, .blockEnd] ts
    let (items, ts) ← readLooseItems prefixes n ts
    return (item :: items, ts)
  | _ + 1, ts => some ([], ts)

/-- The value behind a key, where `stops` are the tokens before which it is missing. -/
def readValue (prefixes : TagPrefixes) : Nat → Place → List Token → List Token →
    Option (Node String × List Token)
  | 0, _, _, _ => none
  | n + 1, place, stops, .value :: ts => readUnless prefixes n place stops ts
  | _ + 1, _, _, ts => some (missing, ts)

def readBlockEntries (prefixes : TagPrefixes) : Nat → List Token →
    Option (List (Node String × Node String) × List Token)
  | 0, _ => none
  | n + 1, .key :: ts => do
    let stops := [.key, .value, .blockEnd]
    let (k, ts) ← readUnless prefixes n .inMapping stops ts
    let (v, ts) ← readValue prefixes n .inMapping stops ts
    let (entries, ts) ← readBlockEntries prefixes n ts
    return ((k, v) :: entries, ts)
  | _ + 1, .blockEnd :: ts => some ([], ts)
  | _ + 1, _ => none

/-- The items of a flow sequence; a comma stands before each but the first. -/
def readFlowItems (prefixes : TagPrefixes) : Nat → Bool → List Token →
    Option (List (Node String) × List Token)
  | 0, _, _ => none
  | n + 1, first, ts => match ts, first with
    | .flowSequenceEnd :: ts, _ => some ([], ts)
    | ts, true => readFlowItem prefixes n ts
    | .flowEntry :: .flowSequenceEnd :: ts, false => some ([], ts)
    | .flowEntry :: ts, false => readFlowItem prefixes n ts
    | _, false => none

/-- An item of a flow sequence, and those behind it. -/
def readFlowItem (prefixes : TagPrefixes) : Nat → List Token →
    Option (List (Node String) × List Token)
  | 0, _ => none
  | n + 1, ts => do
    let (item, ts) ← match ts with
      | .key :: ts => readPair prefixes n ts
      | ts => read prefixes n .inFlow ts
    let (items, ts) ← readFlowItems prefixes n false ts
    return (item :: items, ts)

/-- A mapping of a single entry, behind its key token. A missing key takes the token that stands in
its place. -/
def readPair (prefixes : TagPrefixes) : Nat → List Token → Option (Node String × List Token)
  | 0, _ => none
  | n + 1, ts => do
    let (k, ts) ← if before [.value, .flowEntry, .flowSequenceEnd] ts then some (missing, ts.drop 1)
      else read prefixes n .inFlow ts
    let (v, ts) ← readValue prefixes n .inFlow [.flowEntry, .flowSequenceEnd] ts
    return (.mapping {} [(k, v)], ts)

/-- The entries of a flow mapping; a comma stands before each but the first. -/
def readFlowEntries (prefixes : TagPrefixes) : Nat → Bool → List Token →
    Option (List (Node String × Node String) × List Token)
  | 0, _, _ => none
  | n + 1, first, ts => match ts, first with
    | .flowMappingEnd :: ts, _ => some ([], ts)
    | ts, true => readFlowEntry prefixes n ts
    | .flowEntry :: .flowMappingEnd :: ts, false => some ([], ts)
    | .flowEntry :: ts, false => readFlowEntry prefixes n ts
    | _, false => none

/-- An entry of a flow mapping, and those behind it. -/
def readFlowEntry (prefixes : TagPrefixes) : Nat → List Token →
    Option (List (Node String × Node String) × List Token)
  | 0, _ => none
  | n + 1, ts => do
    let (entry, ts) ← match ts with
      | .key :: ts => do
        let (k, ts) ← readUnless prefixes n .inFlow [.value, .flowEntry, .flowMappingEnd] ts
        let (v, ts) ← readValue prefixes n .inFlow [.flowEntry, .flowMappingEnd] ts
        pure ((k, v), ts)
      | ts => do
        let (k, ts) ← read prefixes n .inFlow ts
        pure ((k, missing), ts)
    let (entries, ts) ← readFlowEntries prefixes n false ts
    return (entry :: entries, ts)

end

/-! ### Documents -/

/-- The directives at the front, and the tokens behind them. -/
def directives : List Token → List Directive × List Token
  | .directive d :: ts => (d :: (directives ts).1, (directives ts).2)
  | ts => ([], ts)

/-- The version of a version directive. -/
def versionOf? : Directive → Option (Nat × Nat)
  | .version major minor => some (major, minor)
  | .tagPrefix .. => none

/-- The handle and prefix of a tag directive. -/
def prefixOf? : Directive → Option (String × Tag)
  | .version .. => none
  | .tagPrefix handle text => some (handle, text)

/-- The tag prefixes of a document; `none` if a directive stands twice or names a version other than
1.1 and 1.2. -/
def prefixesOf? (ds : List Directive) : Option TagPrefixes := do
  let versions := ds.filterMap versionOf?
  let prefixes := ds.filterMap prefixOf?
  guard (versions.length ≤ 1 ∧ ∀ v ∈ versions, v = (1, 1) ∨ v = (1, 2))
  guard (prefixes.map Prod.fst).Nodup
  return prefixes

/-- Whether a document is over: only markers of its end follow. -/
def isEnd (ts : List Token) : Bool := ts.all (· == .documentEnd)

/-- Whether a document that was begun by its marker has no content. -/
def isBare (ts : List Token) : Bool := match ts with
  | [] | .directive _ :: _ | .documentStart :: _ | .documentEnd :: _ => true
  | _ => false

/-- The root of a text; a text without any document has a missing one. -/
def ofTokens? (ts : List Token) : Option (Node String) := do
  let fuel := 4 * ts.length + 4
  let (ds, behind) := directives ts
  let (root, rest) ← match ds, behind with
    | [], [] => some (missing, [])
    | _, .documentStart :: rest => do
      let prefixes ← prefixesOf? ds
      if isBare rest then some (missing, rest) else read prefixes fuel .inSequence rest
    | [], _ => read [] fuel .inSequence ts
    | _ :: _, _ => none
  guard (isEnd rest)
  return root

/-- The root of the document that a text holds. -/
def ofText? (s : String) : Option (Node String) := (tokens? s.toList).bind ofTokens?

end Node
end Flowrun.Yaml

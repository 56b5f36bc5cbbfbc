/-!
# Fresh ids

Tasks, requests and conversations are named by ids that are drawn one after the other and never
repeat.
-/

namespace Flowrun

/-- A source of ids. -/
structure Ids where
  /-- What every id starts with. -/
  stem : String
  /-- How many ids were drawn. -/
  drawn : Nat := 0
  deriving DecidableEq, Repr, Inhabited

namespace Ids

def next (ids : Ids) : String := ids.stem ++ "-" ++ toString ids.drawn

def advance (ids : Ids) : Ids := { ids with drawn := ids.drawn + 1 }

def draw (ids : Ids) : Nat → List String
  | 0 => []
  | n + 1 => ids.next :: ids.advance.draw n

end Ids
end Flowrun

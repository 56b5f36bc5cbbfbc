import Flowrun.Proofs.Graph.Memo
import Flowrun.Scope.Basic

/-!
# Checks that remember

A draft checks references as its graph does, but asks for ancestors as `Draft.ancestors` does, with
the answers that are good from before, and keeps what it finds out. Whatever a draft remembers, its
checks come out as those of its graph (`Recalls.reported_eq`), and they leave nothing behind but
right answers.
-/

namespace Flowrun.Draft

/-! ### The checks -/

/-- Something that is asked of a draft, which may keep answers. -/
abbrev Ask := StateM Draft

def askGraph : Ask Graph := Draft.graph <$> get

def askAncestor (candidate id : String) : Ask Bool := do
  return candidate ∈ (← modifyGet (·.ancestors id))

/-- Whether a node may refer to a selector, or why not. -/
def checkReference (id : String) (s : Selector) : Ask (Except ScopeFault Unit) := do
  let g ← askGraph
  if s.isGlobal then
    return if g.declaresGlobal s.owner s.key then .ok () else .error .undeclaredGlobal
  else match g.node? s.owner with
    | none => return .error .unknownNode
    | some owner =>
      if owner.id = id then return .error .ownOutput
      else
        let upstream ← askAncestor owner.id id
        return if !upstream then .error .notAncestor
          else if owner.config.outputs.any (·.key == s.key) then .ok ()
          else .error (.undeclaredOutput s.key)

/-- A warning if a reference of a node is out of scope. -/
def diagnose? (id : String) (r : FoundReference) : Ask (Option Diagnostic) := do
  match ← checkReference id r.selector with
  | .ok _ => return none
  | .error fault => return some (.dangling id r.selector (some r.field) fault.message)

/-- Warnings for all references of a node that are out of scope. -/
def checkReferences (id : String) : Ask (List Diagnostic) := do
  match (← askGraph).node? id with
  | none => return []
  | some n => n.references.filterMapM (diagnose? id)

/-- The warnings for all nodes, by id. -/
def checkAll : Ask (List Diagnostic) := do
  (Graph.sortNodes (← askGraph).nodes).flatMapM fun n => checkReferences n.id

/-- What a draft reports when all is checked. -/
def reported (d : Draft) : List Diagnostic := (checkAll.run d).1

/-- The draft when all was checked. -/
def checked (d : Draft) : Draft := (checkAll.run d).2

/-! ### What they answer -/

variable {α β : Type} {g : Graph} {ask : Ask α} {a : α} {d : Draft}

/-- Whatever is remembered about a graph, this is what is found out about it, and nothing becomes of
the draft but that it remembers more. -/
def Answers (g : Graph) (ask : Ask α) (a : α) : Prop :=
  ∀ d : Draft, d.Recalls → d.graph = g → ∃ d', ask.run d = (a, d') ∧ d'.Recalls ∧ d'.graph = g

namespace Answers

theorem pure (g : Graph) (a : α) : Answers g (Pure.pure a) a :=
  fun d hd hgraph => ⟨d, rfl, hd, hgraph⟩

theorem bind {f : α → Ask β} {b : β} (hask : Answers g ask a) (hf : Answers g (f a) b) :
    Answers g (ask >>= f) b := by
  intro d hd hgraph
  obtain ⟨d', hrun, hd', hgraph'⟩ := hask d hd hgraph
  obtain ⟨d'', hrun', hd'', hgraph''⟩ := hf d' hd' hgraph'
  refine ⟨d'', ?_, hd'', hgraph''⟩
  show (f (ask.run d).1).run (ask.run d).2 = (b, d'')
  rw [hrun, hrun']

theorem filterMapM {f : β → Ask (Option α)} {f' : β → Option α}
    (h : ∀ x, Answers g (f x) (f' x)) (xs : List β) :
    Answers g (xs.filterMapM f) (xs.filterMap f') := by
  induction xs with
  | nil => exact .pure g []
  | cons x xs ih =>
    rw [List.filterMapM_cons, List.filterMap_cons]
    refine (h x).bind ?_
    cases f' x with
    | none => exact ih
    | some y => exact ih.bind (.pure g (y :: _))

theorem flatMapM {f : β → Ask (List α)} {f' : β → List α} (h : ∀ x, Answers g (f x) (f' x))
    (xs : List β) : Answers g (xs.flatMapM f) (xs.flatMap f') := by
  induction xs with
  | nil => exact .pure g []
  | cons x xs ih =>
    rw [List.flatMapM_cons, List.flatMap_cons]
    exact (h x).bind (ih.bind (.pure g _))

theorem askGraph (g : Graph) : Answers g askGraph g := by
  intro d hd hgraph
  exact ⟨d, by rw [← hgraph]; rfl, hd, hgraph⟩

theorem askAncestor (g : Graph) (candidate id : String) :
    Answers g (askAncestor candidate id) (g.isAncestor candidate id) := by
  intro d hd hgraph
  refine ⟨(d.ancestors id).2, ?_, hd.ask id, (d.graph_ancestors id).trans hgraph⟩
  show (decide (candidate ∈ (d.ancestors id).1), (d.ancestors id).2) = _
  rw [hd.ancestors_eq, hgraph]
  rfl

theorem checkReference (g : Graph) (id : String) (s : Selector) :
    Answers g (checkReference id s) (g.checkReference id s) := by
  unfold Draft.checkReference Graph.checkReference
  refine (askGraph g).bind ?_
  split
  · exact .pure g _
  · cases g.node? s.owner with
    | none => exact .pure g _
    | some owner =>
      dsimp only
      split
      · exact .pure g _
      · exact (askAncestor g owner.id id).bind (.pure g _)

theorem diagnose? (g : Graph) (id : String) (r : FoundReference) :
    Answers g (diagnose? id r) (g.diagnose? id r) := by
  unfold Draft.diagnose? Graph.diagnose?
  refine (checkReference g id r.selector).bind ?_
  cases g.checkReference id r.selector with
  | ok _ => exact .pure g _
  | error fault => exact .pure g _

theorem checkReferences (g : Graph) (id : String) :
    Answers g (checkReferences id) (g.checkReferences id) := by
  unfold Draft.checkReferences Graph.checkReferences
  refine (askGraph g).bind ?_
  cases g.node? id with
  | none => exact .pure g _
  | some n => exact .filterMapM (diagnose? g id) n.references

theorem checkAll (g : Graph) : Answers g checkAll g.checkAll :=
  (askGraph g).bind (.flatMapM (fun n => checkReferences g n.id) (Graph.sortNodes g.nodes))

end Answers

/-! ### Reports -/

/-- What a draft reports is what the check of its graph reports. -/
theorem Recalls.reported_eq (h : d.Recalls) : d.reported = d.graph.checkAll := by
  obtain ⟨d', hrun, -, -⟩ := Answers.checkAll d.graph d h rfl
  rw [reported, hrun]

theorem Recalls.checked (h : d.Recalls) : d.checked.Recalls := by
  obtain ⟨d', hrun, hd', -⟩ := Answers.checkAll d.graph d h rfl
  rwa [Draft.checked, hrun]

theorem Recalls.graph_checked (h : d.Recalls) : d.checked.graph = d.graph := by
  obtain ⟨d', hrun, -, hgraph⟩ := Answers.checkAll d.graph d h rfl
  rwa [Draft.checked, hrun]

end Flowrun.Draft

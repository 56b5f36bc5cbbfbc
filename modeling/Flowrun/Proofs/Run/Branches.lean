import Flowrun.Proofs.Graph.Edits
import Flowrun.Proofs.Run.Entries
import Flowrun.Proofs.Run.Resume

/-!
# The branches that a node chooses

A node with branches succeeds in one of two ways. If its executor reports a success, the branches
that it chose are checked: `default` is filled in for a choice of nothing, and every other branch
must be declared. If the node asked for user input itself, it is finished with that input and
chooses no branch at all, not even `default`; then no edge that leaves it is alive. So

    WellChosen n.kind x.branches ↔ ¬ r.FinishedByUser n.id as

for the record `x` of every node with branches that says `success` after the history `as`.
-/

namespace Flowrun

open Json

/-! ### Declared branches -/

/-- Branches as a node of a kind is to choose them: at least one, each once, and nothing but
`default` and declared ones. -/
structure NodeKind.WellChosen (k : NodeKind) (branches : List String) : Prop where
  nonempty : branches ≠ []
  nodup : branches.Nodup
  declared : ∀ b ∈ branches, b = defaultBranch ∨ ∃ bs, k.branches? = some bs ∧ b ∈ bs

/-- Whether a parameter declares a branch in a field: as the id of an object in a list. -/
def Declares (param : Value) (field branch : String) : Prop :=
  branch ≠ "" ∧ ∃ items, (param.field? field).bind Value.array? = some items ∧
    ∃ item ∈ items, (item.field? "id").bind Value.string? = some branch

namespace NodeKind

theorem mem_declaredBranches {param : Value} {field branch : String} :
    branch ∈ declaredBranches param field ↔ Declares param field branch := by
  unfold declaredBranches Declares
  dsimp only
  rw [mem_distinct, List.mem_filter, List.mem_filterMap, and_comm]
  simp only [ne_eq, decide_not, Bool.not_eq_eq_eq_not, Bool.not_true, decide_eq_false_iff_not]
  refine and_congr_right fun _ => ?_
  cases hitems : (param.field? field).bind Value.array? with
  | none => simp
  | some items => simp

theorem mem_branchIds {param : Value} {field branch : String} :
    branch ∈ branchIds param field ↔ branch = defaultBranch ∨ Declares param field branch := by
  rw [← mem_declaredBranches]
  unfold branchIds
  dsimp only
  split
  · next hdefault =>
    refine ⟨Or.inr, ?_⟩
    rintro (rfl | hmem)
    · exact hdefault
    · exact hmem
  · rw [List.mem_append, List.mem_singleton, or_comm]

/-- The field of a parameter that declares the branches of a kind. -/
def branchField : NodeKind → String
  | .classifier _ => "conditions"
  | _ => "branches"

/-- The branches of a kind that was worked out from a parameter are those in its field. -/
theorem branches?_of {type : String} {param : Value} {bs : List String}
    (h : (NodeKind.of type param).branches? = some bs) :
    bs = branchIds param (NodeKind.of type param).branchField := by
  unfold NodeKind.of at h ⊢
  split at h <;> simp_all [branches?, branchField]

end NodeKind

/-! ### The choice in a report -/

/-- What a choice in a report comes to. -/
def settledChoice (selected : List String) : List String :=
  if selected = [] then [defaultBranch] else distinct selected

namespace Run

variable {w : World} {r r' : Run} {id : String}

/-- A choice that passes the check is settled and well chosen. -/
theorem checkBranches_eq_ok {n : Node} {selected branches : List String}
    (hn : r.graph.node? id = some n) (hbranching : n.kind.isBranching = true)
    (h : r.checkBranches id selected = .ok branches) :
    branches = settledChoice selected ∧ n.kind.WellChosen branches := by
  obtain ⟨bs, hbs⟩ := Option.isSome_iff_exists.1 hbranching
  unfold checkBranches at h
  rw [hn, Option.bind_some, hbs] at h
  dsimp only at h
  unfold settledChoice
  split at h
  · next hnone =>
    obtain rfl := Except.ok.inj h
    rw [if_pos hnone]
    exact ⟨rfl, by simp, by simp, fun b hb => Or.inl (List.mem_singleton.1 hb)⟩
  · next hsome =>
    split at h
    · cases h
    · next hall =>
      obtain rfl := Except.ok.inj h
      rw [if_neg hsome]
      refine ⟨rfl, ?_, nodup_distinct selected, fun b hb => Or.inr ⟨bs, hbs, ?_⟩⟩
      · obtain ⟨b, rest, rfl⟩ := List.exists_cons_of_ne_nil hsome
        exact List.ne_nil_of_mem (mem_distinct.2 List.mem_cons_self)
      · have hdeclared := List.find?_eq_none.1 hall b (mem_distinct.1 hb)
        simpa using hdeclared

/-! ### How a node comes to succeed -/

theorem chosen_advance (r : Run) (a : String) : (r.advance a).chosen = r.chosen :=
  advance_induction (P := fun s => s.chosen = r.chosen) (fun hs _ => hs) (fun hs _ => hs) a rfl

/-- Moving on from a node makes no node succeed. -/
theorem success_of_advance {a : String}
    (h : (r.advance a).standing? id = some (.done .success)) :
    r.standing? id = some (.done .success) := by
  refine advance_induction (P := fun s => s.standing? id = some (.done .success) →
    r.standing? id = some (.done .success)) (fun hs _ => hs) (fun {s b n} hs _ hdone => ?_) a
    (fun hdone => hdone) h
  rw [standing?_skip] at hdone
  split at hdone
  · cases hdone
  · exact hs hdone

theorem activate_choices (r : Run) (p : Pause) :
    (r.activate p).standings = r.standings ∧ (r.activate p).chosen = r.chosen := by
  unfold activate
  split
  · exact ⟨rfl, rfl⟩
  · split
    · exact ⟨rfl, rfl⟩
    · exact ⟨rfl, rfl⟩

theorem activateNext_choices (r : Run) :
    r.activateNext.standings = r.standings ∧ r.activateNext.chosen = r.chosen := by
  unfold activateNext
  split
  · exact ⟨rfl, rfl⟩
  · exact activate_choices _ _

/-- A node that is written down as something else does not succeed. -/
theorem success_of_put {a : String} {t : Standing} (ht : t ≠ .done .success)
    (h : (r.standings.put a t).at? id = some (.done .success)) :
    r.standing? id = some (.done .success) := by
  rw [Dict.at?_put] at h
  split at h
  · exact absurd (Option.some.inj h) ht
  · exact h

/-- A node that waits makes no node succeed. -/
theorem success_of_suspend {a : String} {i : Nat} {inner : Option InnerNode}
    (h : (r.suspend a i inner).standing? id = some (.done .success)) :
    r.standing? id = some (.done .success) := by
  unfold suspend at h
  split at h
  · exact success_of_put (t := .done .stop) (by decide) h
  · dsimp only at h
    split at h
    · rw [standing?, (activate_choices _ _).1] at h
      exact success_of_put (t := .suspended) (by decide) h
    · exact success_of_put (t := .suspended) (by decide) h

/-- Of the nodes that have not succeeded, a success that is recorded makes its own node succeed. -/
theorem success_of_succeed {a : String} {i : Nat} {output : Value} {branches : List String}
    {elapsed : Nat}
    (h : (r.succeed a i output branches elapsed).standing? id = some (.done .success)) :
    a = id ∨ r.standing? id = some (.done .success) := by
  have hdone : (r.complete a i output branches elapsed).standing? id = some (.done .success) := by
    rw [succeed_eq] at h
    split at h
    · exact h
    · exact success_of_advance h
  rw [complete_eq] at hdone
  replace hdone : (r.standings.put a (.done .success)).at? id = some (.done .success) := hdone
  rw [Dict.at?_put] at hdone
  split at hdone
  · next hid => exact Or.inl hid
  · exact Or.inr hdone

/-- The choice of a node that succeeds is written down. -/
theorem chosen_succeed (r : Run) (a : String) (i : Nat) (output : Value) (branches : List String)
    (elapsed : Nat) : (r.succeed a i output branches elapsed).chosen =
      if branches = [] then r.chosen else r.chosen.put a branches := by
  rw [succeed_eq]
  split
  · rw [complete_eq]
  · rw [chosen_advance, complete_eq]

/-- A report makes a node succeed if it reports a success with a choice that passes the check, and
that choice is written down. -/
theorem Steady.success_take (h : r.Steady) {x : Execution} (hx : x ∈ r.inFlight)
    (result : NodeReport) (elapsed : Nat) (hbefore : r.standing? id ≠ some (.done .success))
    (hafter : ((r.landed x).take x.request.node.id result elapsed).standing? id =
      some (.done .success)) :
    x.request.node.id = id ∧ ∃ output selected branches,
      result = .ok (.success output selected) ∧ r.checkBranches id selected = .ok branches ∧
      (((r.landed x).take x.request.node.id result elapsed).chosen.at? id).getD [] = branches := by
  obtain ⟨i, _, hi, _⟩ := h.sound.ledger.exists_record (h.sound.standing_flying hx)
  replace hi : (r.landed x).recordOf.at? x.request.node.id = some i := hi
  revert hafter
  unfold Run.take
  rw [hi]
  dsimp only
  -- only a success with a choice that passes the check makes the node succeed
  split
  · exact fun hafter => absurd (success_of_put (t := .done .stop) (by decide) hafter) hbefore
  · split
    · next output selected =>
      split
      · next branches hcheck =>
        intro hafter
        obtain rfl := (success_of_succeed hafter).resolve_right hbefore
        refine ⟨rfl, output, selected, branches, rfl, hcheck, ?_⟩
        rw [chosen_succeed]
        split
        · next hnone =>
          have hunchosen : r.chosen.at? x.request.node.id = none :=
            h.sound.ledger.unchosen (h.sound.standing_flying hx) (Or.inl rfl)
          rw [show (r.landed x).chosen.at? x.request.node.id = none from hunchosen, hnone]
          rfl
        · rw [Dict.at?_put_self]
          rfl
      · exact fun hafter => absurd (success_of_put (t := .done .fail) (by decide) hafter) hbefore
    · exact fun hafter => absurd (success_of_suspend hafter) hbefore
    · exact fun hafter => absurd (success_of_put (t := .done .fail) (by decide) hafter) hbefore

/-- Whether an action is an accepted resume of a node that waits itself. -/
def acceptsOwn (r : Run) (id : String) (a : Action) : Bool := match a with
  | .resume target _ =>
    r.accepts a && !target.isNested && r.active.any fun p => p.node = id
  | _ => false

/-- How an action makes a node succeed. -/
inductive Succeeding (r : Run) (id : String) : Action → Prop
  | reported {x : Execution} {output : Value} {selected branches : List String} {elapsed : Nat} :
      x ∈ r.inFlight → x.request.node.id = id → r.checkBranches id selected = .ok branches →
      ((r.act (.report x.serial (.ok (.success output selected)) elapsed)).chosen.at? id).getD [] =
        branches →
      Succeeding r id (.report x.serial (.ok (.success output selected)) elapsed)
  | answered {a : Action} : r.acceptsOwn id a = true → Succeeding r id a

/-- Every node that comes to succeed does so in one of two ways. -/
theorem Steady.succeeding (h : r.Steady) {a : Action}
    (hbefore : r.standing? id ≠ some (.done .success))
    (hafter : (r.act a).standing? id = some (.done .success)) : Succeeding r id a := by
  have hact := h.act_eq a
  cases a with
  | report serial result elapsed =>
    have hreport : r.act (.report serial result elapsed) = r.report serial result elapsed := hact
    unfold Run.report at hreport
    split at hreport
    · rw [hreport] at hafter
      exact absurd hafter hbefore
    · next x hfind =>
      have hx := List.mem_of_find?_eq_some hfind
      obtain rfl : x.serial = serial := by simpa using List.find?_some hfind
      replace hreport : r.act (.report x.serial result elapsed) =
        (r.landed x).take x.request.node.id result elapsed := hreport
      rw [hreport] at hafter
      obtain ⟨hid, output, selected, branches, rfl, hcheck, hchosen⟩ :=
        h.success_take hx result elapsed hbefore hafter
      exact .reported hx hid hcheck (hreport ▸ hchosen)
  | resume target inputs =>
    rw [hact, perform] at hafter
    rcases h.sound.resume_cases target inputs with ⟨e, heq⟩ |
      ⟨p, i, n, given, -, hactive, -, -, -, -, -, heq⟩ |
      ⟨p, i, output, -, hactive, -, rfl, hnested, -, heq⟩
    · rw [heq] at hafter
      exact absurd hafter hbefore
    · rw [heq, standing?, (activateNext_choices _).1] at hafter
      exact absurd (success_of_put (t := .running) (by decide) hafter) hbefore
    · rw [heq, standing?, (activateNext_choices _).1] at hafter
      have hdone := success_of_advance hafter
      by_cases hid : p.node = id
      · refine .answered ?_
        simp [acceptsOwn, accepts, heq, hnested, hactive, hid, Except.isOk, Except.toBool]
      · exact absurd ((Dict.at?_put_of_ne _ hid _).symm.trans hdone) hbefore
  | schedule =>
    have hnone : r.schedule.standing? id ≠ some (.done .success) :=
      schedule_induction (P := fun s => s.standing? id ≠ some (.done .success))
        (fun hs _ _ _ _ hdone => hs (success_of_put (t := .running) (by decide) hdone))
        (fun hs => hs) hbefore h.sound.listed
    rw [hact] at hafter
    exact absurd hafter hnone
  | stop =>
    rw [hact] at hafter
    exact absurd hafter hbefore
  | clock now =>
    rw [hact] at hafter
    exact absurd hafter hbefore
  | finish =>
    rw [hact, perform] at hafter
    split at hafter
    · replace hafter : r.closePauses.standing? id = some (.done .success) := hafter
      rw [h.sound.standing?_closePauses] at hafter
      split at hafter
      · cases hafter
      · exact absurd hafter hbefore
    · exact absurd hafter hbefore

/-! ### A choice stays as it is -/

/-- Once a node has passed, its choice is written down for good. -/
theorem Steady.chosen_acts (h : r.Steady) (hp : r.passed id = true) (as : List Action) :
    (r.acts as).chosen.at? id = r.chosen.at? id :=
  (h.keep_all (P := fun s => s.passed id = true ∧ s.chosen.at? id = r.chosen.at? id) ⟨hp, rfl⟩
    (World.any_admitsAll r as)
    (fun hsound hs m => ⟨hsound.passed_move m hs.1, (hsound.chosen_move m hs.1).trans hs.2⟩)
    fun hs => hs).2

/-- A node that the user finishes succeeds and chooses nothing. -/
theorem Steady.unchosen_of_acceptsOwn (h : r.Steady) {a : Action}
    (ha : r.acceptsOwn id a = true) :
    (r.act a).passed id = true ∧ (r.act a).chosen.at? id = none := by
  cases a with
  | resume target inputs =>
    simp only [acceptsOwn, accepts, Bool.and_eq_true, Bool.not_eq_true', Option.any_eq_true,
      decide_eq_true_eq] at ha
    obtain ⟨⟨haccepted, hown⟩, p', hp', rfl⟩ := ha
    rw [h.act_eq, perform]
    rcases h.sound.resume_cases target inputs with ⟨e, heq⟩ |
      ⟨_, _, _, _, -, -, -, -, hnested, -⟩ |
      ⟨p, i, output, hh, hactive, hi, rfl, hnested, hout, heq⟩
    · rw [heq] at haccepted
      cases haccepted
    · cases hown.symm.trans hnested
    · obtain rfl := Option.some.inj (hp'.symm.trans hactive)
      have hmove := Move.answer (w := .any) hh hactive hi hnested hout
      have hmoves := moves_advance .any ({ r with active := none }.answer p' i output) p'.node
      have hdone := (hmoves.keep (P := fun s => s.standing? p'.node = some (.done .success))
        (h.sound.move hmove) (Dict.at?_put_self ..) fun hsound hs m => hsound.done_move m hs).2
      have hunchosen : r.chosen.at? p'.node = none :=
        h.sound.ledger.unchosen (h.sound.standing_active hactive) (Or.inr rfl)
      rw [heq, passed_iff, standing?]
      dsimp only
      rw [(activateNext_choices _).1, (activateNext_choices _).2, chosen_advance]
      exact ⟨Or.inl hdone, hunchosen⟩
  | _ => cases ha

/-! ### Histories -/

/-- Whether a resume in a history finished a node with the user's input. -/
def FinishedByUser (r : Run) (id : String) (as : List Action) : Prop :=
  ∃ bs a, bs ++ [a] <+: as ∧ (r.acts bs).acceptsOwn id a = true

/-- Whether an execution of a node reported a success with a choice in a history. -/
def Reported (r : Run) (n : Node) (as : List Action) (selected : List String) : Prop :=
  ∃ bs x output elapsed,
    bs ++ [.report x.serial (.ok (.success output selected)) elapsed] <+: as ∧
      x ∈ (r.acts bs).inFlight ∧ x.request.node = n

variable {g : Graph} {limit : Nat} {startInputs : Dict Value} {pool : Pool}

/-- A node that the user finished has chosen nothing. -/
theorem Launched.unchosen_of_finishedByUser (h : Launched g limit startInputs pool r)
    {as : List Action} (hf : r.FinishedByUser id as) : (r.acts as).chosen.at? id = none := by
  obtain ⟨bs, a, ⟨cs, rfl⟩, ha⟩ := hf
  rw [List.append_assoc, acts_append]
  rcases h.steady.acts_or_isTerminal bs with hsteady | hterminal
  · obtain ⟨hp, hnone⟩ := hsteady.unchosen_of_acceptsOwn ha
    rw [List.singleton_append, acts_cons]
    rcases hsteady.act_or_isTerminal a with hafter | hterminal
    · rw [hafter.chosen_acts hp, hnone]
    · rw [acts_of_isTerminal hterminal, hnone]
  -- a run that has ended accepts nothing
  · cases a with
    | resume target inputs =>
      have hrefused := resume_of_isTerminal hterminal target inputs
      simp [acceptsOwn, accepts, hrefused, Except.isOk, Except.toBool] at ha
    | _ => cases ha

/-- A node with branches that succeeded was finished by the user, or its execution reported a
choice, which is written down. -/
theorem Launched.choice_acts (h : Launched g limit startInputs pool r) {n : Node}
    (hn : n ∈ g.nodes) (hbranching : n.kind.isBranching = true) (as : List Action)
    (hs : (r.acts as).standing? n.id = some (.done .success)) :
    r.FinishedByUser n.id as ∨ ∃ selected, r.Reported n as selected ∧
      n.kind.WellChosen (settledChoice selected) ∧
      ((r.acts as).chosen.at? n.id).getD [] = settledChoice selected := by
  induction as using List.reverseRecOn with
  | nil =>
    obtain ⟨_, _, _, _, _, _, rfl⟩ := h.eq
    cases hs
  | append_singleton as a ih =>
    have hlast : r.acts (as ++ [a]) = (r.acts as).act a := acts_append ..
    have hlonger : ∀ {bs : List Action}, bs <+: as → bs <+: as ++ [a] := fun hbs =>
      hbs.trans (List.prefix_append as [a])
    rw [hlast] at hs ⊢
    rcases h.steady.acts_or_isTerminal as with hsteady | hterminal
    · by_cases hbefore : (r.acts as).standing? n.id = some (.done .success)
      · have hsame := hsteady.chosen_acts (passed_iff.2 (Or.inl hbefore)) [a]
        rw [acts_cons, acts_nil] at hsame
        rw [hsame]
        rcases ih hbefore with ⟨bs, b, hbs, hb⟩ |
          ⟨selected, ⟨bs, x, output, elapsed, hbs, hx⟩, hchosen⟩
        · exact Or.inl ⟨bs, b, hlonger hbs, hb⟩
        · exact Or.inr ⟨selected, ⟨bs, x, output, elapsed, hlonger hbs, hx⟩, hchosen⟩
      · cases hsteady.succeeding hbefore hs with
        | answered ha => exact Or.inl ⟨as, a, List.prefix_rfl, ha⟩
        | @reported x output selected branches elapsed hx hid hcheck hchosen =>
          have hgraph := h.graph_acts as
          have hnode := h.built.wellFormed.node?_id hn
          have hexecuted : x.request.node = n := by
            have hflying := (hsteady.sound.flying x hx).1
            rw [hgraph, hid, hnode] at hflying
            exact (Option.some.inj hflying).symm
          obtain ⟨rfl, hwell⟩ := checkBranches_eq_ok (hgraph ▸ hnode) hbranching hcheck
          exact Or.inr ⟨selected, ⟨as, x, output, elapsed, List.prefix_rfl, hx, hexecuted⟩, hwell,
            hchosen⟩
    · rw [act_of_isTerminal hterminal] at hs ⊢
      rcases ih hs with ⟨bs, b, hbs, hb⟩ | ⟨selected, ⟨bs, x, output, elapsed, hbs, hx⟩, hchosen⟩
      · exact Or.inl ⟨bs, b, hlonger hbs, hb⟩
      · exact Or.inr ⟨selected, ⟨bs, x, output, elapsed, hlonger hbs, hx⟩, hchosen⟩

/-- An edge that leaves a node with branches belongs to one of them, and is alive if the node
succeeded and chose it. -/
theorem Launched.alive_iff (h : Launched g limit startInputs pool r) {as : List Action} {n : Node}
    (hn : n ∈ g.nodes) (hbranching : n.kind.isBranching = true)
    (hs : (r.acts as).standing? n.id = some (.done .success)) {e : Edge}
    (he : e ∈ g.edgesFrom n.id) : ∃ handle, e.branch = some handle ∧
      ((r.acts as).alive e = true ↔
        handle.branch ∈ ((r.acts as).chosen.at? n.id).getD []) := by
  obtain ⟨hmem, hsource⟩ := Graph.mem_edgesFrom.1 he
  have hbound := (h.built.branch_isSome_iff e (Graph.mem_edges.1 hmem) n (Graph.mem_nodes.1 hn)
    hsource.symm).2 hbranching
  obtain ⟨handle, hhandle⟩ := Option.isSome_iff_exists.1 hbound
  refine ⟨handle, hhandle, ?_⟩
  unfold alive succeeded branchChosen
  rw [hsource, hs, hhandle]
  simp

/-- The branches of a node with branches whose record says `success`, in any history. They are well
chosen unless the user finished the node; then there are none. Otherwise they are the choice that
its execution reported, and `default` if it reported none. If the kind of the node was worked out
from its parameter, they are `default` or declared there. Of the edges that leave the node, each of
which belongs to a branch, exactly those of these branches are alive. -/
theorem branches_of_success (h : Launched g limit startInputs pool r) (as : List Action)
    {n : Node} (hn : n ∈ g.nodes) (hbranching : n.kind.isBranching = true) {x : Record}
    (hx : x ∈ (r.acts as).ownRecords n.id) (hsuccess : x.status = .success) :
    (n.kind.WellChosen x.branches ↔ ¬ r.FinishedByUser n.id as) ∧
    (r.FinishedByUser n.id as → x.branches = []) ∧
    (¬ r.FinishedByUser n.id as → ∃ selected, r.Reported n as selected ∧
      x.branches = if selected = [] then [defaultBranch] else distinct selected) ∧
    (n.kind = .of n.type n.config.param → ∀ b ∈ x.branches,
      b = defaultBranch ∨ Declares n.config.param n.kind.branchField b) ∧
    (∀ e ∈ g.edgesFrom n.id, ∃ handle, e.branch = some handle ∧
      ((r.acts as).alive e = true ↔ handle.branch ∈ x.branches)) := by
  have hledger := h.steady.ledger_acts as
  have hown := (mem_ownRecords_iff hledger).1 hx
  have hdone := h.truthful_acts as n.id x hown hsuccess
  have hbranches := branches_ownRecord? hledger hown
  have hnone : r.FinishedByUser n.id as → x.branches = [] := fun hf => by
    rw [hbranches, h.unchosen_of_finishedByUser hf]
    rfl
  have hchoice := h.choice_acts hn hbranching as hdone
  rw [← hbranches] at hchoice
  refine ⟨?_, hnone, ?_, ?_, ?_⟩
  · constructor
    · exact fun hwell hf => hwell.nonempty (hnone hf)
    · intro hf
      obtain ⟨selected, -, hwell, hsettled⟩ := hchoice.resolve_left hf
      exact hsettled ▸ hwell
  · intro hf
    obtain ⟨selected, hreported, -, hsettled⟩ := hchoice.resolve_left hf
    exact ⟨selected, hreported, hsettled⟩
  · intro hkind b hb
    rcases hchoice with hf | ⟨selected, -, hwell, hsettled⟩
    · rw [hnone hf] at hb
      cases hb
    · rcases hwell.declared b (hsettled ▸ hb) with hdefault | ⟨bs, hbs, hmem⟩
      · exact Or.inl hdefault
      · rw [hkind] at hbs ⊢
        exact NodeKind.mem_branchIds.1 (NodeKind.branches?_of hbs ▸ hmem)
  · intro e he
    rw [hbranches]
    exact h.alive_iff hn hbranching hdone he

/-- The judge reports a success without a choice, which comes to `default`. -/
theorem branches_of_success_default :
    let as : List Action := [.schedule, .report 0 (.ok (.success .null [])) 0,
      .report 1 (.ok (.success .null [])) 0, .schedule, .report 2 (.ok (.success .null [])) 0]
    Launched Sample.graph 0 [] {} (Sample.run 0) ∧ Sample.check ∈ Sample.graph.nodes ∧
      Sample.check.kind.isBranching = true ∧
      ∃ x ∈ ((Sample.run 0).acts as).ownRecords Sample.check.id, x.status = .success ∧
        x.branches = [defaultBranch] ∧ Sample.check.kind.WellChosen x.branches ∧
        ¬ (Sample.run 0).FinishedByUser Sample.check.id as := by
  have hrecords : (((Sample.run 0).acts [.schedule, .report 0 (.ok (.success .null [])) 0,
      .report 1 (.ok (.success .null [])) 0, .schedule,
      .report 2 (.ok (.success .null [])) 0]).ownRecords Sample.check.id).map
        (fun x => (x.status, x.branches)) = [(.success, [defaultBranch])] := by cbv
  intro as
  obtain ⟨x, hown, hshows⟩ := List.map_eq_singleton_iff.1 hrecords
  obtain ⟨hstatus, hbranches⟩ := Prod.mk.inj hshows
  have hx : x ∈ ((Sample.run 0).acts as).ownRecords Sample.check.id := by
    rw [hown]
    exact List.mem_singleton.2 rfl
  have hn : Sample.check ∈ Sample.graph.nodes := Sample.mem_nodes.2 (by simp)
  obtain ⟨hwell, hnone, -⟩ := branches_of_success (Sample.launched 0) as hn rfl hx hstatus
  have huser : ¬ (Sample.run 0).FinishedByUser Sample.check.id as := fun hf => by
    rw [hnone hf] at hbranches
    cases hbranches
  exact ⟨Sample.launched 0, hn, rfl, x, hx, hstatus, hbranches, hwell.2 huser, huser⟩

/-- The judge asks for user input itself, and succeeds without any branch when it is resumed. -/
theorem not_forall_wellChosen : ¬ ∀ (g : Graph) (limit : Nat) (startInputs : Dict Value)
    (pool : Pool) (r : Run), Launched g limit startInputs pool r → ∀ as, ∀ n ∈ g.nodes,
      n.kind.isBranching = true → ∀ x ∈ (r.acts as).ownRecords n.id, x.status = .success →
        n.kind.WellChosen x.branches := by
  intro hall
  have hrecords : (((Sample.run 0).acts [.schedule, .report 0 (.ok (.success .null [])) 0,
      .report 1 (.ok (.success .null [])) 0, .schedule, .report 2 (.ok (.paused none)) 0,
      .resume ⟨"check", none⟩ []]).ownRecords Sample.check.id).map
        (fun x => (x.status, x.branches)) = [(.success, [])] := by cbv
  obtain ⟨x, hown, hshows⟩ := List.map_eq_singleton_iff.1 hrecords
  obtain ⟨hstatus, hbranches⟩ := Prod.mk.inj hshows
  have hn : Sample.check ∈ Sample.graph.nodes := Sample.mem_nodes.2 (by simp)
  have hwell := hall Sample.graph 0 [] {} (Sample.run 0) (Sample.launched 0) _ Sample.check hn rfl x
    (by rw [hown]; exact List.mem_singleton.2 rfl) hstatus
  exact hwell.nonempty hbranches

end Run
end Flowrun

import Flowrun.Pool
import Flowrun.Scope.Reference
import Mathlib.Data.List.Basic

/-!
# What reading a pool depends on

Publishing changes the values of one owner only, and reading at a selector asks for the values of
its owner only. The inputs of a node that refer are looked up at one selector each, which is one of
the node's references, and the selectors at which nothing is found are reported:

    p.unresolved n = n.lookups.filter fun s => (p.get? s).isNone

So the inputs of a node are the same in two pools that agree on the owners which the node refers to
(`inputs_congr`). Nothing is ever taken out of a pool, so what was found once is found again
(`Holds`).
-/

namespace Flowrun

open Json

/-! ### Lookups -/

/-- The selector at which an input is looked up. -/
def InputParam.lookup? (param : InputParam) : Option Selector :=
  match param.valueFrom, param.value with
  | .refer, some (.string s) => Selector.read? s
  | _, _ => none

/-- The selectors at which the inputs of a node are looked up. -/
def Node.lookups (n : Node) : List Selector := n.config.inputs.filterMap InputParam.lookup?

theorem InputParam.mem_selectors_of_lookup? {param : InputParam} {s : Selector}
    (h : param.lookup? = some s) : s ∈ param.selectors := by
  unfold lookup? at h
  unfold selectors
  split at h
  · next text hfrom hvalue =>
    rw [hfrom, hvalue]
    simp [h]
  · cases h

/-- A lookup is a reference of the node. -/
theorem Node.exists_reference_of_mem_lookups {n : Node} {s : Selector} (h : s ∈ n.lookups) :
    ∃ x ∈ n.references, x.selector = s := by
  obtain ⟨param, hparam, hlookup⟩ := List.mem_filterMap.1 h
  refine ⟨⟨s, "input_params." ++ param.key⟩, List.mem_append_left _ ?_, rfl⟩
  exact List.mem_flatMap.2
    ⟨param, hparam, List.mem_map_of_mem (InputParam.mem_selectors_of_lookup? hlookup)⟩

namespace Pool

variable {p q : Pool} {owner key : String}

/-! ### Writing -/

theorem outputs?_publish_of_ne (p : Pool) {owner other : String} (h : owner ≠ other) (v : Value) :
    (p.publish owner v).outputs? other = p.outputs? other := by
  cases v with
  | null => rfl
  | _ => exact Dict.at?_put_of_ne _ h _

/-- What an owner has after publishing depends on what it had before. -/
theorem outputs?_publish_congr (h : p.outputs? owner = q.outputs? owner)
    (v : Value) : (p.publish owner v).outputs? owner = (q.publish owner v).outputs? owner := by
  have houtputs : p.outputs owner = q.outputs owner := congrArg (·.getD []) h
  cases v with
  | null => exact h
  | _ =>
    refine (Dict.at?_put_self _ _ _).trans (Eq.trans ?_ (Dict.at?_put_self _ _ _).symm)
    simp only [houtputs]

/-! ### Reading -/

theorem get?_congr {s : Selector} (h : p.outputs? s.owner = q.outputs? s.owner) :
    p.get? s = q.get? s := by
  unfold get? outputs
  rw [h]

/-- What comes out of an input, by the selector at which it is looked up. -/
theorem resolveParam_of_lookup? {param : InputParam} {s : Selector} (h : param.lookup? = some s) :
    p.resolveParam param =
      ((p.get? s).getD .null, if (p.get? s).isNone then some s else none) := by
  unfold InputParam.lookup? at h
  unfold resolveParam
  split at h
  · next text hfrom hvalue =>
    simp only [hfrom, hvalue, h]
    cases p.get? s <;> rfl
  · cases h

/-- An input that is not looked up comes out the same in all pools, and is not reported. -/
theorem resolveParam_of_not_lookup? {param : InputParam} (h : param.lookup? = none) :
    p.resolveParam param = q.resolveParam param ∧ (p.resolveParam param).2 = none := by
  obtain ⟨key, type, valueFrom, value⟩ := param
  unfold InputParam.lookup? at h
  unfold resolveParam
  cases valueFrom with
  | input => exact ⟨rfl, rfl⟩
  | refer =>
    cases value with
    | none => exact ⟨rfl, rfl⟩
    | some v =>
      cases v with
      | string s =>
        dsimp only at h ⊢
        rw [h]
        exact ⟨rfl, rfl⟩
      | _ => exact ⟨rfl, rfl⟩

/-- The inputs of a node depend on what is found at its lookups. -/
theorem inputs_congr_lookups {n : Node} (h : ∀ s ∈ n.lookups, p.get? s = q.get? s) :
    p.inputs n = q.inputs n := by
  unfold inputs
  congr 1
  refine List.map_congr_left fun param hparam => ?_
  cases hlookup : param.lookup? with
  | none => rw [(resolveParam_of_not_lookup? hlookup).1]
  | some s =>
    have hs : s ∈ n.lookups := List.mem_filterMap.2 ⟨param, hparam, hlookup⟩
    rw [resolveParam_of_lookup? hlookup, resolveParam_of_lookup? hlookup, h s hs]

/-- The inputs of a node depend on what the owners have that it refers to. -/
theorem inputs_congr {n : Node}
    (h : ∀ x ∈ n.references, p.outputs? x.selector.owner = q.outputs? x.selector.owner) :
    p.inputs n = q.inputs n := by
  refine inputs_congr_lookups fun s hs => ?_
  obtain ⟨x, hx, rfl⟩ := Node.exists_reference_of_mem_lookups hs
  exact get?_congr (h x hx)

/-- The lookups at which nothing is found are reported. -/
theorem unresolved_eq (p : Pool) (n : Node) :
    p.unresolved n = n.lookups.filter fun s => (p.get? s).isNone := by
  unfold unresolved Node.lookups
  rw [List.filter_filterMap]
  refine List.filterMap_congr fun param _ => ?_
  cases hlookup : param.lookup? with
  | none => exact (resolveParam_of_not_lookup? (q := p) hlookup).2
  | some s =>
    rw [resolveParam_of_lookup? hlookup]
    simp [Option.filter]

/-! ### What is kept -/

/-- Whether a variable was given a value. -/
def Holds (p : Pool) (owner key : String) : Prop := (p.outputs owner).at? key ≠ none

theorem get?_isSome_iff {s : Selector} : (p.get? s).isSome = true ↔ p.Holds s.owner s.key := by
  unfold get? Holds
  rw [Option.isSome_map, Option.isSome_iff_ne_none]

/-- The keys under which a value is published. -/
def publishedKeys : Value → List String
  | .object fields => fields.map Prod.fst
  | .null => []
  | _ => [outputKey]

theorem at?_putAll_ne_none (d : Dict Value) (entries : List (String × Value)) (k : String) :
    (d.putAll entries).at? k ≠ none ↔ k ∈ entries.map Prod.fst ∨ d.at? k ≠ none := by
  induction entries generalizing d with
  | nil => simp [Dict.putAll]
  | cons e rest ih =>
    have hput : (d.put e.1 e.2).at? k ≠ none ↔ k = e.1 ∨ d.at? k ≠ none := by
      rw [Dict.at?_put]
      split
      · next hk => exact iff_of_true nofun (Or.inl hk.symm)
      · next hk => rw [or_iff_right (Ne.symm hk)]
    have hrest := ih (d.put e.1 e.2)
    rw [hput] at hrest
    rw [List.map_cons, List.mem_cons, or_assoc, or_left_comm]
    exact hrest

theorem outputs_put (p : Pool) (owner other : String) (d : Dict Value) :
    (⟨p.owners.put owner d⟩ : Pool).outputs other =
      if owner = other then d else p.outputs other := by
  unfold outputs outputs?
  rw [Dict.at?_put]
  split <;> rfl

theorem holds_set {s : Selector} {v : Value} : (p.set s v).Holds owner key ↔
    s.owner = owner ∧ s.key = key ∨ p.Holds owner key := by
  unfold Holds set
  dsimp only
  rw [outputs_put]
  split
  · next howner =>
    subst howner
    rw [Dict.at?_put]
    split
    · next hkey => exact iff_of_true nofun (Or.inl ⟨rfl, hkey⟩)
    · next hkey => rw [or_iff_right fun h => hkey h.2]
  · next howner => rw [or_iff_right fun h => howner h.1]

theorem holds_publish {node : String} {v : Value} : (p.publish node v).Holds owner key ↔
    node = owner ∧ key ∈ publishedKeys v ∨ p.Holds owner key := by
  cases v with
  | null => simp [publish, publishedKeys]
  | object fields =>
    unfold Holds publish publishedKeys
    dsimp only
    rw [outputs_put]
    split
    · next howner =>
      subst howner
      rw [at?_putAll_ne_none]
      simp
    · next howner => rw [or_iff_right fun h => howner h.1]
  | _ =>
    refine holds_set.trans ?_
    simp [publishedKeys, eq_comm]

/-- The pool with which a task begins holds all declared global variables. -/
theorem holds_ofGlobals {globals : List GlobalVariable} {x : GlobalVariable} (hx : x ∈ globals) :
    (ofGlobals globals).Holds x.namespaceName x.key := by
  have key : ∀ (globals : List GlobalVariable) (p : Pool),
      x ∈ globals ∨ p.Holds x.namespaceName x.key →
        (globals.foldl (fun p x => p.set x.selector x.default) p).Holds x.namespaceName x.key := by
    intro globals
    induction globals with
    | nil => exact fun p h => h.resolve_left List.not_mem_nil
    | cons y globals ih =>
      rintro p (hx | hp)
      · rcases List.mem_cons.1 hx with rfl | hx
        · exact ih _ (Or.inr (holds_set.2 (Or.inl ⟨rfl, rfl⟩)))
        · exact ih _ (Or.inl hx)
      · exact ih _ (Or.inr (holds_set.2 (Or.inr hp)))
  exact key globals {} (Or.inl hx)

end Pool
end Flowrun

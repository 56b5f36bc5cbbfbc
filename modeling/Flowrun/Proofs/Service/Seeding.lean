import Flowrun.Proofs.Pool.Paths
import Flowrun.Proofs.Run.Resume
import Flowrun.Proofs.Selector.Segments
import Flowrun.Service.Start

/-!
# Routing parameters

The parameters of a task are routed one after the other, to the pool or to the inputs of the start
node. If no two of them meet, that is, if their routes diverge pairwise, each is found in the end
where it was routed to, and their order does not matter:

    params'.Perm params → ofParams pool params' = ofParams pool params

Any two of them can be swapped, since writes at diverging selectors commute (`add_comm`). What they
have built under `sys.query` is told by the writes that go there (`root_foldl_add`); the user's
query stands in for it if that is nothing.
-/

namespace Flowrun

open Json

/-! ### Where a parameter goes -/

/-- Two routes that do not meet. -/
def ParamRoute.Diverges : ParamRoute → ParamRoute → Prop
  | .pool s, .pool t => s.Diverges t
  | .input k, .input l => k ≠ l
  | _, _ => True

instance (a b : ParamRoute) : Decidable (a.Diverges b) := by
  cases a <;> cases b <;> unfold ParamRoute.Diverges <;> infer_instance

theorem ParamRoute.Diverges.symm {a b : ParamRoute} (h : a.Diverges b) : b.Diverges a := by
  cases a <;> cases b
  · exact Selector.Diverges.symm h
  · trivial
  · trivial
  · exact Ne.symm h

/-- A text without dots is one segment. -/
theorem Selector.ofText?_eq_none {t : String} (h : '.' ∉ t.toList) : ofText? t = none := by
  have hpieces : Text.pieces '.' (Text.trim t.toList) = [Text.trim t.toList] :=
    Text.pieces_of_not_mem fun hdot => h (Text.mem_of_mem_trim hdot)
  unfold ofText? ofChars? dottedSegments
  rw [hpieces]
  by_cases hempty : Text.trim t.toList = [] <;> simp [hempty, ofSegments?]

namespace RunParam

variable {p : RunParam}

theorem dotted?_eq (p : RunParam) : p.dotted? = Selector.ofText? p.key := by
  unfold dotted?
  split
  · rfl
  · next h => exact (Selector.ofText?_eq_none h).symm

/-- The inputs of the start node are the user's parameters that do not read as selectors. -/
theorem route_eq_input {key : String} :
    p.route = .input key ↔ p.source = .user ∧ Selector.ofText? p.key = none ∧ p.key = key := by
  unfold route
  rw [dotted?_eq]
  cases Selector.ofText? p.key <;> cases p.source <;> simp

/-- What a parameter writes into `sys.query`, and at which path. -/
def queryWrite? (p : RunParam) : Option (List String × Value) := match p.route with
  | .pool s =>
    if s.owner = sysNamespace ∧ s.key = GlobalVariable.queryKey then some (s.path, p.value)
    else none
  | .input _ => none

end RunParam

/-- The value that a number of writes build, one after the other, where there was nothing. -/
def Json.Value.built (writes : List (List String × Value)) : Value :=
  writes.foldl (fun old w => assign w.1 w.2 old) .null

namespace Pool

/-- A write leaves the other variables as they are. -/
theorem get?_set_of_ne (p : Pool) {s t : Selector} (h : ¬ (s.owner = t.owner ∧ s.key = t.key))
    (v : Value) : (p.set s v).get? t = p.get? t := by
  unfold get?
  rw [outputs_set]
  split
  · next howner =>
    rw [Dict.at?_put_of_ne _ fun hkey => h ⟨howner, hkey⟩, howner]
  · rfl

end Pool

namespace Seed

variable {s : Seed} {p q : RunParam} {params params' : List RunParam} {pool : Pool}

/-! ### The order of two parameters -/

theorem add_comm (h : p.route.Diverges q.route) (s : Seed) : (s.add p).add q = (s.add q).add p := by
  unfold add
  cases hp : p.route with
  | pool t =>
    cases hq : q.route with
    | pool u =>
      rw [hp, hq] at h
      exact congrArg (Seed.mk · s.inputs) (Pool.set_comm s.pool h p.value q.value)
    | input l => rfl
  | input k =>
    cases hq : q.route with
    | pool u => rfl
    | input l =>
      rw [hp, hq] at h
      exact congrArg (Seed.mk s.pool) (Dict.put_comm s.inputs h p.value q.value)

theorem foldl_add_perm (h : params.Pairwise fun p q => p.route.Diverges q.route)
    (hperm : params.Perm params') (s : Seed) : params.foldl add s = params'.foldl add s := by
  have hcomm : params.Pairwise fun p q => ∀ s : Seed, (s.add p).add q = (s.add q).add p :=
    h.imp add_comm
  have : Std.Symm fun p q : RunParam => ∀ s : Seed, (s.add p).add q = (s.add q).add p :=
    ⟨fun _ _ hswap s => (hswap s).symm⟩
  exact hperm.foldl_eq' (fun p hp q hq => hcomm.forall_of_forall (fun _ _ _ => rfl) hp hq) s

/-! ### What becomes of the parameters -/

theorem at?_inputs_add (s : Seed) (p : RunParam) (key : String) :
    (s.add p).inputs.at? key = if p.route = .input key then some p.value else s.inputs.at? key := by
  unfold add
  cases p.route with
  | pool t => rw [if_neg nofun]
  | input k =>
    dsimp only
    rw [Dict.at?_put]
    simp only [ParamRoute.input.injEq]

/-- The input of a key is what was routed to it, if anything was. -/
theorem at?_inputs_foldl_add (h : params.Pairwise fun p q => p.route.Diverges q.route) (s : Seed)
    (key : String) {v : Value} : (params.foldl add s).inputs.at? key = some v ↔
      (∃ p ∈ params, p.route = .input key ∧ p.value = v) ∨
        (∀ p ∈ params, p.route ≠ .input key) ∧ s.inputs.at? key = some v := by
  induction params generalizing s with
  | nil => simp
  | cons p params ih =>
    obtain ⟨hfirst, hrest⟩ := List.pairwise_cons.1 h
    rw [List.foldl_cons, ih hrest, at?_inputs_add]
    by_cases hp : p.route = .input key
    · have hnone : ∀ q ∈ params, q.route ≠ .input key := by
        intro q hq hroute
        have hdiverges := hfirst q hq
        rw [hp, hroute] at hdiverges
        exact hdiverges rfl
      simp +contextual [hp, hnone, or_comm]
    · simp [hp]

/-- What is under `sys.query` is what its writes make of what was there. -/
theorem root_foldl_add (params : List RunParam) (s : Seed) :
    (params.foldl add s).pool.root sysNamespace GlobalVariable.queryKey =
      (params.filterMap RunParam.queryWrite?).foldl (fun old w => Value.assign w.1 w.2 old)
        (s.pool.root sysNamespace GlobalVariable.queryKey) := by
  induction params generalizing s with
  | nil => rfl
  | cons p params ih =>
    rw [List.foldl_cons, ih, List.filterMap_cons, RunParam.queryWrite?, add]
    cases p.route with
    | input key => rfl
    | pool t =>
      dsimp only
      rw [Pool.root_set]
      split <;> rfl

theorem getD_get?_query (p : Pool) :
    (p.get? querySelector).getD .null = p.root sysNamespace GlobalVariable.queryKey :=
  Pool.getD_get? p querySelector

theorem withQuery_of_ne (h : s.pool.root sysNamespace GlobalVariable.queryKey ≠ .null) :
    s.withQuery = s := by
  unfold withQuery
  rw [getD_get?_query, if_neg fun hnull => h (Value.isNull_iff.1 hnull)]

theorem inputs_withQuery (s : Seed) : s.withQuery.inputs = s.inputs := by
  unfold withQuery
  split
  · split <;> rfl
  · rfl

/-- Nothing but `sys.query` is touched when the user's query stands in for it. -/
theorem get?_withQuery_of_ne {t : Selector}
    (h : ¬ (sysNamespace = t.owner ∧ GlobalVariable.queryKey = t.key)) :
    s.withQuery.pool.get? t = s.pool.get? t := by
  unfold withQuery
  split
  · split
    · exact Pool.get?_set_of_ne _ h _
    · rfl
  · rfl

theorem root_withQuery (s : Seed) :
    s.withQuery.pool.root sysNamespace GlobalVariable.queryKey =
      if s.pool.root sysNamespace GlobalVariable.queryKey = .null then
        (s.inputs.at? GlobalVariable.queryKey).getD .null
      else s.pool.root sysNamespace GlobalVariable.queryKey := by
  split
  · next hnull =>
    unfold withQuery
    rw [getD_get?_query, if_pos (Value.isNull_iff.2 hnull)]
    cases s.inputs.at? GlobalVariable.queryKey with
    | none => exact hnull
    | some query => exact (Pool.root_set _ _ _ _ _).trans (if_pos ⟨rfl, rfl⟩)
  · next hsome => rw [withQuery_of_ne hsome]

/-- A parameter is found in the pool where it was routed to, unless it is a `null` for which the
user's query stands in. -/
theorem get?_ofParams (h : params.Pairwise fun p q => p.route.Diverges q.route) (hp : p ∈ params)
    {t : Selector} (hroute : p.route = .pool t) (hvalue : t ≠ querySelector ∨ p.value ≠ .null) :
    (ofParams pool params).pool.get? t = some p.value := by
  -- the parameter can be taken as the last one
  have hlast : params.Perm (params.erase p ++ [p]) :=
    (List.perm_cons_erase hp).trans (List.perm_append_singleton p _).symm
  have hfold : (params.foldl add { pool }).pool =
      ((params.erase p).foldl add { pool }).pool.set t p.value := by
    rw [foldl_add_perm h hlast, List.foldl_append, List.foldl_cons, List.foldl_nil, add, hroute]
  have hfound : (params.foldl add { pool }).pool.get? t = some p.value := by
    rw [hfold, Pool.get?_set_self]
  unfold ofParams
  by_cases hquery : sysNamespace = t.owner ∧ GlobalVariable.queryKey = t.key
  · have hroot : (params.foldl add { pool }).pool.root sysNamespace GlobalVariable.queryKey ≠
        .null := by
      rw [hfold, Pool.root_set, if_pos ⟨hquery.1.symm, hquery.2.symm⟩]
      obtain ⟨owner, key, path⟩ := t
      obtain ⟨rfl, rfl⟩ : sysNamespace = owner ∧ GlobalVariable.queryKey = key := hquery
      cases path with
      | nil => exact hvalue.resolve_left (not_not.2 rfl)
      | cons segment path => exact nofun
    rw [withQuery_of_ne hroot, hfound]
  · rw [get?_withQuery_of_ne hquery, hfound]

/-- Parameters whose routes diverge pairwise can be given in any order. Take any pool in which
`sys.query` is `null` or missing. Every order gives the same pool and the same inputs. The inputs of
the start node are the user's parameters whose keys do not read as selectors, each under its key.
What is under `sys.query` in the end is what was built there by the parameters that are written at
it and below it, or, if that is `null`, the user's query, or else `null` or nothing. All other
parameters that were written to the pool are found where they were written. -/
theorem ofParams_in_any_order (hquery : (pool.get? querySelector).getD .null = .null)
    (h : params.Pairwise fun p q => p.route.Diverges q.route) :
    (∀ params', params'.Perm params → ofParams pool params' = ofParams pool params) ∧
    (∀ key v, (ofParams pool params).inputs.at? key = some v ↔ ∃ p ∈ params,
      p.source = .user ∧ Selector.ofText? p.key = none ∧ p.key = key ∧ p.value = v) ∧
    ((ofParams pool params).pool.get? querySelector).getD .null =
      (if Value.built (params.filterMap RunParam.queryWrite?) = .null then
        ((ofParams pool params).inputs.at? GlobalVariable.queryKey).getD .null
      else Value.built (params.filterMap RunParam.queryWrite?)) ∧
    ∀ p ∈ params, ∀ t, p.route = .pool t → t ≠ querySelector ∨ p.value ≠ .null →
      (ofParams pool params).pool.get? t = some p.value := by
  refine ⟨fun params' hperm => ?_, fun key v => ?_, ?_, fun p hp t hroute hvalue =>
    get?_ofParams h hp hroute hvalue⟩
  · unfold ofParams
    rw [foldl_add_perm h hperm.symm]
  · unfold ofParams
    rw [inputs_withQuery, at?_inputs_foldl_add h]
    simp [RunParam.route_eq_input, Dict.at?, and_assoc]
  · have hnull : pool.root sysNamespace GlobalVariable.queryKey = .null := by
      rw [← getD_get?_query, hquery]
    have hbuilt : (params.foldl add { pool }).pool.root sysNamespace GlobalVariable.queryKey =
        Value.built (params.filterMap RunParam.queryWrite?) := by
      rw [root_foldl_add, hnull, Value.built]
    unfold ofParams
    rw [getD_get?_query, root_withQuery, inputs_withQuery, hbuilt]

/-- Two parameters below `sys.query` build an object there, so the user's query does not stand in
for it; a key that is a single dot is an input like the query. -/
theorem ofParams_in_any_order_mixed :
    let pool := Pool.ofGlobals [.userQuery]
    let params : List RunParam := [.user "query" (.string "news"), .user "sys.query.page" .null,
      .sys "sys.query.rows" (.bool true), .user "." (.bool false), .user "fetch.rows" .null]
    (pool.get? querySelector).getD .null = .null ∧
      (params.Pairwise fun p q => p.route.Diverges q.route) ∧
      ofParams pool params.reverse = ofParams pool params ∧
      (ofParams pool params).inputs.at? "." = some (.bool false) ∧
      ((ofParams pool params).pool.get? querySelector).getD .null =
        .object [("page", .null), ("rows", .bool true)] ∧
      (ofParams pool params).pool.get? ⟨"fetch", "rows", []⟩ = some .null := by
  intro pool params
  have hquery : (pool.get? querySelector).getD .null = .null := by decide
  have hroutes : params.Pairwise fun p q => p.route.Diverges q.route := by decide +kernel
  obtain ⟨horder, hinputs, hbuilt, hfound⟩ := ofParams_in_any_order hquery hroutes
  have hvalue : Value.built (params.filterMap RunParam.queryWrite?) =
      .object [("page", .null), ("rows", .bool true)] := by decide +kernel
  rw [hvalue, if_neg nofun] at hbuilt
  refine ⟨hquery, hroutes, horder _ (List.reverse_perm params), ?_, hbuilt, ?_⟩
  · exact (hinputs "." _).2 ⟨.user "." (.bool false), by decide, rfl, by decide +kernel, rfl, rfl⟩
  · exact hfound (.user "fetch.rows" .null) (by decide) _ (by decide +kernel) (Or.inl (by decide))

end Seed
end Flowrun

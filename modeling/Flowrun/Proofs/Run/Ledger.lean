import Flowrun.Proofs.Run.Board

/-!
# What is written down about the nodes

The ledger of a run is what it has written down about its nodes: where they stand, which record is
theirs, with which inputs they were started, which branches they chose, and the records themselves.
The record of a node of the graph has no parent; those of nodes inside it do, and they are entered
on the side. A ledger is `Sound` if all this agrees. In a sound ledger

    standings.at? id = none ↔ recordOf.at? id = none

and a node has at most one record of its own, which shows where it stands.

What a node does to the ledger is one of three things: its record is filed, its record is amended,
or it goes from running to waiting or back. Each has a lemma that keeps the ledger sound.
-/

namespace Flowrun

open Json

/-- Whether a record with a status may be that of a node that stands somewhere. -/
def Standing.Shows : Standing → NodeStatus → Prop
  | .done s, t => t = s
  | _, t => t = .executing ∨ t = .pause

/-- A node that was reached and is not done. -/
def Standing.Open (s : Standing) : Prop := s = .running ∨ s = .suspended

theorem Standing.Shows.skip_iff {s : Standing} {t : NodeStatus} (h : s.Shows t) :
    t = .skip ↔ s = .done .skip := by
  cases s with
  | done u => simp [show t = u from h]
  | running => rcases h with rfl | rfl <;> simp
  | suspended => rcases h with rfl | rfl <;> simp

/-- What is written down about the nodes of a run. -/
structure Ledger where
  standings : Dict Standing
  recordOf : Dict Nat
  inputsOf : Dict (Dict Value)
  chosen : Dict (List String)
  record? : Nat → Option Record

def Run.ledger (r : Run) : Ledger :=
  ⟨r.standings, r.recordOf, r.inputsOf, r.chosen, r.feed.record?⟩

namespace Ledger

/-- What is written down agrees. -/
structure Sound (l : Ledger) : Prop where
  filed : ∀ id i, l.recordOf.at? id = some i →
    ∃ x, l.record? i = some x ∧ x.node = id ∧ x.parent = none
  unique : ∀ i x, l.record? i = some x → x.parent = none → l.recordOf.at? x.node = some i
  reached : ∀ id, l.standings.at? id = none ↔ l.recordOf.at? id = none
  given : ∀ id, l.inputsOf.at? id = none ↔
    l.standings.at? id = none ∨ l.standings.at? id = some (.done .skip)
  skipped : ∀ i x, l.record? i = some x → x.parent = none →
    (x.status = .skip ↔ l.standings.at? x.node = some (.done .skip))
  /-- A pause inside a container with an empty id is shown as a pause of that inner node alone, and
  the record of the container is left behind. -/
  shown : ∀ i x, l.record? i = some x → x.parent = none → x.node ≠ "" →
    ∃ s, l.standings.at? x.node = some s ∧ s.Shows x.status
  branches : ∀ i x, l.record? i = some x → x.parent = none →
    x.branches = (l.chosen.at? x.node).getD []
  succeeded : ∀ id, l.chosen.at? id ≠ none → l.standings.at? id = some (.done .success)

variable {l : Ledger}

/-- A node that was reached has a record of its own. -/
theorem Sound.exists_record (h : l.Sound) {id : String} {s : Standing}
    (hs : l.standings.at? id = some s) :
    ∃ i x, l.recordOf.at? id = some i ∧ l.record? i = some x ∧ x.node = id ∧ x.parent = none := by
  cases hi : l.recordOf.at? id with
  | none => rw [(h.reached id).2 hi] at hs; cases hs
  | some i =>
    obtain ⟨x, hx⟩ := h.filed id i hi
    exact ⟨i, x, rfl, hx⟩

/-- The first record of a node is filed. -/
theorem Sound.file (h : l.Sound) {x : Record} {s : Standing} {i : Nat} {given : Dict (Dict Value)}
    {record? : Nat → Option Record} (hfree : l.standings.at? x.node = none)
    (hnew : l.record? i = none) (hparent : x.parent = none) (hbranches : x.branches = [])
    (hshow : s.Shows x.status)
    (hrecord : ∀ j, record? j = if j = i then some x else l.record? j)
    (hgiven : ∀ id, given.at? id = none ↔
      if id = x.node then s = .done .skip else l.inputsOf.at? id = none) :
    Sound ⟨l.standings.put x.node s, l.recordOf.put x.node i, given, l.chosen, record?⟩ := by
  have hunfiled := (h.reached _).1 hfree
  have hunchosen : l.chosen.at? x.node = none := by
    by_contra hc
    rw [h.succeeded _ hc] at hfree
    cases hfree
  -- the record of another node is in another place
  have hother : ∀ j y, l.record? j = some y → y.parent = none → y.node ≠ x.node := by
    intro j y hy hp he
    have := h.unique j y hy hp
    rw [he, hunfiled] at this
    cases this
  constructor
  · intro id j hj
    have := h.filed id j
    grind [Dict.at?_put]
  · intro j y hy hp
    have := h.unique j y
    grind [Dict.at?_put]
  · intro id
    have := h.reached id
    grind [Dict.at?_put]
  · intro id
    have := h.given id
    have := hgiven id
    grind [Dict.at?_put]
  · intro j y hy hp
    have := h.skipped j y
    have := hshow.skip_iff
    grind [Dict.at?_put]
  · intro j y hy hp hne
    have := h.shown j y
    grind [Dict.at?_put]
  · intro j y hy hp
    have := h.branches j y
    grind
  · intro id hc
    have := h.succeeded id
    grind [Dict.at?_put]

/-- A node that is not done has chosen nothing. -/
theorem Sound.unchosen (h : l.Sound) {id : String} {s : Standing}
    (hs : l.standings.at? id = some s) (hopen : s.Open) : l.chosen.at? id = none := by
  by_contra hc
  rw [h.succeeded _ hc] at hs
  rcases hopen with rfl | rfl <;> cases hs

/-- The record of a node that is not done is amended, and the node may choose branches. -/
theorem Sound.amend (h : l.Sound) {id : String} {i : Nat} {s t : Standing}
    {standings : Dict Standing} {change : Record → Record} {chosen : Dict (List String)}
    {record? : Nat → Option Record}
    (hs : l.standings.at? id = some s) (hopen : s.Open) (hi : l.recordOf.at? id = some i)
    (hstand : ∀ a, standings.at? a = if id = a then some t else l.standings.at? a)
    (hrecord : ∀ j, record? j = if i = j then (l.record? i).map change else l.record? j)
    (hnode : ∀ x, (change x).node = x.node) (hparent : ∀ x, (change x).parent = x.parent)
    (hskip : t ≠ .done .skip) (hshow : ∀ x, t.Shows (change x).status)
    (hbranches : ∀ x, x.branches = [] → (change x).branches = (chosen.at? id).getD [])
    (hchosen : chosen.at? id ≠ none → t = .done .success)
    (hothers : ∀ a, a ≠ id → chosen.at? a = l.chosen.at? a) :
    Sound ⟨standings, l.recordOf, l.inputsOf, chosen, record?⟩ := by
  obtain ⟨x, hx, hxn, hxp⟩ := h.filed id i hi
  -- before, the record has no branches, since a node chooses when it is done
  have hempty : x.branches = [] := by
    rw [h.branches i x hx hxp, hxn, h.unchosen hs hopen]
    rfl
  have hrecord' : ∀ j, record? j = if i = j then some (change x) else l.record? j := by
    intro j
    rw [hrecord j, hx]
    rfl
  have hother : ∀ j y, l.record? j = some y → y.parent = none → i ≠ j → y.node ≠ id := by
    intro j y hy hp hij he
    have := h.unique j y hy hp
    rw [he, hi] at this
    exact hij (Option.some.inj this)
  have hlive : s ≠ .done .skip := by rcases hopen with rfl | rfl <;> nofun
  have := hnode x
  have := hparent x
  have := hshow x
  have := hbranches x hempty
  constructor
  · intro a j hj
    have := h.filed a j hj
    grind
  · intro j y hy hp
    have := h.unique j y
    grind
  · intro a
    have := h.reached a
    grind
  · intro a
    have := h.given a
    grind
  · intro j y hy hp
    have := h.skipped j y
    have := (hshow x).skip_iff
    grind
  · intro j y hy hp hne
    have := h.shown j y
    grind
  · intro j y hy hp
    have := h.branches j y
    grind
  · intro a hc
    have := h.succeeded a
    grind

/-- The record of a node that is not done is amended, and nothing is chosen. -/
theorem Sound.mark (h : l.Sound) {id : String} {i : Nat} {s t : Standing}
    {standings : Dict Standing} {change : Record → Record} {record? : Nat → Option Record}
    (hs : l.standings.at? id = some s) (hopen : s.Open) (hi : l.recordOf.at? id = some i)
    (hstand : ∀ a, standings.at? a = if id = a then some t else l.standings.at? a)
    (hrecord : ∀ j, record? j = if i = j then (l.record? i).map change else l.record? j)
    (hnode : ∀ x, (change x).node = x.node) (hparent : ∀ x, (change x).parent = x.parent)
    (hbranches : ∀ x, (change x).branches = x.branches)
    (hskip : t ≠ .done .skip) (hshow : ∀ x, t.Shows (change x).status) :
    Sound { l with standings, record? } := by
  have hun := h.unchosen hs hopen
  refine h.amend hs hopen hi hstand hrecord hnode hparent hskip hshow ?_ ?_ fun _ _ => rfl
  · intro x hx
    rw [hbranches, hx, hun]
    rfl
  · intro hc
    exact absurd hun hc

/-- The container with an empty id is finished, and its record is left behind. -/
theorem Sound.abandon (h : l.Sound) {s t : Standing} (hs : l.standings.at? "" = some s)
    (hopen : s.Open) (hskip : t ≠ .done .skip) :
    Sound { l with standings := l.standings.put "" t } := by
  have hlive : s ≠ .done .skip := by rcases hopen with rfl | rfl <;> nofun
  have hun := h.unchosen hs hopen
  constructor
  · exact h.filed
  · exact h.unique
  · intro a
    have := h.reached a
    grind [Dict.at?_put]
  · intro a
    have := h.given a
    grind [Dict.at?_put]
  · intro j y hy hp
    have := h.skipped j y
    grind [Dict.at?_put]
  · intro j y hy hp hne
    have := h.shown j y
    grind [Dict.at?_put]
  · exact h.branches
  · intro a hc
    have := h.succeeded a
    grind [Dict.at?_put]

/-- A node goes from running to waiting, or back. -/
theorem Sound.turn (h : l.Sound) {id : String} {s t : Standing} (hs : l.standings.at? id = some s)
    (hopen : s.Open) (hopen' : t.Open) :
    Sound { l with standings := l.standings.put id t } := by
  have hshow : ∀ u, s.Shows u → t.Shows u := by
    intro u hu
    rcases hopen with rfl | rfl <;> rcases hopen' with rfl | rfl <;> exact hu
  have hskip : s ≠ .done .skip := by rcases hopen with rfl | rfl <;> nofun
  have hskip' : t ≠ .done .skip := by rcases hopen' with rfl | rfl <;> nofun
  have hsucc : s ≠ .done .success := by rcases hopen with rfl | rfl <;> nofun
  constructor
  · exact h.filed
  · exact h.unique
  · intro a
    have := h.reached a
    grind [Dict.at?_put]
  · intro a
    have := h.given a
    grind [Dict.at?_put]
  · intro j y hy hp
    have := h.skipped j y
    grind [Dict.at?_put]
  · intro j y hy hp hne
    have := h.shown j y
    grind [Dict.at?_put]
  · exact h.branches
  · intro a hc
    have := h.succeeded a
    grind [Dict.at?_put]

/-- Records of nodes inside are of no importance. -/
theorem Sound.aside (h : l.Sound) {record? : Nat → Option Record}
    (hown : ∀ i x, x.parent = none → (record? i = some x ↔ l.record? i = some x)) :
    Sound { l with record? } where
  filed id i hi := by
    obtain ⟨x, hx, hn, hp⟩ := h.filed id i hi
    exact ⟨x, (hown i x hp).2 hx, hn, hp⟩
  unique i x hx hp := h.unique i x ((hown i x hp).1 hx) hp
  reached := h.reached
  given := h.given
  skipped i x hx hp := h.skipped i x ((hown i x hp).1 hx) hp
  shown i x hx hp := h.shown i x ((hown i x hp).1 hx) hp
  branches i x hx hp := h.branches i x ((hown i x hp).1 hx) hp
  succeeded := h.succeeded

end Ledger

/-! ### The record of a node -/

namespace Run

variable {r : Run}

/-- A list in which an item at one place only passes a test. -/
theorem filter_eq_singleton {α : Type} {p : α → Bool} {l : List α} {i : Nat} {x : α}
    (hx : l[i]? = some x) (hp : p x = true) (h : ∀ j y, l[j]? = some y → p y = true → j = i) :
    l.filter p = [x] := by
  induction l generalizing i with
  | nil => cases hx
  | cons a l ih =>
    cases i with
    | zero =>
      obtain rfl : a = x := Option.some.inj hx
      have hrest : l.filter p = [] := by
        refine List.filter_eq_nil_iff.2 fun y hy hpy => ?_
        obtain ⟨j, hj⟩ := List.mem_iff_getElem?.1 hy
        exact absurd (h (j + 1) y hj hpy) (Nat.succ_ne_zero j)
      rw [List.filter_cons_of_pos hp, hrest]
    | succ i =>
      have hfirst : ¬ p a = true := fun hpa => absurd (h 0 a rfl hpa) nofun
      rw [List.filter_cons_of_neg hfirst]
      exact ih hx fun j y hy hpy => Nat.succ.inj (h (j + 1) y hy hpy)

theorem mem_ownRecords {id : String} {x : Record} :
    x ∈ r.ownRecords id ↔ ∃ i, r.feed.record? i = some x ∧ x.node = id ∧ x.parent = none := by
  rw [ownRecords, List.mem_filter, List.mem_iff_getElem?]
  simp only [decide_eq_true_eq]
  constructor
  · rintro ⟨⟨i, hi⟩, hx⟩
    exact ⟨i, hi, hx⟩
  · rintro ⟨i, hi, hx⟩
    exact ⟨⟨i, hi⟩, hx⟩

/-- The own record of a node is the one that is filed under it. -/
theorem ownRecords_eq (h : r.ledger.Sound) {id : String} {i : Nat} {x : Record}
    (hi : r.recordOf.at? id = some i) (hx : r.feed.record? i = some x) :
    r.ownRecords id = [x] := by
  obtain ⟨y, hy, hnode, hparent⟩ := h.filed id i hi
  obtain rfl : x = y := Option.some.inj (hx.symm.trans hy)
  refine filter_eq_singleton hx (by simp [hnode, hparent]) fun j y hy hp => ?_
  simp only [decide_eq_true_eq] at hp
  have hj := h.unique j y hy hp.2
  rw [hp.1] at hj
  exact Option.some.inj (hj.symm.trans hi)

/-- A node that was not reached has no record. -/
theorem ownRecords_eq_nil (h : r.ledger.Sound) {id : String} (hs : r.standing? id = none) :
    r.ownRecords id = [] := by
  refine List.eq_nil_iff_forall_not_mem.2 fun x hx => ?_
  obtain ⟨i, hi, hnode, hparent⟩ := mem_ownRecords.1 hx
  have hfiled := h.unique i x hi hparent
  rw [hnode, (h.reached id).1 hs] at hfiled
  cases hfiled

/-- A node that was reached has exactly one record. -/
theorem exists_ownRecords_eq (h : r.ledger.Sound) {id : String} {s : Standing}
    (hs : r.standing? id = some s) : ∃ x, r.ownRecords id = [x] := by
  obtain ⟨i, x, hi, hx, -, -⟩ := h.exists_record hs
  exact ⟨x, ownRecords_eq h hi hx⟩

/-- The record of a node shows where it stands. -/
theorem exists_ownRecords_shows (h : r.ledger.Sound) {id : String} (hid : id ≠ "") {s : Standing}
    (hs : r.standing? id = some s) : ∃ x, r.ownRecords id = [x] ∧ s.Shows x.status := by
  obtain ⟨i, x, hi, hx, hnode, hparent⟩ := h.exists_record hs
  obtain ⟨t, ht, hshows⟩ := h.shown i x hx hparent (hnode.symm ▸ hid)
  obtain rfl : s = t := Option.some.inj (hs.symm.trans (hnode ▸ ht))
  exact ⟨x, ownRecords_eq h hi hx, hshows⟩

theorem length_ownRecords_le_one (h : r.ledger.Sound) (id : String) :
    (r.ownRecords id).length ≤ 1 := by
  cases hs : r.standing? id with
  | none => simp [ownRecords_eq_nil h hs]
  | some s =>
    obtain ⟨x, hx⟩ := exists_ownRecords_eq h hs
    simp [hx]

/-- A record of a node says that it was skipped exactly if the node was. -/
theorem status_ownRecord_eq_skip_iff (h : r.ledger.Sound) {id : String} {x : Record}
    (hx : x ∈ r.ownRecords id) : x.status = .skip ↔ r.standing? id = some (.done .skip) := by
  obtain ⟨i, hi, hnode, hparent⟩ := mem_ownRecords.1 hx
  rw [h.skipped i x hi hparent, hnode]
  rfl

end Run
end Flowrun

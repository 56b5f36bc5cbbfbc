import Flowrun.Catalog
import Mathlib.Data.List.Induction

/-!
# What a catalog answers after a history of publications

A `Publication` succeeds if the graph of its workflow can be built. It is then found under its own
version and under `latest`, over what was found there before; one that fails changes nothing. So
the answers of a catalog are told by the publications that led to it (`answers_of_history`):

* a version of an app is what was published last under just that label, and `latest` is what was
  published last under any label;
* the versions of an app are the labels that were published, and `latest` if there are any;
* whatever fails could as well have been left out.

The history is kept by no part of the catalog, which writes every success to two places. What one
success does to all answers is told by `find?_attempt`; the rest are inductions along the history,
from its end.
-/

namespace Flowrun

/-! ### Keys of a dictionary -/

theorem Dict.mem_keys {α : Type} {d : Dict α} {k : String} : k ∈ d.keys ↔ (d.at? k).isSome := by
  induction d with
  | nil => simp [keys, at?]
  | cons e d ih =>
    rw [keys] at ih ⊢
    rw [List.map_cons, List.mem_cons, ih, at?]
    split
    · next hkey => simp [hkey]
    · next hkey => simp [Ne.symm hkey]

/-! ### Publications -/

/-- A call to publish a workflow as a version of an app. -/
structure Publication where
  app : String
  version : String
  workflow : Workflow

/-- What is published; nothing if the graph of the workflow cannot be built. -/
def Publication.published? (p : Publication) : Option PublishedApp :=
  match Graph.ofWorkflow p.workflow with
  | .ok graph => some ⟨p.app, p.version, p.workflow, graph⟩
  | .error _ => none

namespace PublishedApp

/-- Under which labels an app is found when it was published. -/
def GoesBy (x : PublishedApp) (app version : String) : Prop :=
  x.app = app ∧ (version = x.version ∨ version = latestVersion)

instance (x : PublishedApp) (app version : String) : Decidable (x.GoesBy app version) :=
  inferInstanceAs (Decidable (_ ∧ _))

def labelled (x : PublishedApp) (version : String) : PublishedApp := { x with version }

end PublishedApp

namespace Catalog

/-- Publish; a publication that fails leaves the catalog as it was. -/
def attempt (c : Catalog) (p : Publication) : Catalog :=
  match c.publish p.app p.version p.workflow with
  | .ok (_, c') => c'
  | .error _ => c

/-- The catalog after a history of publications. -/
def after (ps : List Publication) : Catalog := ps.foldl attempt {}

/-- What was published in a history, in order. -/
def successes (ps : List Publication) : List PublishedApp :=
  ps.filterMap Publication.published?

/-- What is found as a version of an app. -/
def find? (c : Catalog) (app version : String) : Option PublishedApp :=
  (c.apps.at? app).bind (·.at? version)

variable {c : Catalog} {p : Publication} {ps qs : List Publication} {x : PublishedApp}
  {app version : String}

/-! ### One publication -/

theorem publish_eq_error (h : p.published? = none) :
    ∃ e, c.publish p.app p.version p.workflow = .error e := by
  unfold Publication.published? at h
  split at h
  · cases h
  · next e hgraph => exact ⟨e, by rw [publish, hgraph]; rfl⟩

theorem publish_eq_ok (h : p.published? = some x) :
    c.publish p.app p.version p.workflow =
      .ok (x.graph, ⟨c.apps.put p.app (withVersion ((c.apps.at? p.app).getD []) x)⟩) := by
  unfold Publication.published? at h
  split at h
  · next graph hgraph =>
    cases h
    rw [publish, hgraph]
    rfl
  · cases h

theorem published?_eq_none {e : TaskError}
    (h : c.publish p.app p.version p.workflow = .error e) : p.published? = none := by
  cases hx : p.published? with
  | none => rfl
  | some x =>
    rw [publish_eq_ok hx] at h
    cases h

theorem app_of_published? (h : p.published? = some x) : x.app = p.app := by
  unfold Publication.published? at h
  split at h
  · cases h
    rfl
  · cases h

theorem attempt_of_failure (h : p.published? = none) : c.attempt p = c := by
  obtain ⟨e, he⟩ := publish_eq_error (c := c) h
  rw [attempt, he]

theorem apps_attempt (h : p.published? = some x) :
    (c.attempt p).apps = c.apps.put x.app (withVersion ((c.apps.at? x.app).getD []) x) := by
  rw [attempt, publish_eq_ok h, app_of_published? h]

/-- A version that is published is found under its label and under `latest`. -/
theorem at?_withVersion (versions : Dict PublishedApp) (x : PublishedApp) (version : String) :
    (withVersion versions x).at? version =
      if version = x.version ∨ version = latestVersion then some (x.labelled version)
      else versions.at? version := by
  unfold withVersion PublishedApp.labelled
  rw [Dict.at?_put]
  by_cases hown : x.version = version
  · subst hown
    simp
  · by_cases hlatest : version = latestVersion
    · subst hlatest
      simp [hown]
    · simp only [if_neg hown, hlatest, Ne.symm hown, or_self, if_false]
      split
      · rfl
      · rw [Dict.at?_put_of_ne _ (Ne.symm hlatest)]

theorem find?_attempt (h : p.published? = some x) (app version : String) :
    (c.attempt p).find? app version =
      if x.GoesBy app version then some (x.labelled version) else c.find? app version := by
  unfold find? PublishedApp.GoesBy
  rw [apps_attempt h, Dict.at?_put]
  by_cases happ : x.app = app
  · subst happ
    rw [if_pos rfl, Option.bind_some, at?_withVersion]
    cases c.apps.at? x.app <;> simp [Dict.at?]
  · simp [happ]

/-! ### What is found after a history -/

theorem after_concat (ps : List Publication) (p : Publication) :
    after (ps ++ [p]) = (after ps).attempt p := by
  simp [after]

theorem successes_concat (ps : List Publication) (p : Publication) :
    successes (ps ++ [p]) = successes ps ++ p.published?.toList := by
  cases h : p.published? <;> simp [successes, h]

/-- What is found after a history is the last success that goes by the label. -/
theorem find?_after (ps : List Publication) (app version : String) :
    (after ps).find? app version =
      ((successes ps).filter fun x => x.GoesBy app version).getLast?.map (·.labelled version) := by
  induction ps using List.reverseRecOn with
  | nil => rfl
  | append_singleton ps p ih =>
    rw [after_concat, successes_concat]
    cases hx : p.published? with
    | none =>
      rw [attempt_of_failure hx, ih]
      simp
    | some x =>
      rw [find?_attempt hx, ih]
      by_cases hgoes : x.GoesBy app version <;> simp [hgoes]

/-! ### Which versions there are -/

theorem mem_versions_iff : version ∈ c.versions app ↔ (c.find? app version).isSome := by
  unfold versions find?
  rw [Dict.mem_keys]
  cases c.apps.at? app <;> simp [Dict.at?]

/-- What is a version of an app after a history was published in it. -/
theorem mem_versions_after : version ∈ (after ps).versions app ↔
    ∃ x ∈ successes ps, x.GoesBy app version := by
  rw [mem_versions_iff, find?_after]
  simp [Option.isSome_iff_ne_none]

theorem ascending_withVersion {versions : Dict PublishedApp} (h : versions.Ascending)
    (x : PublishedApp) : (withVersion versions x).Ascending := by
  unfold withVersion
  split
  · exact Dict.ascending_put h _ _
  · exact Dict.ascending_put (Dict.ascending_put h _ _) _ _

/-- The versions of every app are in the order of their labels. -/
theorem ascending_after (ps : List Publication) (app : String) :
    Dict.Ascending (((after ps).apps.at? app).getD []) := by
  induction ps using List.reverseRecOn with
  | nil => exact List.Pairwise.nil
  | append_singleton ps p ih =>
    rw [after_concat]
    cases hx : p.published? with
    | none => rwa [attempt_of_failure hx]
    | some x =>
      rw [apps_attempt hx, Dict.at?_put]
      split
      · next happ =>
        subst happ
        exact ascending_withVersion ih x
      · exact ih

theorem contains_after (ps : List Publication) (app : String) :
    (after ps).contains app ↔ ∃ x ∈ successes ps, x.app = app := by
  induction ps using List.reverseRecOn with
  | nil => simp [after, successes, contains, Dict.has, Dict.at?]
  | append_singleton ps p ih =>
    rw [after_concat, successes_concat]
    cases hx : p.published? with
    | none =>
      rw [attempt_of_failure hx, ih]
      simp
    | some x =>
      unfold contains Dict.has at ih ⊢
      rw [apps_attempt hx, Dict.at?_put]
      by_cases happ : x.app = app
      · simp [happ]
      · simpa [happ] using ih

/-! ### All answers -/

/-- A publication that fails could as well have been left out. -/
theorem after_of_failure (h : p.published? = none) (ps qs : List Publication) :
    after (ps ++ p :: qs) = after (ps ++ qs) := by
  unfold after
  rw [List.foldl_append, List.foldl_cons, attempt_of_failure h, List.foldl_append]

/-- What was published last under a label of an app. -/
def mostRecent? (ps : List Publication) (app version : String) : Option PublishedApp :=
  ((successes ps).filter fun x => x.GoesBy app version).getLast?

/-- Take any history of publications. Asking for a version of an app gives the workflow and the
graph that were published last under just this label; `latest` stands for what was published last
under any label. The versions of an app are listed in order, each once: they are the labels that
were published, and `latest` if there are any. Wherever a publication fails, all answers are
from then on the same as if it had not been made. -/
theorem answers_of_history (ps : List Publication) (app : String) :
    (∀ version, (after ps).get app version = match mostRecent? ps app version with
      | some x => .ok (x.labelled version)
      | none => .error (.appNotFound app version)) ∧
    ((after ps).versions app).Pairwise (· < ·) ∧
    (∀ version, version ∈ (after ps).versions app ↔ ∃ x ∈ successes ps, x.GoesBy app version) ∧
    ((after ps).contains app ↔ ∃ x ∈ successes ps, x.app = app) ∧
    ∀ qs p e, (after ps).publish p.app p.version p.workflow = .error e →
      after (ps ++ p :: qs) = after (ps ++ qs) := by
  refine ⟨fun version => ?_, ?_, fun version => mem_versions_after, contains_after ps app, ?_⟩
  · have hfound : ((after ps).apps.at? app).bind (·.at? version) =
        (mostRecent? ps app version).map (·.labelled version) := find?_after ps app version
    rw [get, hfound]
    cases mostRecent? ps app version <;> rfl
  · exact List.pairwise_map.2 (ascending_after ps app)
  · intro qs p e herror
    exact after_of_failure (published?_eq_none herror) ps qs

end Catalog

namespace Sample

/-- A workflow whose nodes have these ids. -/
def nodesOnly (ids : List String) : Workflow where
  nodes := ids.map fun id => { id, type := "script" }

/-- Two versions of an app, one of them published as `latest`, and one that has a node twice. -/
def releases : List Publication :=
  [⟨"app", "2", nodesOnly ["fetch"]⟩, ⟨"app", "latest", nodesOnly ["fetch", "report"]⟩]

def broken : Publication := ⟨"app", "3", nodesOnly ["fetch", "fetch"]⟩

/-- The version that has a node twice leaves no trace. -/
theorem answers_of_history_broken :
    (Catalog.after releases).publish broken.app broken.version broken.workflow =
        .error (.duplicateNode "fetch") ∧
      Catalog.after (releases ++ broken :: releases) = Catalog.after (releases ++ releases) ∧
      (Catalog.after (releases ++ broken :: releases)).versions "app" = ["2", "latest"] := by
  have hfailure : (Catalog.after releases).publish broken.app broken.version broken.workflow =
      .error (.duplicateNode "fetch") := rfl
  obtain ⟨-, -, -, -, hsame⟩ := Catalog.answers_of_history releases "app"
  refine ⟨hfailure, hsame releases broken _ hfailure, ?_⟩
  rw [hsame releases broken _ hfailure]
  decide

end Sample
end Flowrun

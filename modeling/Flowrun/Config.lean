import Flowrun.Source

/-!
# Configuration of the engine
-/

namespace Flowrun

open Json

/-- The version label that always stands for what was published last. -/
def latestVersion : String := "latest"

/-- How tasks are run. -/
structure Config where
  /-- How many nodes of a task may run at a time; 0 for no limit. -/
  maxConcurrency : Nat := 0
  /-- Whether nodes may run at the same time at all. -/
  parallelEnabled : Bool := true
  /-- A node that runs longer fails. -/
  nodeTimeoutSecs : Option Nat := none
  defaultVersion : String := latestVersion
  deriving DecidableEq, Repr, Inhabited

namespace Config

/-- The limit that is applied; 0 for none. -/
def concurrency (c : Config) : Nat := if c.parallelEnabled then c.maxConcurrency else 1

def read? (v : Spot) : Option Config := do
  let fs ← Source.fields? ["max_concurrency", "parallel_enabled", "node_timeout_secs",
    "default_version"] v
  return {
    maxConcurrency := ← fs.defaulted "max_concurrency" Spot.count? 0
    parallelEnabled := ← fs.defaulted "parallel_enabled" Source.flag? true
    nodeTimeoutSecs := ← fs.optional "node_timeout_secs" Spot.count?
    defaultVersion := ← fs.defaulted "default_version" Source.text? latestVersion }

def tree (c : Config) : Tree := .object [
  ("max_concurrency", .count c.maxConcurrency), ("parallel_enabled", .bool c.parallelEnabled),
  ("node_timeout_secs", match c.nodeTimeoutSecs with | some n => .count n | none => .null),
  ("default_version", .string c.defaultVersion)]

end Config
end Flowrun

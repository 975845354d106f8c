namespace Pipelines

/-- A step is named by its position among the flattened steps, where the seed is step 0, and what is
wrong with it by its rendering. -/
inductive Error where
  /-- A pipeline without a seed. -/
  | emptySeed
  /-- A broadcast of something that is not a name. -/
  | malformedMarker (step : Nat) (found : String)
  /-- An assignment to something that is not a name. -/
  | ambiguousTarget (step : Nat) (found : String)
  /-- A directive where the seed should be. -/
  | markerAsSeed (step : Nat) (found : String)
  /-- A failure outside the passes, such as a text that is no tree. -/
  | generic (cause : String)
deriving DecidableEq

namespace Error

/-- A failure in a context. The context is outermost, and only that is shown. -/
def inContext (context _cause : String) : Error :=
  .generic context

def step? : Error → Option Nat
  | .malformedMarker step _ | .ambiguousTarget step _ | .markerAsSeed step _ => some step
  | .emptySeed | .generic _ => none

/-- The stable name of the rule that is broken. -/
def rule : Error → String
  | .emptySeed => "empty-seed"
  | .malformedMarker _ _ => "malformed-marker"
  | .ambiguousTarget _ _ => "ambiguous-assignment-target"
  | .markerAsSeed _ _ => "marker-as-seed"
  | .generic _ => "generic"

def message : Error → String
  | .emptySeed => "pipeline has no seed argument"
  | .malformedMarker step found =>
      "step " ++ toString step ++ ": broadcast marker must wrap a bare identifier, found `"
        ++ found ++ "`"
  | .ambiguousTarget step found =>
      "step " ++ toString step ++ ": assignment target must be a simple identifier, found `"
        ++ found ++ "`"
  | .markerAsSeed step found =>
      "step " ++ toString step ++ ": `" ++ found
        ++ "` cannot start a pipeline, there is no value to act on"
  | .generic cause => "Generic error: " ++ cause

end Error

end Pipelines

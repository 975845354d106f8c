import Pipelines.Config
import Pipelines.Expansion

namespace Pipelines.Config

def threadInvocation (config : Config) (args : List Expr) : Traced Threaded :=
  match threadArguments config.invocation args (.ofRoots config.stem args) with
  | .error cause => .fail cause
  | .ok (pipeline, threaded, _) => do
      Traced.report (pipeline.events config.invocation threaded)
      return threaded

def transformInvocation (config : Config) (args : List Expr) : Traced Expr := do
  let threaded ← config.threadInvocation args
  return threaded.toExpr

/-- Threads seeds through steps. They are flattened together, and the first of all is the seed. -/
def transform (config : Config) (seeds steps : List Expr) : Traced Expr :=
  match seeds with
  | [] => .fail .emptySeed
  | seeds => config.transformInvocation (seeds ++ steps)

/-- Threads a seed through steps that have been read already, with names from a given supply. Only
the steps are reported. -/
def threadSteps (config : Config) (seed : Expr) (steps : List Step) (supply : Supply) :
    Traced (Threaded × Supply) :=
  match thread config.invocation seed steps supply with
  | .error cause => .fail cause
  | .ok result => do
      Traced.report (steps.map Event.ofStep)
      return result

def expand (config : Config) (e : Expr) : Traced Expr := do
  let (expanded, _) ← e.expand config.invocation (.ofRoots config.stem [e])
  return expanded

end Pipelines.Config

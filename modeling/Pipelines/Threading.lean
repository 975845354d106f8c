import Pipelines.Expr.Flatten
import Pipelines.Expr.Hole
import Pipelines.Statement
import Pipelines.Step
import Pipelines.Supply

namespace Pipelines

/-- The name for a value: the author's, or else the next of the supply. -/
def Supply.choose (supply : Supply) : Option String → Binding × String × Supply
  | some y => (.user y, y, supply)
  | none =>
      let (x, rest) := supply.next
      (.temp x, x, rest)

/-- The statement of a step, the name of the value after it, and what is left of the supply. -/
def Step.thread (invocation : String) (step : Step) (current : String) (supply : Supply) :
    Statement × String × Supply :=
  match step.kind with
  | .plain | .assignPlain =>
      let (binding, name, supply) := supply.choose step.binding
      (⟨binding, step.expr.feed invocation (.name current)⟩, name, supply)
  | .broadcast | .assignBroadcast =>
      let (binding, name, supply) := supply.choose step.binding
      (⟨binding, .call (.marked .broadcast step.expr) [.name current]⟩, name, supply)
  | .aside => (⟨.discard, step.expr.feed invocation (.name current)⟩, current, supply)

def threadSteps (invocation : String) :
    List Step → String → Supply → List Statement × String × Supply
  | [], current, supply => ([], current, supply)
  | step :: steps, current, supply =>
      let (statement, current, supply) := step.thread invocation current supply
      let (statements, current, supply) := threadSteps invocation steps current supply
      (statement :: statements, current, supply)

/-- Names the seed. A bare name is used as it is, and any other value is bound, so that several
holes do not evaluate it twice. A directive has no value to act on yet. -/
def nameSeed (seed : Expr) (supply : Supply) :
    Except Error (List Statement × String × Supply) := do
  let step ← Step.ofExpr 0 seed
  match step.kind, step.expr with
  | .plain, .name x => return ([], x, supply)
  | .plain, value | .assignPlain, value =>
      let (binding, name, supply) := supply.choose step.binding
      return ([⟨binding, value⟩], name, supply)
  | .aside, _ | .broadcast, _ | .assignBroadcast, _ => throw (.markerAsSeed 0 seed.render)

/-- Threads a seed through steps. Without steps the seed is the result, whatever its shape. -/
def thread (invocation : String) (seed : Expr) (steps : List Step) (supply : Supply) :
    Except Error (Threaded × Supply) :=
  match steps with
  | [] => .ok (⟨[], seed⟩, supply)
  | steps => do
      let (start, current, supply) ← nameSeed seed supply
      let (statements, current, supply) := threadSteps invocation steps current supply
      return (⟨start ++ statements, .name current⟩, supply)

structure Pipeline where
  seed : Expr
  steps : List Step
deriving DecidableEq

namespace Pipeline

/-- Reads the arguments of a pipeline: the first of the flattened expressions is the seed and the
others are the steps, numbered from 1. -/
def ofArguments (args : List Expr) : Except Error Pipeline :=
  match Expr.flatten args with
  | [] => .error .emptySeed
  | seed :: rest => do
      let steps ← Step.ofExprs 1 rest
      return ⟨seed, steps⟩

def thread (invocation : String) (pipeline : Pipeline) (supply : Supply) :
    Except Error (Threaded × Supply) :=
  Pipelines.thread invocation pipeline.seed pipeline.steps supply

end Pipeline

/-- Reads arguments as a pipeline and threads it. -/
def threadArguments (invocation : String) (args : List Expr) (supply : Supply) :
    Except Error (Pipeline × Threaded × Supply) := do
  let pipeline ← Pipeline.ofArguments args
  let (threaded, supply) ← pipeline.thread invocation supply
  return (pipeline, threaded, supply)

end Pipelines

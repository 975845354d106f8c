import Pipelines.Statement
import Pipelines.Step
import Pipelines.Text.Quoted

namespace Pipelines

inductive Event where
  /-- A step is about to be threaded. -/
  | step (index : Nat) (kind : StepKind) (binding : Option String)
  /-- A pipeline has been threaded. -/
  | pipeline (invocation : String) (steps statements : Nat)
deriving DecidableEq

namespace Event

def ofStep (step : Step) : Event :=
  .step step.index step.kind step.binding

def level : Event → String
  | .step _ _ _ => "TRACE"
  | .pipeline _ _ _ => "DEBUG"

def message : Event → String
  | .step _ _ _ => "rewriting pipeline step"
  | .pipeline _ _ _ => "rewrote pipeline"

def bindingText : Option String → String
  | none => "None"
  | some y => "Some(Ident \x7b name: " ++ Text.quoted y ++ " \x7d)"

end Event

/-- A computation with its events. It may fail, and then its events are those from before. -/
structure Traced (α : Type) where
  events : List Event
  outcome : Except Error α

namespace Traced

def fail (cause : Error) : Traced α :=
  ⟨[], .error cause⟩

def report (events : List Event) : Traced Unit :=
  ⟨events, .ok ()⟩

def ofExcept (outcome : Except Error α) : Traced α :=
  ⟨[], outcome⟩

/-- Continues with the result of a computation, unless it failed. -/
def andThen (first : Traced α) (next : α → Traced β) : Traced β :=
  match first.outcome with
  | .error cause => ⟨first.events, .error cause⟩
  | .ok value => ⟨first.events ++ (next value).events, (next value).outcome⟩

instance : Monad Traced where
  pure value := ⟨[], .ok value⟩
  bind := andThen

theorem pure_eq (value : α) : (pure value : Traced α) = ⟨[], .ok value⟩ := rfl

theorem bind_eq (first : Traced α) (next : α → Traced β) :
    first >>= next = first.andThen next := rfl

instance : LawfulMonad Traced := LawfulMonad.mk' Traced
  (fun ⟨events, outcome⟩ => by
    cases outcome <;> simp [Functor.map, andThen])
  (fun value next => by simp [pure_eq, bind_eq, andThen])
  (fun ⟨events, outcome⟩ next last => by
    cases outcome with
    | error cause => rfl
    | ok value =>
        cases result : (next value).outcome <;>
          simp [bind_eq, andThen, result, List.append_assoc])

end Traced

end Pipelines

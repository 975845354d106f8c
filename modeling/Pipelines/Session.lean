import Pipelines.Exchange.Storage
import Pipelines.Transform

namespace Pipelines

structure Session where
  config : Config
  supply : Supply
  tree : Expr

inductive Command where
  | next
  | peek
  | set (tree : Expr)
  /-- Make the tree the first argument of a call. -/
  | call (callee : Expr) (args : List Expr)
  | fill (value : Expr)
  | expand
  /-- Thread the tree, as a seed, through expressions. -/
  | transform (steps : List Expr)
  /-- Thread the tree as the only argument of a pipeline. -/
  | invoke
  /-- Flatten the tree into one block. -/
  | flatten
  /-- Thread the tree through steps with names from the session. -/
  | thread (steps : List Expr)
  /-- Write the tree and load it again. -/
  | reload

inductive Answer where
  | name (name : String)
  | tree (tree : Expr)

namespace Session

def start (config : Config) (roots : List Expr) (tree : Expr) : Session :=
  ⟨config, .ofRoots config.stem roots, tree⟩

/-- The session with another tree, which is the answer. -/
def withTree (session : Session) (tree : Expr) : Answer × Session :=
  (.tree tree, { session with tree })

/-- Follows a command. One that fails leaves the session as it was. The commands that expand or
transform make a supply for themselves. -/
def follow (session : Session) : Command → Traced (Answer × Session)
  | .next => do
      let (name, supply) := session.supply.next
      return (.name name, { session with supply })
  | .peek => return (.name session.supply.next.1, session)
  | .set tree => return session.withTree tree
  | .call callee args => return session.withTree (.call callee (session.tree :: args))
  | .fill value => return session.withTree (session.tree.fill session.config.invocation value)
  | .expand => do
      let tree ← session.config.expand session.tree
      return session.withTree tree
  | .transform steps => do
      let tree ← session.config.transform [session.tree] steps
      return session.withTree tree
  | .invoke => do
      let tree ← session.config.transformInvocation [session.tree]
      return session.withTree tree
  | .flatten => return session.withTree (.block (Expr.flatten [session.tree]))
  | .thread steps => do
      let steps ← Traced.ofExcept (Step.ofExprs 1 steps)
      let (threaded, supply) ← session.config.threadSteps session.tree steps session.supply
      return { session with supply }.withTree threaded.toExpr
  | .reload => do
      let tree ← Traced.ofExcept (Exchange.load (Exchange.writeTree session.tree))
      return session.withTree tree

/-- Follows commands one after the other. Gives the events of all of them, the answer to each or
its failure, and the session at the end. -/
def followAll (session : Session) :
    List Command → List Event × List (Except Error Answer) × Session
  | [] => ([], [], session)
  | command :: commands =>
      let traced := session.follow command
      let (answer, session) : Except Error Answer × Session := match traced.outcome with
        | .ok (answer, session) => (.ok answer, session)
        | .error cause => (.error cause, session)
      let (events, answers, session) := session.followAll commands
      (traced.events ++ events, answer :: answers, session)

end Session

end Pipelines

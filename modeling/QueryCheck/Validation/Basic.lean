import QueryCheck.Validation.Rule

/-! # Validation

A document is validated by one walk that runs the handlers of all chosen rules and keeps the type
context in step. The problems come in the order they are found; a document that is nested too deep
gets one more at the end.

* `Context.runRules` walks the document of a context once.
* `validate` validates a document. -/

namespace QueryCheck.Validation

open QueryCheck.Schema
open QueryCheck.Syntax
open QueryCheck.Walk

/-- The name given as the rule of the problem that a document is nested too deep. -/
def maxDepthRule : String := "MaxDepth"

/-- The tracker that keeps the type context. -/
def contextTracker : Tracker Context := ⟨Context.enter, Context.leave⟩

/-- The handlers of some rules together. -/
def ruleTable (rules : List Rule) (c : Context) : Table Context :=
  .ofVisitors (rules.zipIdx.map fun r => r.1.visitor r.2 c)

namespace Context

/-- Walks the document of a context with the handlers of some rules. -/
def runRules (c : Context) (rules : List Rule) (maxDepth : Int) : Progress Context :=
  let c := rules.foldl (fun c r => r.prepare c) { c with metNames := [] }
  walk { table := ruleTable rules c, tracker := contextTracker, maxDepth } c.document c

end Context

/-- The problem that a document is nested too deep, at the first node that is. -/
def depthProblem (maxDepth : Int) (n : Node) : Problem :=
  ⟨"Document is too deeply nested (maximum depth " ++ toString maxDepth ++ ").", [.node n],
   maxDepthRule⟩

/-- The state after a document has been validated. -/
def validated (s : Option Schema) (doc : Node) (rules : List Rule) (maxDepth : Int) : Context :=
  let done := Context.runRules { schema := s, document := doc } rules maxDepth
  match done.tooDeep with
  | some n => done.state.report (depthProblem maxDepth n)
  | none => done.state

/-- The problems of a document, or none when it lacks parts the validation needs. -/
def validate (s : Option Schema) (doc : Node) (rules : List Rule) (maxDepth : Int) :
    Option (List Problem) :=
  let c := validated s doc rules maxDepth
  if c.broken then none else some c.problems

end QueryCheck.Validation

import GraphQL.Response.Error
import GraphQL.Validation.Tour

/-!
Rules and plans. A plan is an ordered list of rules that are run together over one tour of a
document: at each visit the rules that asked for its kind are called in order.
-/

namespace GraphQL

structure ValidationError where
  code : String
  message : String
  locations : List Position

def ValidationError.toResponse (error : ValidationError) : ResponseError :=
  ({ message := error.message, kind := .validation error.code, code := some error.code } :
    ResponseError).withLocations error.locations

structure Subject where
  registry : Registry
  document : Document

structure Finding where
  message : String
  locations : List Position

/-- A rule: a state, and how each visit changes it and what it finds there. -/
structure Rule where
  code : String
  interests : List NodeKind
  State : Type
  initial : State
  visit : Subject → State → ScopedVisit → State × List Finding

namespace Rule

def stateless (code : String) (interests : List NodeKind)
    (find : Subject → ScopedVisit → List Finding) : Rule where
  code := code
  interests := interests
  State := Unit
  initial := ()
  visit := fun subject _ visit => ((), find subject visit)

structure Running where
  rule : Rule
  state : rule.State

def start (rule : Rule) : Running := ⟨rule, rule.initial⟩

def report (rule : Rule) (finding : Finding) : ValidationError :=
  ⟨rule.code, finding.message, finding.locations⟩

def Running.step (subject : Subject) (visit : ScopedVisit) (running : Running) :
    Running × List ValidationError :=
  if running.rule.interests.contains visit.visit.kind then
    let (state, findings) := running.rule.visit subject running.state visit
    (⟨running.rule, state⟩, findings.map running.rule.report)
  else (running, [])

end Rule

def stepAll (subject : Subject) (visit : ScopedVisit) (running : List Rule.Running) :
    List Rule.Running × List ValidationError :=
  let results := running.map (Rule.Running.step subject visit)
  (results.map Prod.fst, results.flatMap Prod.snd)

def runVisits (subject : Subject) : List ScopedVisit → List Rule.Running → List ValidationError
  | [], _ => []
  | visit :: visits, running =>
      let (running, errors) := stepAll subject visit running
      errors ++ runVisits subject visits running

/-- The violations of a document, in the order of the tour and, at one visit, of the plan. -/
def Document.validate (document : Document) (registry : Registry) (plan : List Rule) :
    List ValidationError :=
  if plan.isEmpty then []
  else runVisits ⟨registry, document⟩ (document.tour registry) (plan.map Rule.start)

end GraphQL

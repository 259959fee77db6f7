import GraphQL.Schema.Directives
import GraphQL.Validation.Rules.Names

/-!
Rules about directives: they are known, they stand where they may, and they are not repeated.
-/

namespace GraphQL

namespace Rules

def knownDirectives : Rule :=
  .stateless "KNOWN_DIRECTIVES" [.directive] fun _ visit =>
    match visit.visit with
    | .directive directive location =>
        match visit.scope.directive with
        | none => [⟨s!"Unknown directive \"@{directive.name}\".", [directive.position]⟩]
        | some definition =>
            if definition.isAllowedAt location then []
            else
              [⟨s!"Directive \"@{directive.name}\" may not be used on {location.text}.",
                [directive.position]⟩]
    | _ => []

/-- Directives that may not be repeated; unknown ones may. -/
def isRepeatable (registry : Registry) (directive : Directive) : Bool :=
  ((registry.directive? directive.name).map DirectiveDefinition.repeatable).getD true

def repeatedDirectives (registry : Registry) (applied : List Directive) : List Finding :=
  ((applied.filter fun directive => !isRepeatable registry directive).foldl
    (fun (known, findings) directive =>
      let (known, found) := noteName known directive.name directive.position
        s!"The directive \"@{directive.name}\" can only be used once at this location."
      (known, findings ++ found))
    (([] : FirstPositions), ([] : List Finding))).2

def uniqueDirectivesPerLocation : Rule :=
  .stateless "UNIQUE_DIRECTIVES_PER_LOCATION" [.operation, .fragment, .field, .spread, .inline]
    fun subject visit =>
      match visit.visit with
      | .enterOperation operation => repeatedDirectives subject.registry operation.directives
      | .enterFragment fragment => repeatedDirectives subject.registry fragment.directives
      | .enterField field => repeatedDirectives subject.registry field.directives
      | .spread spread => repeatedDirectives subject.registry spread.directives
      | .enterInline fragment => repeatedDirectives subject.registry fragment.directives
      | _ => []

end Rules

end GraphQL

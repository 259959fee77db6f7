import GraphQL.Execution.Engine
import GraphQL.Settings.Basic

/-!
The options of a request by the settings of the engine.
-/

namespace GraphQL

/-- Options that follow the settings. Schema and document are still to be given. -/
def EngineSettings.options {σ : Type} (settings : EngineSettings) (token : CancellationToken)
    (application : Application σ) : ExecutionOptions σ where
  token := token
  application := application
  maxParallelism := settings.execution.maxParallelism
  timeout := settings.execution.timeout
  throwOnUnhandled := settings.execution.throwOnUnhandled
  plan := settings.validation.configure defaultPlan

end GraphQL

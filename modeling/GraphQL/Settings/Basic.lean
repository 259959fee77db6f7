import GraphQL.Settings.Duration
import GraphQL.Settings.Logging
import GraphQL.Settings.Tree

/-!
The settings of the engine, read from a tree. Every value has a default, and nothing unknown may
stand beside the known.
-/

namespace GraphQL

structure ExecutionSettings where
  maxParallelism : Nat := 32
  /-- How many nanoseconds a request may take. -/
  timeout : Option Nat := none
  throwOnUnhandled : Bool := false

structure EngineSettings where
  log : LogSettings := {}
  execution : ExecutionSettings := {}
  validation : ValidationSettings := {}

namespace EngineSettings

open Setting

private def log? (json : Json) : Option LogSettings := do
  let value ← section? ["level", "format", "filter"] json
  let level ← orDefault (value "level") .info (choice? LogLevel.ofName?)
  let format ← orDefault (value "format") .json (choice? LogFormat.ofName?)
  let filter ← orDefault (value "filter") none (optional? text?)
  return ⟨level, format, filter⟩

private def duration? (json : Json) : Option Nat := (text? json).bind Duration.ofText?

private def execution? (json : Json) : Option ExecutionSettings := do
  let value ← section? ["max_parallelism", "timeout", "throw_on_unhandled"] json
  let maxParallelism ← orDefault (value "max_parallelism") 32 count?
  let timeout ← orDefault (value "timeout") none (optional? duration?)
  let throwOnUnhandled ← orDefault (value "throw_on_unhandled") false truth?
  return ⟨maxParallelism, timeout, throwOnUnhandled⟩

private def validation? (json : Json) : Option ValidationSettings := do
  let value ← section? ["enabled", "disabled_rules"] json
  let enabled ← orDefault (value "enabled") true truth?
  let disabledRules ← orDefault (value "disabled_rules") [] texts?
  return ⟨enabled, disabledRules⟩

def ofTree? (tree : SettingsTree) : Option EngineSettings := do
  let value ← section? ["log", "execution", "validation"] (.object tree)
  let log ← orDefault (value "log") {} log?
  let execution ← orDefault (value "execution") {} execution?
  let validation ← orDefault (value "validation") {} validation?
  return ⟨log, execution, validation⟩

end EngineSettings

end GraphQL

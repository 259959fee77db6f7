import GraphQL.Text.Blank
import GraphQL.Validation.Plan

/-!
What the engine logs, and how.
-/

namespace GraphQL

inductive LogLevel where
  | trace
  | debug
  | info
  | warn
  | error
deriving DecidableEq, Repr

inductive LogFormat where
  /-- An indented tree. -/
  | prettyTree
  /-- One line for each event. -/
  | prettyCompact
  | json
deriving DecidableEq, Repr

namespace LogLevel

def all : List LogLevel := [.trace, .debug, .info, .warn, .error]

def text : LogLevel → String
  | .trace => "trace"
  | .debug => "debug"
  | .info => "info"
  | .warn => "warn"
  | .error => "error"

def ofName? (name : String) : Option LogLevel := all.find? fun level => level.text == name

end LogLevel

namespace LogFormat

def all : List LogFormat := [.prettyTree, .prettyCompact, .json]

def text : LogFormat → String
  | .prettyTree => "pretty-tree"
  | .prettyCompact => "pretty-compact"
  | .json => "json"

def ofName? (name : String) : Option LogFormat := all.find? fun format => format.text == name

end LogFormat

private def trimmed (text : String) : String := String.ofList (trimWhiteSpace text.toList)

def LogLevel.ofText? (raw : String) : Except String LogLevel :=
  match all.find? fun level => sameIgnoringCase level.text (trimmed raw) with
  | some level => .ok level
  | none => .error s!"Invalid log level: {raw}"

def LogFormat.ofText? (raw : String) : Except String LogFormat :=
  match all.find? fun format => sameIgnoringCase format.text (trimmed raw) with
  | some format => .ok format
  | none => .error s!"Invalid log format: {raw}"

structure LogSettings where
  level : LogLevel := .info
  format : LogFormat := .json
  /-- Which events are logged, in more detail than by level. -/
  filter : Option String := none

def LogSettings.activeFilter (settings : LogSettings) : String :=
  match settings.filter with
  | some filter => if isAllWhiteSpace filter.toList then settings.level.text else filter
  | none => settings.level.text

end GraphQL

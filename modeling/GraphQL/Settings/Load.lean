import GraphQL.Ini.Reader
import GraphQL.Json.Reader
import GraphQL.Json.Relaxed
import GraphQL.Ron.Reader
import GraphQL.Settings.Basic
import GraphQL.Toml.Reader
import GraphQL.Yaml.Document

/-!
Loading settings from files and from the environment. Later files win over earlier ones, and the
environment over all files.
-/

namespace GraphQL

inductive SettingsError where
  /-- A file is missing or cannot be read, or its settings are not valid. -/
  | unreadable
  /-- The text of a variable of the environment is none for its setting. -/
  | unreadableVariable (name : String)
  /-- The value of a variable is refused, possibly with a reason. -/
  | invalidVariable (name : String) (reason : Option String)
deriving DecidableEq

def SettingsError.message : SettingsError → String
  | .unreadable => "Failed to load configuration"
  | .unreadableVariable name => s!"Failed to load the environment variable {name}"
  | .invalidVariable name reason =>
      s!"Invalid value for {name}" ++ (reason.map (": " ++ ·)).getD ""

/-! ## File formats -/

inductive FileFormat where
  | toml
  | json
  | yaml
  | ini
  | ron
  | relaxedJson
deriving DecidableEq, Repr

namespace FileFormat

def extensions : List (String × FileFormat) :=
  [("toml", .toml), ("json", .json), ("yaml", .yaml), ("yml", .yaml), ("ini", .ini), ("ron", .ron),
    ("json5", .relaxedJson)]

private def read? : FileFormat → String → Option Json
  | .toml, text => Toml.ofText? text
  | .json, text => Json.ofText? text
  | .yaml, text =>
      match Yaml.ofText? text with
      | some [] => some (.object [])
      | some [document] => some document
      | _ => none
  | .ini, text => Ini.ofText? text
  | .ron, text => Ron.ofText? text
  | .relaxedJson, text => RelaxedJson.ofText? text

private def entries? (format : FileFormat) (text : String) : Option (List (String × Json)) :=
  (format.read? text).bind Json.asObject?

private def withoutMark (text : String) : String :=
  match text.toList with
  | '\uFEFF' :: rest => String.ofList rest
  | _ => text

/-- The format of a file by the extension of its name: what follows the last point, unless nothing
stands before it. -/
private def ofFileName? (name : String) : Option FileFormat :=
  let parts := ((name.splitOn "/").getLastD "").splitOn "."
  if ".".intercalate parts.dropLast = "" then none
  else Named.value? extensions (parts.getLastD "")

end FileFormat

abbrev Files := List (String × String)

namespace Files

private def hasDirectory (files : Files) (directory : List String) : Bool :=
  files.any fun file => directory.isPrefixOf ((file.1.splitOn "/").dropLast)

/-- The name that a path leads to. A step up has to leave a directory. -/
private def follow? (files : Files) :
    (passed : List String) → (steps : List String) → Option (List String)
  | passed, [] => some passed
  | passed, step :: steps =>
      if step = "" ∨ step = "." then follow? files passed steps
      else if step = ".." then
        if passed.isEmpty || !files.hasDirectory passed then none
        else follow? files passed.dropLast steps
      else follow? files (passed ++ [step]) steps

private def name? (files : Files) (path : String) : Option String :=
  let steps := path.splitOn "/"
  if steps.head? = some "" ∨ steps.getLast? = some ".." then none
  else
    match files.follow? [] steps with
    | none | some [] => none
    | some names => some ("/".intercalate names)

/-- The file at a path with its format, which its extension has to tell. Without such a file, the
first one with a known extension behind that path. A path that ends like that of a directory is not
the path of a file. -/
def find? (files : Files) (path : String) : Option (FileFormat × String) := do
  let name ← files.name? path
  let last := (path.splitOn "/").getLastD ""
  match if last = "" ∨ last = "." then none else Named.value? files name with
  | some text => (FileFormat.ofFileName? name).map (·, text)
  | none =>
      FileFormat.extensions.findSome? fun (extension, format) =>
        (Named.value? files (name ++ "." ++ extension)).map (format, ·)

end Files

/-! ## The environment -/

abbrev Environment := List (String × String)

namespace Environment

private def read? {α : Type} (environment : Environment) (name : String)
    (ofText? : String → Option α) : Except SettingsError (Option α) :=
  match Named.value? environment name with
  | none => .ok none
  | some text =>
      match ofText? text with
      | some value => .ok (some value)
      | none => .error (.unreadableVariable name)

abbrev Override := SettingsTree.Path × Json

private def override (section_ key : String) (value : Json) : Override :=
  (⟨section_, [.key key]⟩, value)

/-- The overrides of all variables. First all variables are read, then their values are checked. -/
private def overrides (environment : Environment) : Except SettingsError (List Override) := do
  let level ← environment.read? "LOG_LEVEL" fun text => (LogLevel.ofText? text).toOption
  let format ← environment.read? "LOG_FORMAT" fun text => (LogFormat.ofText? text).toOption
  let filter ← environment.read? "LOG_FILTER" some
  let maxParallelism ← environment.read? "GRAPHQL_MAX_PARALLELISM" Setting.digits?
  let timeout ← environment.read? "GRAPHQL_EXECUTION_TIMEOUT" some
  if maxParallelism = some 0 then
    throw (.invalidVariable "GRAPHQL_MAX_PARALLELISM" (some "must be greater than zero"))
  if timeout.any fun text => (Duration.ofText? text).isNone then
    throw (.invalidVariable "GRAPHQL_EXECUTION_TIMEOUT" none)
  return (level.map fun level => override "log" "level" (.string level.text)).toList ++
    (format.map fun format => override "log" "format" (.string format.text)).toList ++
    (filter.map fun filter => override "log" "filter" (.string filter)).toList ++
    (maxParallelism.map fun bound => override "execution" "max_parallelism" (.int bound)).toList ++
    (timeout.map fun text => override "execution" "timeout" (.string text)).toList

end Environment

/-! ## Loading -/

namespace EngineSettings

private def defaultFileNames : List String :=
  ["graphql-engine.config.yaml", "graphql-engine.config.yml", "graphql-engine.config.json",
    "graphql-engine.config.json5"]

def ofYaml (text : String) : Except SettingsError EngineSettings :=
  match (FileFormat.yaml.entries? text).bind fun entries =>
      ofTree? (SettingsTree.addSource [] entries) with
  | some settings => .ok settings
  | none => .error .unreadable

private def addFile? (files : Files) (required : Bool) (tree : SettingsTree) (name : String) :
    Option SettingsTree :=
  match files.find? name with
  | some (format, text) => (format.entries? (FileFormat.withoutMark text)).map tree.addSource
  | none => if required then none else some tree

private def fileTree? (files : Files) : (path : Option String) → Option SettingsTree
  | some path => addFile? files true [] path
  | none => defaultFileNames.foldlM (addFile? files false) []

/-- Load the settings. Faults in the environment are reported before those in files. -/
def load (files : Files) (environment : Environment) (path : Option String) :
    Except SettingsError EngineSettings := do
  let overrides ← environment.overrides
  let settings? : Option EngineSettings := do
    let tree ← fileTree? files path
    ofTree? (overrides.foldl (fun tree override => SettingsTree.put tree override.2 override.1)
      tree)
  match settings? with
  | some settings => return settings
  | none => throw .unreadable

end EngineSettings

end GraphQL

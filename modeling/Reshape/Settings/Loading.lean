/-
# Loading settings

Settings come from several sources, and a later source goes over an earlier one: the
standard file if it is there, the file that is asked for, the file that a variable
names, variables with a prefix, and last the plain variables.  Files are written in
YAML.
-/
import Reshape.Settings.Path
import Reshape.Text.Search
import Reshape.Text.Utf8
import Reshape.Yaml.Reader

namespace Reshape.Settings

open Text (Bytes Utf8.decode? lower nonBlank?)

/-- What settings are loaded from: variables, and files by name. -/
structure Surroundings where
  environment : List (String × String)
  files : List (String × Bytes)

/-- Why settings are not loaded: a source is missing or malformed, or the settings are
not enough. -/
inductive LoadFault
  | unreadable
  | invalid (f : Fault)
  deriving DecidableEq, Repr

/-! ## Files -/

mutual

/-- The value that a node is; numbers need digits. -/
def Value.ofYaml? : Yaml → Option Value
  | .null | .invalid => some .none
  | .bool b => some (.bool b)
  | .whole n => some (.whole n)
  | .real s => (Binary64.ofText? s.toList).map .real
  | .string s => some (.text s)
  | .sequence items => (Value.ofItems? items).map .list
  | .mapping entries => (Value.ofEntries? entries).map .table

/-- The values that the items of a sequence are. -/
def Value.ofItems? : List Yaml → Option (List Value)
  | [] => some []
  | v :: rest => do return (← Value.ofYaml? v) :: (← Value.ofItems? rest)

/-- The values of the entries of a mapping whose keys are texts or whole numbers. -/
def Value.ofEntries? : List (Yaml × Yaml) → Option (List (String × Value))
  | [] => some []
  | (k, v) :: rest =>
    match k with
    | .string name => do return (name, ← Value.ofYaml? v) :: (← Value.ofEntries? rest)
    | .whole n => do return (toString n.toInt, ← Value.ofYaml? v) :: (← Value.ofEntries? rest)
    | _ => Value.ofEntries? rest

end

/-- The entries of the table that a text holds; an empty text holds none. -/
def fileEntries? (text : String) : Option (List (String × Value)) := do
  match ← Yaml.read? text.toList with
  | none => return []
  | some node =>
    match ← Value.ofYaml? node with
    | .table entries => return entries
    | _ => none

/-- A piece of a path that leads nowhere else. -/
def isIdle (part : List Char) : Bool := part.isEmpty || part == ['.']

/-- The names of the files in the working directory that a relative path may lead to, in
order of preference: the path itself, unless it ends like a directory, and the path with
an ending added to it, unless it leads to a directory above. -/
def fileNames (path : String) : List String :=
  let parts := Text.split ['/'] path.toList
  let steps := parts.filter fun part => !isIdle part
  let name := String.ofList (Text.join ['/'] steps)
  let itself := match parts.getLast? with
    | some part => if isIdle part then [] else [name]
    | none => []
  if name.isEmpty || path.startsWith "/" || steps.getLast? == some ['.', '.'] then []
  else itself ++ [name ++ ".yaml", name ++ ".yml"]

/-- The text of the file that a path leads to; a file with anything but text has none. -/
def Surroundings.file? (s : Surroundings) (path : String) : Option String :=
  ((fileNames path).findSome? fun name => s.files.lookup name).bind Utf8.decode?

/-! ## Sources -/

/-- The value with the entries of a source set in it, whose names are paths in any
case. -/
def Value.withEntries (v : Value) (entries : List (String × Value)) : Value :=
  entries.foldl (fun v (name, new) => v.setAt (Step.pathOf (lower name)) new) v

/-- The value with the file set in it that a path leads to. -/
def withFile (s : Surroundings) (path : String) (v : Value) : Except LoadFault Value :=
  match (s.file? path).bind fileEntries? with
  | some entries => .ok (v.withEntries entries)
  | none => .error .unreadable

/-- The value with the standard file set in it, if that is there and holds a text. -/
def withStandardFile (s : Surroundings) (v : Value) : Except LoadFault Value :=
  match s.file? "config.yaml" with
  | some text =>
    match fileEntries? text with
    | some entries => .ok (v.withEntries entries)
    | none => .error .unreadable
  | none => .ok v

/-- The value of a plain variable, trimmed, unless it is blank. -/
def Surroundings.value? (s : Surroundings) (name : String) : Option String :=
  (s.environment.lookup name).bind nonBlank?

/-- What the name of a variable starts with, in any case, if it is for a setting. -/
def variablePrefix : List Char := "transform_worker__".toList

/-- What separates the names of a path in the name of a variable. -/
def variableSeparator : List Char := ['_', '_']

/-- The path that the name of a variable with the prefix gives. -/
def pathOfVariable? (name : String) : Option String :=
  let cs := (lower name).toList
  if variablePrefix.isPrefixOf cs then
    some (String.ofList
      (Text.replaceAll variableSeparator ['.'] (cs.drop variablePrefix.length)))
  else none

/-- The pieces of a text between commas. -/
def commaList (s : String) : Value :=
  .list ((Text.split [','] s.toList).map fun piece => .text (String.ofList piece))

/-- The value of a variable for the setting at a path: a text for the brokers is a list
of them. -/
def variableValue (path text : String) : Value :=
  match Value.ofVariable text with
  | .text s => if path = "kafka.brokers" then commaList s else .text s
  | v => v

/-- The entries that the variables with the prefix give. -/
def Surroundings.prefixed (s : Surroundings) : List (String × Value) :=
  s.environment.filterMap fun (name, text) =>
    (pathOfVariable? name).map fun path => (path, variableValue path text)

/-- The plain variables for settings that are texts, and the paths of these. -/
def plainVariables : List (String × String) :=
  [("KAFKA_CLIENT_ID", "kafka.client_id"), ("KAFKA_GROUP_ID", "kafka.group_id"),
   ("WORKSPACE_ID", "worker.workspace_id"), ("DLQ_TOPIC", "worker.dlq_topic"),
   ("REFRESH_INTERVAL_MS", "worker.refresh_interval_ms"), ("MONGO_URI", "mongodb.uri"),
   ("MONGO_DB", "mongodb.database")]

/-- The entries that the plain variables give. -/
def Surroundings.plain (s : Surroundings) : List (String × Value) :=
  ((s.value? "KAFKA_BROKERS").map fun text => ("kafka.brokers", commaList text)).toList
    ++ plainVariables.filterMap fun (name, path) =>
      (s.value? name).map fun text => (path, .text text)

/-! ## Loading -/

/-- The value that all sources together come to. -/
def merged (s : Surroundings) (path? : Option String) : Except LoadFault Value := do
  let v ← withStandardFile s (.table [])
  let v ← match path? with
    | some path => withFile s path v
    | none => .ok v
  let v ← match s.value? "TRANSFORM_WORKER_CONFIG" with
    | some path => withFile s path v
    | none => .ok v
  return (v.withEntries s.prefixed).withEntries s.plain

/-- The settings that all sources together come to, normalized and checked. -/
def load (s : Surroundings) (path? : Option String) : Except LoadFault Settings := do
  match (← merged s path?).settings? with
  | none => throw .unreadable
  | some settings =>
    let settings := settings.normalized
    match settings.fault? with
    | some f => throw (.invalid f)
    | none => return settings

end Reshape.Settings

/-
# Definitions

A definition says which expression turns messages of a source topic into records of a
target topic.  Definitions have versions and belong to workspaces; only active ones
are put to use.  The text of a definition gives the fields their stored names.
-/
import Reshape.Json.Fields
import Reshape.Json.Writer

namespace Reshape

/-! ## Status -/

/-- Where a definition is in its life. -/
inductive Status
  | draft
  | active
  | deprecated
  deriving DecidableEq, Repr

namespace Status

/-- The stored name of a status. -/
def name : Status → String
  | draft => "draft"
  | active => "active"
  | deprecated => "deprecated"

/-- The status of a stored name. -/
def ofName? : String → Option Status
  | "draft" => some draft
  | "active" => some active
  | "deprecated" => some deprecated
  | _ => none

/-- A name is read back as the status it was written for. -/
theorem ofName?_name (s : Status) : ofName? s.name = some s := by cases s <;> rfl

/-- The status that a text holds: its name, or an object whose only member has that
name and is null. -/
def ofText? (s : List Char) : Option Status :=
  match Json.fieldValue? s, Json.Outline.read? s with
  | some (.string n), _ => ofName? n
  | some _, some (.object [(n, v)]) =>
    match Json.fieldValue? v with
    | some .null => ofName? n
    | _ => none
  | _, _ => none

end Status

/-! ## Definitions -/

/-- A stored definition. -/
structure Definition where
  id : String
  workspace : String
  source : String
  target : String
  version : Int64
  expression : String
  status : Status
  deriving DecidableEq

namespace Definition

/-- The stored names of the fields in order. -/
def fieldNames : List String :=
  ["_id", "workspaceId", "sourceTopic", "targetTopic", "version", "expression", "status"]

/-- The definition as a document. -/
def toJson (d : Definition) : Json :=
  .object
    [("_id", .string d.id), ("workspaceId", .string d.workspace),
     ("sourceTopic", .string d.source), ("targetTopic", .string d.target),
     ("version", .number (.ofInt64 d.version)), ("expression", .string d.expression),
     ("status", .string d.status.name)]

/-- The text of the definition. -/
def text (d : Definition) : String := d.toJson.text

/-- The definition with the given field texts, in the order of `fieldNames`; without a
status it is a draft. -/
def ofFields? : List (Option (List Char)) → Option Definition
  | [id?, workspace?, source?, target?, version?, expression?, status?] => open Json in do
    return {
      id := ← stringField? id?
      workspace := ← stringField? workspace?
      source := ← stringField? source?
      target := ← stringField? target?
      version := .ofInt (← intField? Word.minInt64 Word.maxInt64 version?)
      expression := ← stringField? expression?
      status := ← match status? with
        | none => some .draft
        | some s => Status.ofText? s }
  | _ => none

/-- The definition that a text holds, as an object or as an array of the fields. -/
def ofText? (s : List Char) : Option Definition := do
  ofFields? (← (← Json.Outline.read? s).fields fieldNames)

/-! ## Order -/

/-- Higher versions come first, and of one version the smaller ids. -/
def le (a b : Definition) : Bool :=
  b.version < a.version || (a.version == b.version && a.id ≤ b.id)

/-- The definition may be used for a workspace, or for all if none is given. -/
def isActiveIn (workspace? : Option String) (d : Definition) : Bool :=
  d.status == .active && workspace?.all (d.workspace == ·)

end Definition

end Reshape

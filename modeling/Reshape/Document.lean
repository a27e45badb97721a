/-
# Stored documents

Definitions are kept as documents whose values have storage types: there are words of
two sizes, doubles, dates and identifiers beside texts, lists and documents.  Decoding
takes a definition from a document; a document that is malformed is left out, and the
others are not affected by it.
-/
import Reshape.Binary64.Arithmetic
import Reshape.Binary64.Numeral
import Reshape.Definition
import Reshape.Text.Numeral

namespace Reshape

open Text (int64?)

/-- A stored value. -/
inductive Datum
  | null
  | bool (b : Bool)
  | int32 (n : Int32)
  | int64 (n : Int64)
  | double (x : Binary64)
  | text (s : String)
  | list (items : List Datum)
  | document (entries : List (String × Datum))
  | date
  | identifier

instance : Inhabited Datum := ⟨.null⟩

/-- The entries of a document in order. -/
abbrev Document := List (String × Datum)

namespace Datum

/-! ## The text form -/

/-- A whole number in the smaller of the two word sizes that it fits; one that fits
neither is a double. -/
def ofInt (n : Int) : Datum :=
  if Word.minInt32 ≤ n ∧ n ≤ Word.maxInt32 then int32 (.ofInt n)
  else
    match Word.int64? n with
    | some w => int64 w
    | none => double (.ofInt n)

/-- The value that an object with one member stands for, if the member names a type. -/
def typed? (name : String) (v : Json) : Option Datum :=
  match name, v with
  | "$numberInt", .string s => (int64? s.toList).map fun n => int32 (.ofInt n.toInt)
  | "$numberLong", .string s => (int64? s.toList).map int64
  | "$numberDouble", .string s => (Binary64.ofText? s.toList).map double
  | "$date", _ => some date
  | "$oid", _ => some identifier
  | _, _ => none

mutual

/-- The value that a JSON document describes. -/
def ofJson : Json → Datum
  | .null => null
  | .bool b => bool b
  | .number (.whole n _) => ofInt n
  | .number (.real x) => double (.finite x)
  | .string s => text s
  | .array items => list (ofItems items)
  | .object members =>
    let entries := ofMembers members
    match members with
    | [(name, v)] => (typed? name v).getD (document entries)
    | _ => document entries

/-- The values that JSON documents describe. -/
def ofItems : List Json → List Datum
  | [] => []
  | v :: rest => ofJson v :: ofItems rest

/-- The entries that the members of an object describe. -/
def ofMembers : List (String × Json) → List (String × Datum)
  | [] => []
  | (k, v) :: rest => (k, ofJson v) :: ofMembers rest

end

/-! ## Reading values -/

/-- The text that a value is. -/
def text? : Datum → Option String
  | text s => some s
  | _ => none

/-- The word that a value is. -/
def word? : Datum → Option Int64
  | int32 n => some (.ofInt n.toInt)
  | int64 n => some n
  | _ => none

/-- Whether a value is a date. -/
def isDate : Datum → Bool
  | date => true
  | _ => false

/-- The version that a value gives: a word, or a double without places, where one beyond
the words is taken for the nearest word. -/
def version? : Datum → Option Int64
  | double (.finite x) =>
    if x.isWhole then some (.ofInt (Binary64.clampInt64 x.truncInt)) else none
  | v => v.word?

/-- The status that a value names: as a text, or as the key of a document with one
entry. -/
def status? : Datum → Option Status
  | text s => Status.ofName? s
  | document [(name, _)] => Status.ofName? name
  | _ => none

end Datum

namespace Document

/-! ## Decoding -/

/-- The value under a key. -/
def get? (d : Document) (k : String) : Option Datum := d.lookup k

/-- The text under a key that has to be there. -/
def text? (d : Document) (k : String) : Option String := (d.get? k).bind Datum.text?

/-- A value that may be missing or null, but otherwise has to pass. -/
def allows (d : Document) (k : String) (passes : Datum → Bool) : Bool :=
  match d.get? k with
  | none | some .null => true
  | some v => passes v

/-- The keys of the texts that a document may have beside the definition. -/
def optionalTexts : List String := ["name", "description", "createdBy", "updatedBy"]

/-- The keys of the words that a document may have beside the definition. -/
def optionalWords : List String := ["sourceSchemaId", "targetSchemaId"]

/-- The keys of the dates that a document may have beside the definition. -/
def optionalDates : List String := ["createdAt", "updatedAt"]

/-- Everything beside the definition has its type. -/
def restPasses (d : Document) : Bool :=
  optionalTexts.all (fun k => d.allows k fun v => v.text?.isSome)
    && optionalWords.all (fun k => d.allows k fun v => v.word?.isSome)
    && optionalDates.all (fun k => d.allows k Datum.isDate)

/-- The definition that a document holds, if the document is not malformed. -/
def definition? (d : Document) : Option Definition := do
  if !d.restPasses then none
  else
    return {
      id := ← d.text? "_id"
      workspace := ← d.text? "workspaceId"
      source := ← d.text? "sourceTopic"
      target := ← d.text? "targetTopic"
      version := ← (← d.get? "version").version?
      expression := ← d.text? "expression"
      status := ← match d.get? "status" with
        | none => some .draft
        | some v => v.status? }

/-- The definitions that documents hold, in order. -/
def definitions (ds : List Document) : List Definition := ds.filterMap definition?

/-! ## The query -/

/-- The collection of the definitions. -/
def collection : String := "jsonatatransforms"

/-- The entries that a document has to have to be asked for: it is active, and of the
workspace if one is given. -/
def activeFilter (workspace? : Option String) : List (String × String) :=
  ("status", Status.active.name) :: (workspace?.map fun w => ("workspaceId", w)).toList

end Document

end Reshape

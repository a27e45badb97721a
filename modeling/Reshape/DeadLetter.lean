/-
# Dead letters

A message that cannot be turned into a record is published to a dead-letter topic,
inside an envelope that says what went wrong and where the message came from.  An
envelope can be read back from its text without loss.
-/
import Reshape.Json.Fields
import Reshape.Json.Writer
import Reshape.Message
import Reshape.Transform

namespace Reshape.DeadLetter

open Text (isBlankText)

/-! ## Topic and headers -/

/-- The dead-letter topic for messages of `source`: the configured one unless it is
blank, else one beside the source. -/
def topic (configured? : Option String) (source : String) : String :=
  match configured? with
  | some t => if isBlankText t then source ++ ".dlq" else t
  | none => source ++ ".dlq"

/-- The header that says why a record is a dead letter. -/
def reasonHeader : String := "x-dlq-reason"

/-- The reason given for every message that failed. -/
def failedReason : String := "jsonata-transform-failed"

/-- The headers of a dead letter for a message with headers `h` and a correlation id. -/
def headers (h : Headers) (id : String) : Headers :=
  (h.setText Headers.requestId id).setText reasonHeader failedReason

/-! ## Envelopes -/

/-- What is said about a message that failed. -/
structure Envelope where
  error : String
  stack? : Option String
  sourceTopic : String
  targetTopic : String
  partition : Int32
  offset : Int64
  transformId : String
  version : UInt32
  value : String
  failedAt : String
  deriving DecidableEq

namespace Envelope

/-- The envelope for a message that failed under a transform at the time `now`. -/
def of (m : Message) (t : Transform) (error : String) (stack? : Option String)
    (now : String) : Envelope where
  error := error
  stack? := stack?
  sourceTopic := m.topic
  targetTopic := t.target
  partition := m.partition
  offset := m.offset
  transformId := t.id
  version := t.version
  value := Text.Utf8.lenient m.value
  failedAt := now

/-- The names of the fields in order. -/
def fieldNames : List String :=
  ["error", "stack", "sourceTopic", "targetTopic", "partition", "offset", "transformId",
   "version", "value", "failedAt"]

/-- The envelope as a document; an absent stack is left out. -/
def toJson (e : Envelope) : Json :=
  .object <|
    [("error", .string e.error)]
    ++ (match e.stack? with
        | some s => [("stack", .string s)]
        | none => [])
    ++ [("sourceTopic", .string e.sourceTopic), ("targetTopic", .string e.targetTopic),
        ("partition", .number (.ofInt32 e.partition)),
        ("offset", .number (.ofInt64 e.offset)),
        ("transformId", .string e.transformId),
        ("version", .number (.ofUInt32 e.version)),
        ("value", .string e.value), ("failedAt", .string e.failedAt)]

/-- The text of the envelope. -/
def text (e : Envelope) : String := e.toJson.text

/-- The envelope with the given field texts, in the order of `fieldNames`. -/
def ofFields? : List (Option (List Char)) → Option Envelope
  | [error?, stack?, source?, target?, partition?, offset?, id?, version?, value?, at?] =>
    open Json in do
    return {
      error := ← stringField? error?
      stack? := ← optionalField? string? stack?
      sourceTopic := ← stringField? source?
      targetTopic := ← stringField? target?
      partition := .ofInt (← intField? Word.minInt32 Word.maxInt32 partition?)
      offset := .ofInt (← intField? Word.minInt64 Word.maxInt64 offset?)
      transformId := ← stringField? id?
      version := .ofInt (← intField? 0 Word.maxUInt32 version?)
      value := ← stringField? value?
      failedAt := ← stringField? at? }
  | _ => none

/-- The envelope that a text holds, as an object or as an array of the fields. -/
def ofText? (s : List Char) : Option Envelope := do
  ofFields? (← (← Json.Outline.read? s).fields fieldNames)

end Envelope

end Reshape.DeadLetter

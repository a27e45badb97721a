/-
# Processing a message

The value of a message is decoded, run through the transform of its topic, and the
result is published to the target topic; a message that fails goes to its dead-letter
topic instead.  Deciding what to publish is a function of the message and the
transform; whether publishing works is known only afterwards and is part of the
outcome.
-/
import Reshape.DeadLetter
import Reshape.Json.Reader
import Reshape.Outbox
import Reshape.Text.Quoted

namespace Reshape.Processing

open Text (Bytes quoted Utf8.decode Utf8.encode)

/-! ## Failures -/

/-- Why a message has no result. -/
inductive Failure
  | notUtf8 (fault : Text.Utf8.Fault)
  | notJson (cause : Json.Cause) (place : Json.Place)
  | evaluation (e : Expression.EvalError)
  | crash (text : String)
  deriving DecidableEq

namespace Failure

/-- The failure in words. -/
def message : Failure → String
  | notUtf8 fault => "Message value is not valid UTF-8: " ++ fault.message
  | notJson cause place =>
    s!"Message value is not valid JSON: {cause.message} at line {place.line} column {place.column}"
  | evaluation e => "Evaluation error: " ++ e.message
  | crash text => "Expression evaluation panicked: " ++ text

/-- The failure with its parts named and its texts quoted. -/
def detail : Failure → String
  | notUtf8 fault => "InvalidUtf8(" ++ fault.detail ++ ")"
  | notJson cause place =>
    "InvalidJson(Error(" ++ quoted cause.message
      ++ s!", line: {place.line}, column: {place.column}))"
  | evaluation e => "Evaluation(Evaluate(" ++ quoted e.message ++ "))"
  | crash text => "Panicked(" ++ quoted text ++ ")"

/-- The failure that a fault of a program is. -/
def ofProgram : Expression.Program.Fault → Failure
  | .failed e => evaluation e
  | .crashed text => crash text

end Failure

/-! ## Values -/

/-- The document that the value of a message holds; an empty value holds null. -/
def decode (value : Bytes) : Except Failure Json :=
  if value.isEmpty then .ok .null
  else
    match Utf8.decode value with
    | .error fault => .error (.notUtf8 fault)
    | .ok s => (Json.read s).mapError fun fault => .notJson fault.cause (fault.place s)

/-- The result of a program on the value of a message. -/
def apply (p : Expression.Program) (now : String) (value : Bytes) : Except Failure Json := do
  let input ← decode value
  (p.run now input).mapError .ofProgram

/-! ## Publishing -/

/-- What is the same for all messages: the dead-letter topic that is configured, if
one is. -/
structure Processor where
  deadLetterTopic? : Option String

/-- What a message meets: the present time as expressions and as envelopes write it, and
a correlation id that no other message has. -/
structure Moment where
  now : String
  stamp : String
  freshId : String

/-- The one record to publish for a message, with the branch it comes from. -/
inductive Attempt
  | result (r : Record)
  | deadLetter (r : Record)

/-- The record of an attempt. -/
def Attempt.record : Attempt → Record
  | result r => r
  | deadLetter r => r

/-- What happened to a message. -/
inductive Outcome
  | skipped
  | transformed (published : Bool)
  | deadLettered (published : Bool)
  deriving DecidableEq, Repr

/-- The outcome of an attempt whose publishing worked or did not. -/
def Attempt.outcome (published : Bool) : Attempt → Outcome
  | result _ => .transformed published
  | deadLetter _ => .deadLettered published

/-- The attempt to publish for a message of a topic with a transform. -/
def Processor.attempt (p : Processor) (at_ : Moment) (m : Message) (t : Transform) : Attempt :=
  let id := m.correlationId at_.freshId
  match apply t.program at_.now m.value with
  | .ok v =>
    .result ⟨t.target, m.recordKey id, Utf8.encode v.text, m.headers.setText Headers.requestId id⟩
  | .error e =>
    let envelope := DeadLetter.Envelope.of m t e.message (some e.detail) at_.stamp
    .deadLetter ⟨DeadLetter.topic p.deadLetterTopic? m.topic, m.recordKey id,
      Utf8.encode envelope.text, DeadLetter.headers m.headers id⟩

/-- The attempt to publish for a message, none if its topic has no transform. -/
def Processor.attempt? (p : Processor) (at_ : Moment) (m : Message) (t? : Option Transform) :
    Option Attempt :=
  t?.map (p.attempt at_ m)

/-- The message handled against an outbox: at most one record is offered to it. -/
def Processor.process (p : Processor) (at_ : Moment) (o : Outbox) (m : Message)
    (t? : Option Transform) : Outbox × Outcome :=
  match p.attempt? at_ m t? with
  | none => (o, .skipped)
  | some a =>
    let (o, published) := o.publish a.record
    (o, a.outcome published)

end Reshape.Processing

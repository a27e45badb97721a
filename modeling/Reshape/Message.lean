/-
# Messages

A message is delivered from a topic at an offset of one of its partitions; a record is
published to a topic.  Both carry a value, headers and a key, all of them bytes.
-/
import Reshape.Keyed
import Reshape.Text.Utf8

namespace Reshape

open Text (Bytes Utf8.decode? Utf8.encode Utf8.lenient)

/-! ## Headers -/

/-- Header values by name. -/
abbrev Headers := Keyed Bytes

namespace Headers

/-- The header that carries the correlation id of a message. -/
def requestId : String := "x-request-id"

/-- The value of a header, if it is there and is UTF-8. -/
def text? (h : Headers) (name : String) : Option String :=
  (h.get? name).bind Utf8.decode?

/-- The headers with one set to a text. -/
def setText (h : Headers) (name text : String) : Headers :=
  h.insert name (Utf8.encode text)

end Headers

/-! ## Messages and records -/

/-- Where a message was delivered from. -/
structure Origin where
  topic : String
  partition : Int32
  offset : Int64
  deriving DecidableEq, Repr

/-- A delivered message. -/
structure Message where
  topic : String
  partition : Int32
  offset : Int64
  key? : Option Bytes
  value : Bytes
  headers : Headers

/-- A record to publish. -/
structure Record where
  topic : String
  key : Bytes
  value : Bytes
  headers : Headers

namespace Message

/-- Where the message was delivered from. -/
def origin (m : Message) : Origin := ⟨m.topic, m.partition, m.offset⟩

/-- The correlation id that the message carries: its header without blanks around it,
if a character is left.  Bytes that are not UTF-8 show as replacement characters. -/
def carriedId? (m : Message) : Option String :=
  (m.headers.get? Headers.requestId).bind fun bytes => Text.nonBlank? (Utf8.lenient bytes)

/-- The correlation id of the message, where `fresh` is one for a message without. -/
def correlationId (fresh : String) (m : Message) : String := m.carriedId?.getD fresh

/-- The key of the record made of the message: its own key unless empty, else its
correlation id. -/
def recordKey (m : Message) (id : String) : Bytes :=
  match m.key? with
  | some (b :: bs) => b :: bs
  | _ => Utf8.encode id

end Message

end Reshape

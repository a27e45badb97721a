/-
# Reading settings

Settings are read from values of several kinds.  What a kind has to offer is how its
values are taken apart into fields and how they are read as texts and numbers; the
sections, the names of their settings and what is unset are the same for all kinds.
-/
import Reshape.Json.Fields
import Reshape.Settings

namespace Reshape.Settings

/-- How values of a kind are read.  `fields?` gives the values of the named fields, each
of which may be missing. -/
structure Kind (V : Type) where
  isNull : V → Bool
  fields? : List String → V → Option (List (Option V))
  text? : V → Option String
  items? : V → Option (List V)
  word? : V → Option UInt64

namespace Kind

variable {V : Type}

/-- What `f` reads in a field, or the default if it is missing. -/
def fieldOr {α : Type} (default : α) (f : V → Option α) : Option V → Option α
  | none => some default
  | some v => f v

/-- The text of an optional setting; a null leaves it unset. -/
def unlessNull? (k : Kind V) (v : V) : Option (Option String) :=
  if k.isNull v then some none else (k.text? v).map some

/-- The texts of a list. -/
def texts? (k : Kind V) (v : V) : Option (List String) := do
  (← k.items? v).mapM k.text?

/-- The names of the broker settings in order. -/
def brokerNames : List String :=
  ["brokers", "client_id", "group_id", "sasl_username", "sasl_password", "sasl_mechanism",
   "security_protocol", "ssl_ca_location"]

/-- The broker settings that a value holds. -/
def broker? (k : Kind V) (v : V) : Option BrokerSettings := do
  let standard : BrokerSettings := {}
  let optional := fieldOr none k.unlessNull?
  match ← k.fields? brokerNames v with
  | [brokers, clientId, groupId, username, password, mechanism, protocol, ca] =>
    return {
      brokers := ← fieldOr standard.brokers k.texts? brokers
      clientId := ← fieldOr standard.clientId k.text? clientId
      groupId := ← fieldOr standard.groupId k.text? groupId
      saslUsername? := ← optional username
      saslPassword? := ← optional password
      saslMechanism? := ← optional mechanism
      securityProtocol? := ← optional protocol
      caLocation? := ← optional ca }
  | _ => none

/-- The store settings that a value holds. -/
def store? (k : Kind V) (v : V) : Option StoreSettings := do
  let standard : StoreSettings := {}
  match ← k.fields? ["uri", "database"] v with
  | [uri, database] =>
    return {
      uri := ← fieldOr standard.uri k.text? uri
      database := ← fieldOr standard.database k.text? database }
  | _ => none

/-- The worker settings that a value holds. -/
def worker? (k : Kind V) (v : V) : Option WorkerSettings := do
  let standard : WorkerSettings := {}
  match ← k.fields? ["workspace_id", "dlq_topic", "refresh_interval_ms"] v with
  | [workspace, deadLetterTopic, refresh] =>
    return {
      workspace? := ← fieldOr none k.unlessNull? workspace
      deadLetterTopic? := ← fieldOr none k.unlessNull? deadLetterTopic
      refreshMs := ← fieldOr standard.refreshMs k.word? refresh }
  | _ => none

/-- The settings that a value holds. -/
def settings? (k : Kind V) (v : V) : Option Settings := do
  match ← k.fields? ["kafka", "mongodb", "worker"] v with
  | [broker, store, worker] =>
    return {
      broker := ← fieldOr {} k.broker? broker
      store := ← fieldOr {} k.store? store
      worker := ← fieldOr {} k.worker? worker }
  | _ => none

end Kind

/-! ## Documents -/

/-- The fields of an object by name, or of an array by position. -/
def documentFields? (names : List String) : Json → Option (List (Option Json))
  | .object members => some (names.map fun n => Members.get? n members)
  | .array items => Json.placedFields names.length items
  | _ => none

/-- Documents as a kind: every setting has to have its own type. -/
def ofDocument : Kind Json where
  isNull v := match v with
    | .null => true
    | _ => false
  fields? := documentFields?
  text? := Json.string?
  items? v := match v with
    | .array items => some items
    | _ => none
  word? v := (Json.intBetween? 0 Word.maxUInt64 v).map fun n => .ofNat n.toNat

/-- The settings that a document holds. -/
def ofJson? (v : Json) : Option Settings := ofDocument.settings? v

end Reshape.Settings

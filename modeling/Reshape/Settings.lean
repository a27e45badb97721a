/-
# Settings

What a worker is set up with: how to reach the message brokers and the definition
store, and how to behave.  Settings are normalized, which trims them and drops blank
ones, and then checked; a worker starts only with settings that pass.
-/
import Reshape.Text.Blank

namespace Reshape

open Text (nonBlank? trimmed)

/-! ## Sections -/

/-- How to reach the message brokers. -/
structure BrokerSettings where
  brokers : List String := ["broker:9092"]
  clientId : String := "worker-jsonata"
  groupId : String := "worker-jsonata"
  saslUsername? : Option String := none
  saslPassword? : Option String := none
  saslMechanism? : Option String := none
  securityProtocol? : Option String := none
  caLocation? : Option String := none
  deriving DecidableEq, Repr

/-- How to reach the definition store. -/
structure StoreSettings where
  uri : String := "mongodb://mongodb:27017"
  database : String := "control-api"
  deriving DecidableEq, Repr

/-- How a worker behaves; the refresh interval is in milliseconds. -/
structure WorkerSettings where
  workspace? : Option String := none
  deadLetterTopic? : Option String := none
  refreshMs : UInt64 := 60000
  deriving DecidableEq, Repr

/-- All settings of a worker. -/
structure Settings where
  broker : BrokerSettings := {}
  store : StoreSettings := {}
  worker : WorkerSettings := {}
  deriving DecidableEq, Repr

/-! ## Normalizing -/

/-- The text without the slashes at its end. -/
def withoutSlashes (s : String) : String :=
  String.ofList (s.toList.reverse.dropWhile (· == '/')).reverse

/-- The trimmed text of an optional setting, unset if that is blank. -/
def unblanked (s? : Option String) : Option String := s?.bind nonBlank?

/-- The section with its texts trimmed and without blank brokers. -/
def BrokerSettings.normalized (s : BrokerSettings) : BrokerSettings where
  brokers := s.brokers.filterMap nonBlank?
  clientId := trimmed s.clientId
  groupId := trimmed s.groupId
  saslUsername? := unblanked s.saslUsername?
  saslPassword? := unblanked s.saslPassword?
  saslMechanism? := unblanked s.saslMechanism?
  securityProtocol? := unblanked s.securityProtocol?
  caLocation? := unblanked s.caLocation?

/-- The section with its texts trimmed, and the address without slashes at its end. -/
def StoreSettings.normalized (s : StoreSettings) : StoreSettings where
  uri := withoutSlashes (trimmed s.uri)
  database := trimmed s.database

/-- The section with its optional texts trimmed or unset. -/
def WorkerSettings.normalized (s : WorkerSettings) : WorkerSettings where
  workspace? := unblanked s.workspace?
  deadLetterTopic? := unblanked s.deadLetterTopic?
  refreshMs := s.refreshMs

/-- The settings with all sections normalized. -/
def Settings.normalized (s : Settings) : Settings :=
  ⟨s.broker.normalized, s.store.normalized, s.worker.normalized⟩

/-! ## Checking -/

/-- Why a worker cannot start with some settings. -/
inductive Settings.Fault
  | missing (name : String)
  | zeroInterval
  deriving DecidableEq, Repr

/-- The fault in words. -/
def Settings.Fault.message : Settings.Fault → String
  | missing name => s!"Invalid configuration: {name} is required"
  | zeroInterval =>
    "Invalid configuration: worker.refresh_interval_ms must be greater than zero"

/-- The first fault of the settings. -/
def Settings.fault? (s : Settings) : Option Settings.Fault :=
  if s.broker.brokers.isEmpty then some (.missing "kafka.brokers")
  else if s.broker.clientId.isEmpty then some (.missing "kafka.client_id")
  else if s.broker.groupId.isEmpty then some (.missing "kafka.group_id")
  else if s.store.uri.isEmpty then some (.missing "mongodb.uri")
  else if s.store.database.isEmpty then some (.missing "mongodb.database")
  else if s.worker.refreshMs = 0 then some .zeroInterval
  else none

/-! ## Connections -/

/-- What a connection to the message brokers is opened with. -/
structure Connection where
  servers : String
  clientId : String
  groupId : String
  saslUsername? : Option String
  saslPassword? : Option String
  saslMechanism? : Option String
  securityProtocol? : Option String
  caLocation? : Option String
  deriving DecidableEq, Repr

/-- The connection that the settings describe.  Credentials count only together; with
them the mechanism and the protocol have defaults. -/
def BrokerSettings.connection (s : BrokerSettings) : Connection :=
  let plain : Connection :=
    { servers := ",".intercalate s.brokers
      clientId := s.clientId
      groupId := s.groupId
      saslUsername? := none
      saslPassword? := none
      saslMechanism? := none
      securityProtocol? := s.securityProtocol?
      caLocation? := s.caLocation? }
  match s.saslUsername?, s.saslPassword? with
  | some username, some password =>
    { plain with
      saslUsername? := some username
      saslPassword? := some password
      saslMechanism? := some (s.saslMechanism?.getD "PLAIN")
      securityProtocol? := some (s.securityProtocol?.getD "SASL_SSL") }
  | _, _ => plain

/-- The refresh interval in whole seconds. -/
def WorkerSettings.refreshSeconds (s : WorkerSettings) : UInt64 := s.refreshMs / 1000

end Reshape

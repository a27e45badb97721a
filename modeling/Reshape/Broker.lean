/-
# The broker

Where messages come from.  The broker holds messages until their topic is subscribed,
hands them out one at a time in the order they arrived, and notes which of them were
committed.  It may be told to refuse subscriptions and to refuse being closed.
-/
import Reshape.Message

namespace Reshape

/-! ## Faults -/

/-- Why something asked of a broker or an outbox was not done. -/
inductive TransportFault
  | connection (reason : String)
  | subscribe (reason : String)
  | receive (reason : String)
  | closed
  deriving DecidableEq, Repr

/-- The fault in words. -/
def TransportFault.message : TransportFault → String
  | connection reason => "Connection failed: " ++ reason
  | subscribe reason => "Subscribe failed: " ++ reason
  | receive reason => "Receive failed: " ++ reason
  | closed => "Transport closed"

/-! ## The broker -/

/-- A broker as one consumer sees it. -/
structure Broker where
  pending : List Message := []
  subscription : List String := []
  subscriptions : List (List String) := []
  committed : List Origin := []
  polled : Bool := false
  refusingSubscribe : Bool := false
  refusingClose : Bool := false
  closed : Bool := false

namespace Broker

/-- The broker with more messages, behind those it has. -/
def push (b : Broker) (ms : List Message) : Broker := { b with pending := b.pending ++ ms }

/-- The subscription replaced by the given topics, unless that is refused. -/
def subscribe (b : Broker) (topics : List String) : Broker × Except TransportFault Unit :=
  if b.refusingSubscribe then (b, .error (.subscribe "Mock subscribe failure"))
  else
    ({ b with subscription := topics, subscriptions := b.subscriptions ++ [topics] }, .ok ())

/-- The first message that a condition holds of, and the others in order. -/
def takeFirst? (p : Message → Bool) : List Message → Option (Message × List Message)
  | [] => none
  | m :: rest =>
    if p m then some (m, rest)
    else (takeFirst? p rest).map fun (found, others) => (found, m :: others)

/-- The next message of a subscribed topic, and the messages that stay. -/
def next? (b : Broker) : Option (Message × List Message) :=
  takeFirst? (fun m => b.subscription.contains m.topic) b.pending

/-- What a receive comes to: a message, a fault, or nothing for now. -/
def receive (b : Broker) : Broker × Option (Except TransportFault Message) :=
  let b := { b with polled := true }
  if b.closed then (b, some (.error .closed))
  else
    match b.next? with
    | some (m, rest) => ({ b with pending := rest }, some (.ok m))
    | none => (b, none)

/-- The broker with a message noted as done. -/
def commit (b : Broker) (o : Origin) : Broker := { b with committed := b.committed ++ [o] }

/-- The broker closed, unless that is refused. -/
def close (b : Broker) : Broker × Except TransportFault Unit :=
  if b.refusingClose then (b, .error (.connection "Mock close failure"))
  else ({ b with closed := true }, .ok ())

/-! ## Laws -/

/-- Taking the first match removes one message and keeps the others. -/
theorem perm_of_takeFirst? {p : Message → Bool} {ms rest : List Message} {m : Message}
    (h : takeFirst? p ms = some (m, rest)) : ms.Perm (m :: rest) := by
  induction ms generalizing rest with
  | nil => simp [takeFirst?] at h
  | cons a ms ih =>
    by_cases hp : p a
    · simp only [takeFirst?, hp, if_true, Option.some.injEq, Prod.mk.injEq] at h
      obtain ⟨rfl, rfl⟩ := h
      exact .refl _
    · simp only [takeFirst?, hp, Bool.false_eq_true, if_false, Option.map_eq_some_iff,
        Prod.mk.injEq, Prod.exists] at h
      obtain ⟨found, others, hf, rfl, rfl⟩ := h
      exact ((ih hf).cons a).trans (.swap _ _ _)

end Broker

end Reshape

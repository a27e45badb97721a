/-
# Consumption tasks

A consumption task takes messages one at a time: it receives one, publishes the record
made of it, commits the message, and receives the next.  A task always waits for one
thing, which follows from its phase, and goes on when it is told how that ended.

Being told to stop ends a task that waits for a message or a pause at once; a task with
a message in hand commits it first.  Only a closed broker ends a task otherwise: after
other faults it pauses and goes on.
-/
import Reshape.Broker
import Reshape.Processing

namespace Reshape.Consumption

open Processing (Attempt Moment Processor)

/-! ## Tasks -/

/-- How long a task pauses after a fault of a receive, in milliseconds. -/
def pauseMs : Nat := 500

/-- What a task waits for. -/
inductive Phase
  | idle
  | receiving
  | publishing (m : Message) (a : Attempt)
  | committing (m : Message)
  | pausing
  | ended

/-- A consumption task; `stopping` tells it to end after the message in hand. -/
structure Task where
  phase : Phase
  stopping : Bool := false

namespace Task

/-- A new task; one that has no topics waits only to be stopped. -/
def start (topics : Nat) : Task := ⟨if topics = 0 then .idle else .receiving, false⟩

/-- The task has ended. -/
def hasEnded (t : Task) : Bool :=
  match t.phase with
  | .ended => true
  | _ => false

/-- The task waits for a message. -/
def isReceiving (t : Task) : Bool :=
  match t.phase with
  | .receiving => true
  | _ => false

/-! ## Steps -/

/-- How the publishing of a record ended. -/
inductive Delivery
  | accepted
  | refused
  | crashed
  deriving DecidableEq, Repr

/-- What a task is told. -/
inductive Input
  | received (m : Message) (t? : Option Transform)
  | receiveFailed (f : TransportFault)
  | published (d : Delivery)
  | committed (accepted : Bool)
  | pauseOver
  | stop

/-- The phase after a received message: its record is published if its topic has a
transform, and it is committed otherwise. -/
def taken (p : Processor) (at_ : Moment) (m : Message) (t? : Option Transform) : Phase :=
  match p.attempt? at_ m t? with
  | some a => .publishing m a
  | none => .committing m

/-- The task told to stop. -/
def stop (t : Task) : Task :=
  match t.phase with
  | .publishing .. | .committing _ => { t with stopping := true }
  | _ => ⟨.ended, true⟩

/-- The task after it was told something; what it does not wait for changes nothing. -/
def step (p : Processor) (at_ : Moment) (t : Task) (input : Input) : Task :=
  match t.phase, input with
  | _, .stop => t.stop
  | .receiving, .received m t? => { t with phase := taken p at_ m t? }
  | .receiving, .receiveFailed .closed => { t with phase := .ended }
  | .receiving, .receiveFailed _ => { t with phase := .pausing }
  | .publishing m _, .published _ => { t with phase := .committing m }
  | .committing _, .committed _ => { t with phase := if t.stopping then .ended else .receiving }
  | .pausing, .pauseOver => { t with phase := .receiving }
  | _, _ => t

/-- The task after it was told several things in order. -/
def run (p : Processor) (at_ : Moment) (t : Task) (inputs : List Input) : Task :=
  inputs.foldl (step p at_) t

/-! ## Requests -/

/-- What a task asks for. -/
inductive Request
  | receive
  | publish (r : Record)
  | commit (o : Origin)
  | pause
  | nothing

/-- What the task asks for in its phase. -/
def request (t : Task) : Request :=
  match t.phase with
  | .receiving => .receive
  | .publishing _ a => .publish a.record
  | .committing m => .commit m.origin
  | .pausing => .pause
  | .idle | .ended => .nothing

end Task

end Reshape.Consumption

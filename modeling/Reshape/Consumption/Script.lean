/-
# Scripted runs

A consumption task run against a script: what each receive brings, and how publishing
and committing end.  Time is counted in milliseconds and passes only where the task
waits.  At a given time the task is told to stop, after all that is due then; the run
ends when the task has.
-/
import Reshape.Consumption
import Reshape.Snapshot

namespace Reshape.Consumption.Script

open Processing (Moment Processor)

/-! ## Scripts -/

/-- What a receive brings.  A wait is followed by the entry after it, and is lost if the
task is stopped meanwhile. -/
inductive Entry
  | message (m : Message)
  | fault (f : TransportFault)
  | wait (ms : Nat)

/-- How the publishing of a record goes. -/
inductive Publishing
  | accepted
  | refused
  | crashing
  | slow
  deriving DecidableEq, Repr

namespace Publishing

/-- How long a slow publishing takes, in milliseconds. -/
def slowMs : Nat := 1000

/-- How long the publishing takes. -/
def duration : Publishing → Nat
  | slow => slowMs
  | _ => 0

/-- How the publishing ends. -/
def delivery : Publishing → Task.Delivery
  | accepted | slow => .accepted
  | refused => .refused
  | crashing => .crashed

end Publishing

/-! ## Traces -/

/-- What is seen of a run. -/
inductive Event
  | received (o : Origin)
  | receiveFailed (f : TransportFault)
  | published (r : Record)
  | committed (o : Origin)
  | stopSignalled (endedBefore : Bool)
  | stopped (entriesLeft : Nat)

/-- A run: the time, the task, how the publishings and commits to come will end, and
what was seen at which time. -/
structure Run where
  task : Task
  publishings : List Publishing
  commits : List Bool
  stopAt : Nat
  now : Nat := 0
  signalled : Bool := false
  trace : List (Nat × Event) := []

/-- What does not change during a run. -/
structure Setup where
  processor : Processor
  moment : Moment
  snapshot : Snapshot

namespace Run

/-- The run with something seen at its present time. -/
def note (r : Run) (e : Event) : Run := { r with trace := r.trace ++ [(r.now, e)] }

/-- The run with its task told something. -/
def tell (c : Setup) (r : Run) (input : Task.Input) : Run :=
  { r with task := r.task.step c.processor c.moment input }

/-- The run at the time when the task is told to stop. -/
def signal (c : Setup) (r : Run) : Run :=
  let r := { r with now := r.stopAt }
  let r := r.note (.stopSignalled r.task.hasEnded)
  { r.tell c .stop with signalled := true }

/-- The run after its task waited.  If the time to stop comes first, the task is told;
one that ends by that waits no longer. -/
def wait (c : Setup) (r : Run) (ms : Nat) : Run :=
  let till := r.now + ms
  if r.signalled || till ≤ r.stopAt then { r with now := till }
  else
    let r := r.signal c
    if r.task.hasEnded then r else { r with now := till }

/-- The run after the task published a record, if it wants to. -/
def publish (c : Setup) (r : Run) : Run :=
  match r.task.request with
  | .publish record =>
    let p := r.publishings.headD .accepted
    let r := { r with publishings := r.publishings.tail }
    ((r.note (.published record)).wait c p.duration).tell c (.published p.delivery)
  | _ => r

/-- The run after the task committed a message, if it wants to. -/
def commit (c : Setup) (r : Run) : Run :=
  match r.task.request with
  | .commit o =>
    let accepted := r.commits.headD true
    let r := { r with commits := r.commits.tail }
    (r.note (.committed o)).tell c (.committed accepted)
  | _ => r

/-- The run after the task paused, if it wants to. -/
def pause (c : Setup) (r : Run) : Run :=
  match r.task.request with
  | .pause => (r.wait c pauseMs).tell c .pauseOver
  | _ => r

/-- The run after an entry of the script was taken. -/
def take (c : Setup) (r : Run) : Entry → Run
  | .wait ms => r.wait c ms
  | .fault f => ((r.note (.receiveFailed f)).tell c (.receiveFailed f)).pause c
  | .message m =>
    (((r.note (.received m.origin)).tell c
      (.received m (c.snapshot.get? m.topic))).publish c).commit c

/-- The run when its task has ended, with so many entries left in the script. -/
def finish (c : Setup) (r : Run) (entriesLeft : Nat) : Run :=
  let r := if r.signalled then r else r.signal c
  r.note (.stopped entriesLeft)

/-- The run along a script, which is left where the task stops receiving. -/
def along (c : Setup) (r : Run) : List Entry → Run
  | [] => r.finish c 0
  | e :: rest =>
    if r.task.isReceiving then along c (r.take c e) rest
    else r.finish c (rest.length + 1)

end Run

/-- What is seen of a task that starts with so many topics. -/
def trace (c : Setup) (topics : Nat) (script : List Entry) (publishings : List Publishing)
    (commits : List Bool) (stopAt : Nat) : List (Nat × Event) :=
  (Run.along c ⟨.start topics, publishings, commits, stopAt, 0, false, []⟩ script).trace

end Reshape.Consumption.Script

/-
# The pace of a run

A scripted run goes from receive to receive until its task ends.  Between two receives the
task waits only while a record is published and while it pauses: after a receive that
failed, the next is under way no earlier than the pause allows (`Paced`).  However the
publishings and the commits end, the task goes on receiving until it is told to stop, or
until a receive finds the broker closed.

An entry of the script leads from a run that receives to one that receives again, or that
has ended for one of the two causes (`Leads`, `leads_take`); the rest is an induction
along the script.
-/
import Mathlib.Tactic
import Reshape.Consumption.Script
import Reshape.Proofs.Endings

namespace Reshape.Consumption.Script

open Processing (Moment Processor)

/-! ## What is seen of a run -/

/-- The receives that failed, with their times. -/
def faults (trace : List (Nat × Event)) : List (Nat × TransportFault) :=
  trace.filterMap fun
    | (t, .receiveFailed f) => some (t, f)
    | _ => none

/-- The times at which the task was told to stop, and whether it had ended before. -/
def signals (trace : List (Nat × Event)) : List (Nat × Bool) :=
  trace.filterMap fun
    | (t, .stopSignalled ended) => some (t, ended)
    | _ => none

/-- The receives that are under way along a script, each with its time and the entry that
it comes to; a script that is used up brings nothing. -/
def Run.receives (c : Setup) (r : Run) : List Entry → List (Nat × Option Entry)
  | [] => if r.task.isReceiving then [(r.now, none)] else []
  | e :: rest =>
    if r.task.isReceiving then (r.now, some e) :: receives c (r.take c e) rest else []

/-- The receives among them that fail. -/
def failing (receives : List (Nat × Option Entry)) : List (Nat × TransportFault) :=
  receives.filterMap fun
    | (t, some (.fault f)) => some (t, f)
    | _ => none

namespace Run

/-- The run receives, and its task was not told to stop. -/
structure Open (r : Run) : Prop where
  task : r.task = ⟨.receiving, false⟩
  signalled : r.signalled = false
  inTime : r.now ≤ r.stopAt
  signals : signals r.trace = []

/-- The task ended because a receive found the broker closed. -/
structure Closed (r : Run) : Prop where
  ended : r.task.hasEnded = true
  signalled : r.signalled = false
  inTime : r.now ≤ r.stopAt
  signals : signals r.trace = []

/-- The task ended because it was told to stop. -/
structure Halted (r : Run) : Prop where
  ended : r.task.hasEnded = true
  signalled : r.signalled = true
  signals : signals r.trace = [(r.stopAt, false)]

/-- What an entry leads to from a run that receives. -/
structure Leads (r : Run) (e : Entry) (r' : Run) : Prop where
  stopAt : r'.stopAt = r.stopAt
  now : r.now ≤ r'.now
  faults : faults r'.trace = faults r.trace ++ failing [(r.now, some e)]
  closed : e = .fault .closed → r'.Closed
  goesOn : e ≠ .fault .closed → r'.Open ∨ r'.Halted
  paused : ∀ f, e = .fault f → r'.Open → r.now + pauseMs ≤ r'.now

variable {c : Setup} {r : Run}

/-- The run with a message in hand. -/
def received (c : Setup) (r : Run) (m : Message) : Run :=
  (r.note (.received m.origin)).tell c (.received m (c.snapshot.get? m.topic))

/-- What is seen of a whole run: the failed receives, the signal to stop, and that the task
ended. -/
structure Ends (r : Run) (failed : List (Nat × TransportFault)) (closed : Bool) (r' : Run) :
    Prop where
  faults : Script.faults r'.trace = Script.faults r.trace ++ failed
  signals : Script.signals r'.trace = [(r.stopAt, closed)]
  ended : r'.task.hasEnded = true

/-- What is seen behind an entry goes on with what the entry leads to. -/
theorem Ends.behind {e : Entry} {r' r'' : Run} {failed : List (Nat × TransportFault)}
    {closed : Bool} (hl : Leads r e r') (h : Ends r' failed closed r'') :
    Ends r (failing [(r.now, some e)] ++ failed) closed r'' where
  faults := by rw [h.faults, hl.faults, List.append_assoc]
  signals := by rw [h.signals, hl.stopAt]
  ended := h.ended

end Run

/-! ## Whole runs -/

/-- The run before anything is received. -/
def Run.new (topics : Nat) (publishings : List Publishing) (commits : List Bool) (stopAt : Nat) :
    Run := ⟨.start topics, publishings, commits, stopAt, 0, false, []⟩

end Reshape.Consumption.Script

/-
# Workers

A worker has a site, a clock, and a timer that refreshes the subscription.  It carries
out commands one after the other, and everything that can happen without time passing
has happened before the next.  After it was shut down it only looks on.
-/
import Reshape.Subscription

namespace Reshape.Worker

open Subscription (Operation Report Setup Site)

/-! ## The refresh timer -/

/-- A timer that is due at a time and then again after each interval. -/
structure Timer where
  due : Nat
  interval : Nat

namespace Timer

/-- How late a tick may be, in milliseconds, and still count as on time. -/
def toleranceMs : Nat := 5

/-- The timer started at a time; without an interval there is none. -/
def start? (now interval : Nat) : Option Timer :=
  if interval = 0 then none else some ⟨now + interval, interval⟩

/-- The timer after a tick: the next is due an interval after this one was, or after
now if this one was late. -/
def next (t : Timer) (now : Nat) : Timer :=
  { t with due := (if now > t.due + toleranceMs then now else t.due) + t.interval }

end Timer

/-! ## Workers -/

/-- A worker; `interval` is the time between refreshes in milliseconds. -/
structure State where
  site : Site
  interval : Nat
  clock : Nat := 0
  timer? : Option Timer := none
  running : Bool := true

/-- What may be told to fail. -/
inductive Part
  | query
  | subscribe
  | publish
  | close
  deriving DecidableEq, Repr

/-- What a worker and its surroundings are told. -/
inductive Command
  | start
  | refresh
  | push (ms : List Message)
  | insert (d : Definition)
  | replace (ds : List Definition)
  | setFailing (part : Part) (on : Bool)
  | advance (ms : Nat)
  | closeBroker
  | shutdown

/-- What a command comes to. -/
inductive Answer
  | done
  | reported (r : Report)
  | failed (f : Subscription.Fault)
  | refused (f : TransportFault)
  | gone

namespace State

/-- The worker with its site changed, once all tasks have to wait. -/
def onSite (c : Setup) (w : State) (f : Site → Site) : State :=
  { w with site := (f w.site).settle c }

/-- The worker after a start: only a start that succeeds starts the timer anew. -/
def start (c : Setup) (w : State) : State × Answer :=
  match Operation.perform c .start w.site with
  | (site, some (.ok _)) =>
    ({ w with site := site, timer? := Timer.start? w.clock w.interval }, .done)
  | (site, some (.error f)) => ({ w with site := site }, .failed f)
  | (site, none) => ({ w with site := site }, .gone)

/-- The worker after a refresh. -/
def refresh (c : Setup) (w : State) : State × Answer :=
  match Operation.perform c .refresh w.site with
  | (site, some (.ok r)) => ({ w with site := site }, .reported r)
  | (site, some (.error f)) => ({ w with site := site }, .failed f)
  | (site, none) => ({ w with site := site }, .gone)

/-- The worker after the ticks of its timer that are due, at most `n`. -/
def ticks (c : Setup) : (n : Nat) → State → State
  | 0, w => w
  | n + 1, w =>
    match w.timer? with
    | none => w
    | some t =>
      if t.due ≤ w.clock then ticks c n { (w.refresh c).1 with timer? := some (t.next w.clock) }
      else w

/-- The worker after its clock jumped.  A late tick is followed by a whole interval, so
only ticks on time can follow each other, and not more than the tolerance has room for. -/
def advance (c : Setup) (w : State) (ms : Nat) : State :=
  ticks c (Timer.toleranceMs + 1) { w with clock := w.clock + ms }

/-- The worker after it was shut down: timer and task end, then broker, outbox and store
are closed, each of them even if another refuses. -/
def shutdown (c : Setup) (w : State) : State :=
  let s := (w.site.stopTask).settle c
  let s := { s with
    task? := none
    broker := s.broker.close.1
    outbox := s.outbox.close
    store := { s.store with closed := true } }
  { w with site := s, timer? := none, running := false }

/-- The site with a part told to fail, or to work again. -/
def setFailing (part : Part) (on : Bool) (s : Site) : Site :=
  match part with
  | .query => { s with store := { s.store with failing := on } }
  | .subscribe => { s with broker := { s.broker with refusingSubscribe := on } }
  | .publish => { s with outbox := { s.outbox with failing := on } }
  | .close => { s with broker := { s.broker with refusingClose := on } }

/-- The worker after a command, and what the command came to. -/
def step (c : Setup) (w : State) : Command → State × Answer
  | .start => if w.running then w.start c else (w, .gone)
  | .refresh => if w.running then w.refresh c else (w, .gone)
  | .push ms => (w.onSite c fun s => { s with broker := s.broker.push ms }, .done)
  | .insert d =>
    (w.onSite c fun s =>
      { s with store := { s.store with definitions := s.store.definitions ++ [d] } }, .done)
  | .replace ds =>
    (w.onSite c fun s => { s with store := { s.store with definitions := ds } }, .done)
  | .setFailing part on => (w.onSite c (setFailing part on), .done)
  | .advance ms => (w.advance c ms, .done)
  | .closeBroker =>
    match w.site.broker.close with
    | (broker, .ok ()) => (w.onSite c fun s => { s with broker := broker }, .done)
    | (broker, .error f) => (w.onSite c fun s => { s with broker := broker }, .refused f)
  | .shutdown => if w.running then (w.shutdown c, .done) else (w, .gone)

end State

end Reshape.Worker

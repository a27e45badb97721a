/-
# Delivery

A task together with a broker and an outbox that answer at once.  The task handles
messages until it has to wait: for a message of a subscribed topic, or for nothing more
because it ended.
-/
import Reshape.Consumption
import Reshape.Snapshot

namespace Reshape.Consumption

open Processing (Moment Processor)

/-- A task and what it works with. -/
structure Line where
  broker : Broker
  outbox : Outbox
  task : Task

namespace Line

/-- The line after the record that the task wants to publish was offered. -/
def publish (p : Processor) (at_ : Moment) (l : Line) : Line :=
  match l.task.request with
  | .publish r =>
    let (outbox, accepted) := l.outbox.publish r
    let delivery := if accepted then Task.Delivery.accepted else .refused
    { l with outbox := outbox, task := l.task.step p at_ (.published delivery) }
  | _ => l

/-- The line after the message in hand was committed. -/
def commit (p : Processor) (at_ : Moment) (l : Line) : Line :=
  match l.task.request with
  | .commit o =>
    { l with broker := l.broker.commit o, task := l.task.step p at_ (.committed true) }
  | _ => l

/-- The line after the task finished the message in hand. -/
def finish (p : Processor) (at_ : Moment) (l : Line) : Line := (l.publish p at_).commit p at_

/-- The line after a receive: a message is handled at once; nothing happens while there
is none. -/
def receive (p : Processor) (at_ : Moment) (s : Snapshot) (l : Line) : Line :=
  match l.task.request with
  | .receive =>
    match l.broker.receive with
    | (broker, none) => { l with broker := broker }
    | (broker, some (.error f)) =>
      { l with broker := broker, task := l.task.step p at_ (.receiveFailed f) }
    | (broker, some (.ok m)) =>
      Line.finish p at_
        { l with broker := broker,
                 task := l.task.step p at_ (.received m (s.get? m.topic)) }
  | _ => l

/-- The line after `n` receives. -/
def receives (p : Processor) (at_ : Moment) (s : Snapshot) : (n : Nat) → Line → Line
  | 0, l => l
  | n + 1, l => receives p at_ s n (l.receive p at_ s)

/-- The line when the task has to wait: the message in hand is finished, and at most the
pending messages are received, and one receive more finds that there is none left. -/
def settle (p : Processor) (at_ : Moment) (s : Snapshot) (l : Line) : Line :=
  let l := l.finish p at_
  l.receives p at_ s (l.broker.pending.length + 1)

end Line

end Reshape.Consumption

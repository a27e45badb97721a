/-
# The subscription

The broker's subscription is kept in step with the transforms in force.  Starting loads
a snapshot, subscribes to its topics and begins to consume.  Refreshing loads another
snapshot; if it has new source topics, consumption is stopped first, the broker is
subscribed to the old and the new topics together, and only then is the snapshot
installed.  So every topic that can be resolved is a topic that is subscribed.

A start or a refresh is an operation that goes on step by step.  Where it fails, the
snapshot and the subscription are left as they were.
-/
import Reshape.Consumption.Delivery

namespace Reshape.Subscription

open Consumption (Line Task)
open Processing (Moment Processor)

/-! ## Sites -/

/-- What does not change while a worker runs. -/
structure Setup where
  engine : Expression.Engine
  workspace? : Option String
  processor : Processor
  moment : Moment

/-- The state that operations and tasks share.  `topics` are those of the snapshot in
force and `subscribed` those the broker was last subscribed to.  Tasks that were
replaced while they had a message in hand are `leaving`. -/
structure Site where
  store : Store
  broker : Broker := {}
  outbox : Outbox := {}
  snapshot : Snapshot := .empty
  topics : List String := []
  subscribed : List String := []
  task? : Option Task := none
  leaving : List Task := []

namespace Site

/-- The site with the tasks that leave done with their messages. -/
def dismiss (c : Setup) (s : Site) : Site :=
  s.leaving.foldl
    (fun s t =>
      let l := Line.finish c.processor c.moment ⟨s.broker, s.outbox, t⟩
      { s with broker := l.broker, outbox := l.outbox })
    { s with leaving := [] }

/-- The site when every task has to wait. -/
def settle (c : Setup) (s : Site) : Site :=
  let s := s.dismiss c
  match s.task? with
  | none => s
  | some t =>
    let l := Line.settle c.processor c.moment s.snapshot ⟨s.broker, s.outbox, t⟩
    { s with broker := l.broker, outbox := l.outbox, task? := some l.task }

/-- The site with a new task for so many topics.  The task before it is told to stop
but not waited for. -/
def startTask (s : Site) (topics : Nat) : Site :=
  let old := (s.task?.map Task.stop).toList.filter fun t => !t.hasEnded
  { s with task? := some (.start topics), leaving := s.leaving ++ old }

/-- The site with its task told to stop. -/
def stopTask (s : Site) : Site := { s with task? := s.task?.map Task.stop }

/-- No task has a message in hand that an operation would have to wait for. -/
def taskEnded (s : Site) : Bool := s.task?.all Task.hasEnded

/-- The site with another snapshot in force. -/
def install (s : Site) (fresh : Snapshot) : Site :=
  { s with snapshot := fresh, topics := fresh.topics }

end Site

/-! ## Topics -/

/-- The topics of a snapshot that are not among the given ones. -/
def newTopics (topics : List String) (fresh : Snapshot) : List String :=
  fresh.topics.filter fun t => !topics.contains t

/-- All topics of both lists in ascending order. -/
def union (a b : List String) : List String :=
  (a ++ b.filter fun t => !a.contains t).mergeSort fun x y => decide (x ≤ y)

/-! ## Operations -/

/-- Why an operation failed. -/
inductive Fault
  | store (f : Store.Fault)
  | transport (f : TransportFault)
  deriving DecidableEq, Repr

/-- The fault in words. -/
def Fault.message : Fault → String
  | store f => "Failed to load transforms: " ++ f.message
  | transport f => "Failed to update subscription: " ++ f.message

/-- What an operation did: the topics it found new, and the number of transforms in
force after it. -/
structure Report where
  newTopics : List String
  transforms : Nat
  deriving DecidableEq, Repr

/-- The two kinds of operation. -/
inductive Kind
  | start
  | refresh
  deriving DecidableEq, Repr

/-- How far an operation has come. -/
inductive Phase
  | querying
  | stopping (fresh : Snapshot)
  | subscribing (fresh : Snapshot)
  | installing (fresh : Snapshot) (topics : List String)
  | finished (answer : Except Fault Report)

/-- An operation under way. -/
structure Operation where
  kind : Kind
  phase : Phase := .querying

namespace Operation

/-- The answer of an operation that is finished. -/
def answer? (o : Operation) : Option (Except Fault Report) :=
  match o.phase with
  | .finished answer => some answer
  | _ => none

/-- The report of an operation that put `fresh` in force, where `topics` were known. -/
def report (topics : List String) (fresh : Snapshot) : Report :=
  ⟨newTopics topics fresh, fresh.size⟩

/-- The step of an operation that got a snapshot from the store. -/
def loaded (kind : Kind) (s : Site) (fresh : Snapshot) : Site × Phase :=
  match kind with
  | .start => (s, .subscribing fresh)
  | .refresh =>
    if (newTopics s.topics fresh).isEmpty then
      (s.install fresh, .finished (.ok (report s.topics fresh)))
    else (s.stopTask, .stopping fresh)

/-- The topics that an operation subscribes to. -/
def wanted (kind : Kind) (s : Site) (fresh : Snapshot) : List String :=
  match kind with
  | .start => fresh.topics
  | .refresh => union s.topics fresh.topics

/-- The step of an operation whose subscription was refused. -/
def refused (kind : Kind) (s : Site) : Site :=
  match kind with
  | .start => s
  | .refresh => s.startTask s.subscribed.length

/-- The site and the operation after one step of it. -/
def step (c : Setup) (s : Site) (o : Operation) : Site × Operation :=
  match o.phase with
  | .querying =>
    let answer := Snapshot.load c.engine c.workspace? s.store
    let s := { s with store := s.store.queried }
    match answer with
    | .error f => (s, { o with phase := .finished (.error (.store f)) })
    | .ok fresh =>
      let (s, phase) := loaded o.kind s fresh
      (s, { o with phase := phase })
  | .stopping fresh =>
    if s.taskEnded then ({ s with task? := none }, { o with phase := .subscribing fresh })
    else (s, o)
  | .subscribing fresh =>
    let topics := wanted o.kind s fresh
    match s.broker.subscribe topics with
    | (broker, .error f) =>
      (refused o.kind { s with broker := broker },
        { o with phase := .finished (.error (.transport f)) })
    | (broker, .ok ()) =>
      ({ s with broker := broker }, { o with phase := .installing fresh topics })
  | .installing fresh topics =>
    let answer := report s.topics fresh
    let s := { s with subscribed := topics }.install fresh
    (s.startTask topics.length, { o with phase := .finished (.ok answer) })
  | .finished _ => (s, o)

/-- The step that puts a snapshot in force, where it is due. -/
def installDue (c : Setup) (s : Site) (o : Operation) : Site × Operation :=
  match o.phase with
  | .installing .. => o.step c s
  | _ => (s, o)

/-- The site and the operation after a step, once all tasks have to wait.  A snapshot is
put in force right after the broker was subscribed to its topics. -/
def settledStep (c : Setup) (s : Site) (o : Operation) : Site × Operation :=
  let (s, o) := o.step c s
  let (s, o) := o.installDue c s
  (s.settle c, o)

/-- The site after a whole operation, and its answer: it takes three steps at most. -/
def perform (c : Setup) (kind : Kind) (s : Site) : Site × Option (Except Fault Report) :=
  let (s, o) := settledStep c s ⟨kind, .querying⟩
  let (s, o) := settledStep c s o
  let (s, o) := settledStep c s o
  (s, o.answer?)

end Operation

end Reshape.Subscription

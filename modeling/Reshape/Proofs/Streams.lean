/-
# No message is lost between two steps

The conservation of messages once more, at single steps.  Messages may be pushed, and
definitions and failures may come and go, between any two steps of an operation, and while a
task is between receiving a message, publishing its record and committing it.  So may a
task be told to stop, or the broker be closed, and the tasks that a start has put aside go
on beside the new one.

What was pushed was taken or is still held, and what was taken is committed or in the hand
of a task (`Account`).  A step of a task moves one message at most, from the broker to its
hand or from there to those committed (`Line.passes_next`), and an operation takes none from
a task when it stops or replaces it (`Operation.Moves.perm_tasks`).  So the account is kept
whatever happens (`sound_after`), and as long as no start puts a task aside, messages are
published and committed in the order in which they were taken.
-/
import Mathlib.Tactic
import Reshape.Proofs.Conservation
import Reshape.Proofs.Handover

namespace Reshape.Consumption

open Processing (Attempt Moment Processor)

/-! ## Single steps of a task -/

/-- The message that the task has in hand. -/
def Task.hand (t : Task) : List Message :=
  match t.phase with
  | .publishing m _ | .committing m => [m]
  | _ => []

/-- The message that the task has in hand, if its record was not offered yet. -/
def Task.unoffered (t : Task) : List Message :=
  match t.phase with
  | .publishing m _ => [m]
  | _ => []

/-- Between two messages a task has none in hand. -/
theorem hand_of_isFree {t : Task} (h : t.IsFree) : t.hand = [] ∧ t.unoffered = [] := by
  obtain ⟨phase, stopping⟩ := t
  cases phase with
  | publishing | committing => cases h
  | idle | receiving | pausing | ended => exact ⟨rfl, rfl⟩

/-- Told to stop, a task keeps the message in hand. -/
theorem hand_stop (t : Task) : t.stop.hand = t.hand ∧ t.stop.unoffered = t.unoffered := by
  obtain ⟨phase, stopping⟩ := t
  cases phase <;> exact ⟨rfl, rfl⟩

/-- A message that was just taken is in hand, and its record is to be offered if a transform
is in force. -/
theorem hand_taken (p : Processor) (at_ : Moment) (s : Snapshot) (m : Message)
    (stopping : Bool) :
    (⟨Task.taken p at_ m (s.get? m.topic), stopping⟩ : Task).hand = [m]
      ∧ (⟨Task.taken p at_ m (s.get? m.topic), stopping⟩ : Task).unoffered
        = if s.contains m.topic then [m] else [] := by
  rw [Task.taken, Processor.attempt?, Keyed.contains]
  cases s.get? m.topic <;> exact ⟨rfl, rfl⟩

/-- A message that was taken, with the snapshot in force then. -/
structure Taking where
  message : Message
  snapshot : Snapshot

/-- A transform of the message was in force. -/
def Taking.isResolved (x : Taking) : Bool := x.snapshot.contains x.message.topic

namespace Line

/-- The line after the next step of its task: what it waits for is over. -/
def next (p : Processor) (at_ : Moment) (s : Snapshot) (l : Line) : Line :=
  match l.task.request with
  | .receive =>
    match l.broker.receive with
    | (broker, none) => { l with broker := broker }
    | (broker, some (.error f)) =>
      { l with broker := broker, task := l.task.step p at_ (.receiveFailed f) }
    | (broker, some (.ok m)) =>
      { l with broker := broker, task := l.task.step p at_ (.received m (s.get? m.topic)) }
  | .publish _ => l.publish p at_
  | .commit _ => l.commit p at_
  | .pause => { l with task := l.task.step p at_ .pauseOver }
  | .nothing => l

/-- What the next step takes from the broker. -/
def taking (s : Snapshot) (l : Line) : List Taking :=
  match l.task.request, l.broker.receive.2 with
  | .receive, some (.ok m) => [⟨m, s⟩]
  | _, _ => []

/-- The messages whose records the next step offers: the outbox counts what it is offered. -/
def offering (p : Processor) (at_ : Moment) (s : Snapshot) (l : Line) : List Message :=
  if (l.next p at_ s).outbox.attempts = l.outbox.attempts then [] else l.task.hand

/-- What the next step leads to, with what it takes and what it offers. -/
inductive Goes (p : Processor) (at_ : Moment) (s : Snapshot) (l : Line) :
    Line → List Taking → List Message → Prop
  | polls (polled : Bool) (t : Task) (hfree : l.task.IsFree) (ht : t.IsFree) :
      Goes p at_ s l { l with broker := { l.broker with polled := polled }, task := t } [] []
  | takes {m : Message} {rest : List Message} (hfree : l.task.IsFree)
      (hn : l.broker.next? = some (m, rest)) :
      Goes p at_ s l
        { l with
          broker := { l.broker with polled := true, pending := rest }
          task := { l.task with phase := Task.taken p at_ m (s.get? m.topic) } }
        [⟨m, s⟩] []
  | publishes {m : Message} {a : Attempt} (h : l.task.phase = .publishing m a) :
      Goes p at_ s l
        { l with
          outbox := (l.outbox.publish a.record).1
          task := { l.task with phase := .committing m } }
        [] [m]
  | commits {m : Message} (h : l.task.phase = .committing m) :
      Goes p at_ s l
        { l with
          broker := l.broker.commit m.origin
          task := { l.task with phase := if l.task.stopping then .ended else .receiving } }
        [] []

/-- What is offered is counted, whether it is accepted or not. -/
theorem attempts_publish (o : Outbox) (r : Record) :
    (o.publish r).1.attempts = o.attempts + 1 := by
  unfold Outbox.publish
  split <;> rfl

variable (p : Processor) (at_ : Moment)

/-- The next step is one of the listed cases. -/
theorem goes_next (s : Snapshot) (l : Line) :
    Goes p at_ s l (l.next p at_ s) (l.taking s) (l.offering p at_ s) := by
  obtain ⟨broker, outbox, ⟨phase, stopping⟩⟩ := l
  cases phase with
  | receiving =>
    cases hc : broker.closed with
    | true =>
      simp only [offering, taking, next, Task.request, broker_receive_of_closed hc, if_true]
      exact .polls true ⟨.ended, stopping⟩ trivial trivial
    | false =>
      cases hn : broker.next? with
      | none =>
        simp only [offering, taking, next, Task.request, broker_receive_of_none hc hn, if_true]
        exact .polls true _ trivial trivial
      | some found =>
        obtain ⟨m, rest⟩ := found
        simp only [offering, taking, next, Task.request, broker_receive_of_some hc hn, if_true]
        exact .takes trivial hn
  | publishing m a =>
    have hattempts := attempts_publish outbox a.record
    have hg : Goes p at_ s ⟨broker, outbox, ⟨.publishing m a, stopping⟩⟩ _ [] [m] :=
      .publishes rfl
    cases hp : outbox.publish a.record with
    | mk after accepted =>
      rw [hp] at hattempts hg
      have hne : ¬ after.attempts = outbox.attempts := by
        rw [hattempts]
        exact Nat.succ_ne_self _
      simp only [offering, taking, next, publish, Task.request, hp, if_neg hne, Task.hand]
      exact hg
  | committing m =>
    simp only [offering, taking, next, commit, Task.request, if_true]
    exact .commits rfl
  | idle | ended =>
    simp only [offering, taking, next, Task.request, if_true]
    exact .polls _ _ trivial trivial
  | pausing =>
    simp only [offering, taking, next, Task.request, if_true]
    exact .polls _ _ trivial trivial

/-- What goes through the hands of a task in a step: a message from the broker into its
hand, its record to the outbox, or the message in hand to those committed. -/
structure Passes (l l' : Line) (taking : List Taking) (offering : List Message) : Prop where
  messages : l.broker.pending.Perm (taking.map Taking.message ++ l'.broker.pending)
  order : ∀ topic, ofTopic topic l.broker.pending =
    ofTopic topic (taking.map Taking.message ++ l'.broker.pending)
  committed : l.broker.committed ++ l.task.hand.map Message.origin
      ++ taking.map (fun x => x.message.origin)
    = l'.broker.committed ++ l'.task.hand.map Message.origin
  offers : l.task.unoffered ++ (taking.filter Taking.isResolved).map Taking.message
    = offering ++ l'.task.unoffered
  attempts : l'.outbox.attempts = l.outbox.attempts + offering.length

/-- Each of the cases moves one message at most. -/
theorem passes_of_goes {s : Snapshot} {l l' : Line} {taking : List Taking}
    {offering : List Message} (h : Goes p at_ s l l' taking offering) :
    Passes l l' taking offering := by
  cases h with
  | polls polled t hfree ht =>
    obtain ⟨hhand, hunoffered⟩ := hand_of_isFree hfree
    obtain ⟨hhand', hunoffered'⟩ := hand_of_isFree ht
    refine ⟨.refl _, fun _ => rfl, ?_, ?_, rfl⟩
    · rw [hhand, hhand', List.map_nil, List.map_nil, List.append_nil]
    · rw [hunoffered, hunoffered']
      rfl
  | @takes m rest hfree hn =>
    obtain ⟨hhand, hunoffered⟩ := hand_of_isFree hfree
    obtain ⟨hhand', hunoffered'⟩ := hand_taken p at_ s m l.task.stopping
    refine ⟨Broker.perm_of_takeFirst? hn, ofTopic_pending hn, ?_, ?_, rfl⟩
    · rw [hhand, hhand', List.map_nil, List.append_nil]
      rfl
    · rw [hunoffered, hunoffered']
      cases hc : s.contains m.topic <;> simp [Taking.isResolved, hc]
  | @publishes m a hphase =>
    refine ⟨.refl _, fun _ => rfl, ?_, ?_, attempts_publish _ _⟩
    · rw [Task.hand, hphase, List.map_nil, List.append_nil]
      rfl
    · rw [Task.unoffered, hphase]
      rfl
  | @commits m hphase =>
    have hfree : (⟨if l.task.stopping then .ended else .receiving, l.task.stopping⟩
        : Task).IsFree := by
      cases l.task.stopping <;> trivial
    obtain ⟨hhand', hunoffered'⟩ := hand_of_isFree hfree
    refine ⟨.refl _, fun _ => rfl, ?_, ?_, rfl⟩
    · rw [hhand', Task.hand, hphase, List.map_nil, List.map_nil, List.append_nil, List.append_nil]
      rfl
    · rw [hunoffered', Task.unoffered, hphase]
      rfl

/-- **What a step of a task moves**, whatever it is. -/
theorem passes_next (s : Snapshot) (l : Line) :
    Passes l (l.next p at_ s) (l.taking s) (l.offering p at_ s) :=
  passes_of_goes p at_ (goes_next p at_ s l)

/-! ## Whole messages -/

/-- To finish the message in hand takes two steps at most. -/
theorem finish_eq_next (s : Snapshot) (l : Line) :
    ∃ n, l.finish p at_ = (next p at_ s)^[n] l := by
  obtain ⟨broker, outbox, ⟨phase, stopping⟩⟩ := l
  cases phase with
  | publishing m a => exact ⟨2, rfl⟩
  | committing m => exact ⟨1, rfl⟩
  | idle | receiving | pausing | ended => exact ⟨0, rfl⟩

/-- A receive is a row of steps: one that takes a message, and those that finish it. -/
theorem receive_eq_next (s : Snapshot) (l : Line) :
    ∃ n, l.receive p at_ s = (next p at_ s)^[n] l := by
  obtain ⟨broker, outbox, ⟨phase, stopping⟩⟩ := l
  cases phase with
  | receiving =>
    cases hb : broker.receive with
    | mk after found =>
      cases found with
      | none =>
        refine ⟨1, ?_⟩
        simp only [receive, next, Task.request, hb, Function.iterate_one]
      | some result =>
        cases result with
        | error f =>
          refine ⟨1, ?_⟩
          simp only [receive, next, Task.request, hb, Function.iterate_one]
        | ok m =>
          obtain ⟨n, hn⟩ := finish_eq_next p at_ s
            ⟨after, outbox, Task.step p at_ ⟨.receiving, stopping⟩ (.received m (s.get? m.topic))⟩
          refine ⟨n + 1, ?_⟩
          rw [Function.iterate_succ_apply]
          simp only [receive, next, Task.request, hb]
          exact hn
  | idle | publishing | committing | pausing | ended => exact ⟨0, rfl⟩

/-- So is what a line does until its task has to wait. -/
theorem settle_eq_next (s : Snapshot) (l : Line) :
    ∃ n, l.settle p at_ s = (next p at_ s)^[n] l := by
  have hreceives (k : Nat) (l : Line) : ∃ n, l.receives p at_ s k = (next p at_ s)^[n] l := by
    induction k generalizing l with
    | zero => exact ⟨0, rfl⟩
    | succ k ih =>
      obtain ⟨n, hn⟩ := receive_eq_next p at_ s l
      obtain ⟨n', hn'⟩ := ih (l.receive p at_ s)
      refine ⟨n' + n, ?_⟩
      rw [receives, hn', hn, Function.iterate_add_apply]
  obtain ⟨n, hn⟩ := finish_eq_next p at_ s l
  obtain ⟨n', hn'⟩ := hreceives ((l.finish p at_).broker.pending.length + 1) (l.finish p at_)
  refine ⟨n' + n, ?_⟩
  rw [settle, hn', hn, Function.iterate_add_apply]

end Line

/-! ## The account -/

/-- What was pushed and what was taken agree with what a broker holds and committed, with
what tasks have in hand, and with what an outbox was offered. -/
structure Account (pushed : List Message) (taken : List Taking) (offered : List Message)
    (b : Broker) (o : Outbox) (tasks : List Task) : Prop where
  messages : pushed.Perm (taken.map Taking.message ++ b.pending)
  order : ∀ topic, ofTopic topic pushed = ofTopic topic (taken.map Taking.message ++ b.pending)
  committed : (b.committed ++ (tasks.flatMap Task.hand).map Message.origin).Perm
    (taken.map fun x => x.message.origin)
  offers : (offered ++ tasks.flatMap Task.unoffered).Perm
    ((taken.filter Taking.isResolved).map Taking.message)
  attempts : o.attempts = offered.length

namespace Account

variable {pushed : List Message} {taken : List Taking} {offered : List Message}
  {b b' : Broker} {o o' : Outbox} {tasks tasks' : List Task}

/-- Nothing was pushed and nothing was taken yet. -/
theorem new : Account [] [] [] {} {} [⟨.ended, true⟩] :=
  ⟨.refl _, fun _ => rfl, .refl _, .refl _, rfl⟩

/-- The account is about the messages only, and of a task about the message in hand. -/
theorem of_eq (h : Account pushed taken offered b o tasks) (hp : b'.pending = b.pending)
    (hc : b'.committed = b.committed) (ho : o'.attempts = o.attempts)
    (hhand : (tasks'.flatMap Task.hand).Perm (tasks.flatMap Task.hand))
    (hunoffered : (tasks'.flatMap Task.unoffered).Perm (tasks.flatMap Task.unoffered)) :
    Account pushed taken offered b' o' tasks' where
  messages := hp ▸ h.messages
  order := hp ▸ h.order
  committed := hc ▸ ((hhand.map _).append_left _).trans h.committed
  offers := (hunoffered.append_left _).trans h.offers
  attempts := ho.trans h.attempts

/-- Messages that are pushed are held from then on. -/
theorem push (h : Account pushed taken offered b o tasks) (ms : List Message) :
    Account (pushed ++ ms) taken offered (b.push ms) o tasks where
  messages := by
    rw [Broker.push, ← List.append_assoc]
    exact h.messages.append_right ms
  order := by
    intro topic
    rw [Broker.push, ← List.append_assoc, ofTopic_append, h.order topic, ← ofTopic_append]
  committed := h.committed
  offers := h.offers
  attempts := h.attempts

/-- The account does not depend on the order of the tasks. -/
theorem perm (h : Account pushed taken offered b o tasks) (ht : tasks'.Perm tasks) :
    Account pushed taken offered b o tasks' :=
  h.of_eq rfl rfl rfl (ht.flatMap_right _) (ht.flatMap_right _)

/-- **A step of a task keeps the account**, whichever task it is. -/
theorem passes {l l' : Line} {taking : List Taking} {offering : List Message}
    {others : List Task} (h : Account pushed taken offered l.broker l.outbox (l.task :: others))
    (hl : Line.Passes l l' taking offering) :
    Account pushed (taken ++ taking) (offered ++ offering) l'.broker l'.outbox
      (l'.task :: others) where
  messages := by
    rw [List.map_append, List.append_assoc]
    exact h.messages.trans (hl.messages.append_left _)
  order := by
    intro topic
    rw [h.order topic, ofTopic_append, hl.order topic, ← ofTopic_append, List.map_append,
      List.append_assoc]
  committed := by
    have hc := h.committed
    rw [List.flatMap_cons, List.map_append, ← List.append_assoc] at hc
    rw [List.flatMap_cons, List.map_append, ← List.append_assoc, ← hl.committed,
      List.map_append, List.append_assoc _ (taking.map _)]
    -- what is taken comes behind what the other tasks have in hand
    refine (List.perm_append_comm.append_left _).trans ?_
    rw [← List.append_assoc]
    exact hc.append_right _
  offers := by
    have ho := h.offers
    rw [List.flatMap_cons, ← List.append_assoc] at ho
    rw [List.flatMap_cons, List.append_assoc offered, ← List.append_assoc offering, ← hl.offers,
      List.filter_append, List.map_append, List.append_assoc l.task.unoffered]
    refine ((List.perm_append_comm.append_left _).append_left _).trans ?_
    rw [← List.append_assoc, ← List.append_assoc]
    exact ho.append_right _
  attempts := by
    rw [hl.attempts, h.attempts, List.length_append]

end Account

/-! ## One task after the other -/

/-- What was taken was committed and what was to be offered was offered, in order and but
for what a task has in hand. -/
structure InOrder (taken : List Taking) (offered : List Message) (committed : List Origin)
    (t : Task) : Prop where
  commits : (taken.map fun x => x.message.origin) = committed ++ t.hand.map Message.origin
  offers : (taken.filter Taking.isResolved).map Taking.message = offered ++ t.unoffered

/-- It does not matter which task has it in hand. -/
theorem InOrder.of_hand {taken : List Taking} {offered : List Message} {committed : List Origin}
    {t t' : Task} (h : InOrder taken offered committed t)
    (ht : t'.hand = t.hand ∧ t'.unoffered = t.unoffered) :
    InOrder taken offered committed t' :=
  ⟨by rw [h.commits, ht.1], by rw [h.offers, ht.2]⟩

/-- A step of the task keeps the order. -/
theorem InOrder.passes {taken taking : List Taking} {offered offering : List Message}
    {l l' : Line} (h : InOrder taken offered l.broker.committed l.task)
    (hl : Line.Passes l l' taking offering) :
    InOrder (taken ++ taking) (offered ++ offering) l'.broker.committed l'.task where
  commits := by rw [List.map_append, h.commits, hl.committed]
  offers := by
    rw [List.filter_append, List.map_append, h.offers, List.append_assoc, hl.offers,
      List.append_assoc]

end Reshape.Consumption

namespace Reshape.Subscription

open Consumption
open Processing (Moment)

/-! ## Sites going on by single steps -/

/-- The tasks of the site, those that leave included. -/
def Site.tasks (s : Site) : List Task := s.current :: s.leaving

/-- What becomes of something that tasks have until they are done: an operation takes it
from no task and gives it to none. -/
theorem Operation.Moves.perm_tasks {c : Setup} {s s' : Site} {o o' : Operation}
    (hm : Moves c s o s' o') (hc : o.Cleared s) {α : Type} {f : Task → List α}
    (hfree : ∀ t : Task, t.IsFree → f t = []) (hstop : ∀ t : Task, f t.stop = f t) :
    (s'.tasks.flatMap f).Perm (s.tasks.flatMap f) := by
  obtain ⟨hleaving, hcurrent, -⟩ := hm.tasks hc
  rw [Site.tasks, Site.tasks, List.flatMap_cons, List.flatMap_cons, hleaving, List.flatMap_append]
  rcases hcurrent with ⟨hd, hsame | hstopped⟩ | ⟨hfree', hnew⟩
  · simp [hd, hsame]
  · simp [hd, hstopped, hstop]
  · rw [hfree _ hnew, List.nil_append]
    cases hd : o.displaces s with
    | false => simp [hfree _ (hfree' hd)]
    | true =>
      simp only [if_true, List.flatMap_cons, List.flatMap_nil, List.append_nil, hstop]
      exact List.perm_append_comm

/-- A site with the operation under way; what was taken from its broker so far, what was
offered to its outbox, and how many tasks a start has put aside with a message in hand. -/
structure Stream where
  site : Site
  operation? : Option Operation := none
  taken : List Taking := []
  offered : List Message := []
  displaced : Nat := 0

namespace Stream

/-- What may happen next: an operation is called or goes on, a task goes on, messages are
pushed, the store changes, something is told to fail or to work again, the task is told to
stop, or the broker is closed. -/
inductive Event
  | called (kind : Kind)
  | proceeds
  | taskProceeds (at_ : Moment)
  | leaverProceeds (i : Nat) (at_ : Moment)
  | pushed (ms : List Message)
  | restocked (store : Store)
  | toldToFail (part : Worker.Part) (on : Bool)
  | toldToStop
  | closed

/-- An operation is called, if none is under way. -/
def call (m : Stream) (kind : Kind) : Stream :=
  if m.operation?.all fun o => o.answer?.isSome then
    { m with operation? := some ⟨kind, .querying⟩ }
  else m

/-- The operation under way goes on by a step. -/
def proceed (c : Setup) (m : Stream) : Stream :=
  match m.operation? with
  | none => m
  | some o =>
    { m with
      site := (o.step c m.site).1
      operation? := some (o.step c m.site).2
      displaced := m.displaced + if o.displaces m.site then 1 else 0 }

/-- A task goes on by a step and is put back in its place. -/
def goOn (c : Setup) (m : Stream) (at_ : Moment) (t : Task) (putBack : Site → Task → Site) :
    Stream :=
  let l : Line := ⟨m.site.broker, m.site.outbox, t⟩
  let l' := l.next c.processor at_ m.site.snapshot
  { m with
    site := putBack { m.site with broker := l'.broker, outbox := l'.outbox } l'.task
    taken := m.taken ++ l.taking m.site.snapshot
    offered := m.offered ++ l.offering c.processor at_ m.site.snapshot }

/-- The stream after something happened; one operation at a time is under way. -/
def after (c : Setup) (m : Stream) : Event → Stream
  | .called kind => m.call kind
  | .proceeds => m.proceed c
  | .taskProceeds at_ =>
    match m.site.task? with
    | none => m
    | some t => m.goOn c at_ t fun s t' => { s with task? := some t' }
  | .leaverProceeds i at_ =>
    match m.site.leaving[i]? with
    | none => m
    | some t => m.goOn c at_ t fun s t' => { s with leaving := s.leaving.set i t' }
  | .pushed ms => { m with site := { m.site with broker := m.site.broker.push ms } }
  | .restocked store => { m with site := { m.site with store := store } }
  | .toldToFail part on => { m with site := Worker.State.setFailing part on m.site }
  | .toldToStop => { m with site := m.site.stopTask }
  | .closed => { m with site := { m.site with broker := m.site.broker.close.1 } }

/-- The stream after several things happened in order. -/
def follow (c : Setup) (m : Stream) (history : List Event) : Stream := history.foldl (after c) m

/-- What is pushed when something happens. -/
def Event.pushes : Event → List Message
  | .pushed ms => ms
  | _ => []

/-- What is pushed in the course of a history, in order. -/
def pushed (history : List Event) : List Message := history.flatMap Event.pushes

/-! ### What stays true -/

/-- What is true of a stream at all times. -/
structure Sound (pushed : List Message) (m : Stream) : Prop where
  account : Account pushed m.taken m.offered m.site.broker m.site.outbox m.site.tasks
  leaving : m.site.leaving.length = m.displaced
  cleared : ∀ o, m.operation? = some o → o.Cleared m.site
  inOrder : m.displaced = 0 → InOrder m.taken m.offered m.site.broker.committed m.site.current

variable {c : Setup} {m : Stream} {before : List Message}

/-- There are no tasks and no messages yet. -/
theorem sound_new (store : Store) : ({ site := { store := store } } : Stream).Sound [] where
  account := Account.new
  leaving := rfl
  cleared := fun _ ho => nomatch ho
  inOrder := fun _ => ⟨rfl, rfl⟩

/-- The operation that is called has done nothing yet. -/
theorem sound_call (h : m.Sound before) (kind : Kind) : (m.call kind).Sound before := by
  unfold call
  split
  · refine ⟨h.account, h.leaving, fun o ho => ?_, h.inOrder⟩
    cases ho
    trivial
  · exact h

/-- An operation moves no messages, and what it makes of the tasks loses none. -/
theorem sound_proceed (h : m.Sound before) : (m.proceed c).Sound before := by
  unfold proceed
  split
  · exact h
  · rename_i o ho
    have hm := Operation.moves_step c m.site o
    have hc := h.cleared o ho
    obtain ⟨hpending, hcommitted, houtbox⟩ := hm.keeps_messages
    obtain ⟨hleaving, hcurrent, hcleared⟩ := hm.tasks hc
    refine ⟨?_, ?_, ?_, fun hd => ?_⟩
    · exact h.account.of_eq hpending hcommitted (congrArg Outbox.attempts houtbox)
        (hm.perm_tasks hc (fun _ ht => (hand_of_isFree ht).1) fun t => (hand_stop t).1)
        (hm.perm_tasks hc (fun _ ht => (hand_of_isFree ht).2) fun t => (hand_stop t).2)
    · show (o.step c m.site).1.leaving.length = _
      rw [hleaving, List.length_append, h.leaving]
      cases o.displaces m.site <;> rfl
    · intro o' ho'
      obtain rfl := Option.some.inj ho'
      exact hcleared
    · have hd' : m.displaced = 0 ∧ o.displaces m.site = false := by
        simpa using hd
      -- what the current task has in hand stays in hand, or there is none
      have hkeeps : (o.step c m.site).1.current.hand = m.site.current.hand
          ∧ (o.step c m.site).1.current.unoffered = m.site.current.unoffered := by
        rcases hcurrent with ⟨-, hsame | hstopped⟩ | ⟨hfree, hnew⟩
        · rw [hsame]
          exact ⟨rfl, rfl⟩
        · rw [hstopped]
          exact hand_stop _
        · obtain ⟨hhand, hunoffered⟩ := hand_of_isFree (hfree hd'.2)
          rw [hhand, hunoffered]
          exact hand_of_isFree hnew
      show InOrder _ _ (o.step c m.site).1.broker.committed _
      rw [hcommitted]
      exact (h.inOrder hd'.1).of_hand hkeeps

/-- The step of a task that has ended is none. -/
theorem next_of_hasEnded (c : Setup) (at_ : Moment) (s : Snapshot) {l : Line}
    (h : l.task.hasEnded = true) : l.next c.processor at_ s = l := by
  obtain ⟨broker, outbox, ⟨phase, stopping⟩⟩ := l
  cases phase <;> first | rfl | cases h

/-- The task of the site goes on: if an operation counts on it to have ended, it has. -/
theorem sound_taskProceeds (h : m.Sound before) (at_ : Moment) :
    (m.after c (.taskProceeds at_)).Sound before := by
  simp only [after]
  cases ht : m.site.task? with
  | none => exact h
  | some t =>
    have hcurrent : m.site.current = t := by rw [Site.current, ht, Option.getD_some]
    have hl := Line.passes_next c.processor at_ m.site.snapshot ⟨m.site.broker, m.site.outbox, t⟩
    have haccount := h.account
    rw [Site.tasks, hcurrent] at haccount
    refine ⟨haccount.passes hl, h.leaving, fun o ho => ?_, fun hd => ?_⟩
    · have hcleared := h.cleared o ho
      have hkeeps (he : m.site.current.hasEnded = true) :
          (Line.next c.processor at_ m.site.snapshot
            ⟨m.site.broker, m.site.outbox, t⟩).task.hasEnded = true := by
        rw [hcurrent] at he
        rw [next_of_hasEnded c at_ m.site.snapshot (l := ⟨m.site.broker, m.site.outbox, t⟩) he]
        exact he
      obtain ⟨kind, phase⟩ := o
      cases phase with
      | subscribing | installing => exact fun hk => hkeeps (hcleared hk)
      | querying | stopping | finished => trivial
    · have hin := h.inOrder hd
      rw [hcurrent] at hin
      exact hin.passes hl

/-- So does one that leaves. -/
theorem sound_leaverProceeds (h : m.Sound before) (i : Nat) (at_ : Moment) :
    (m.after c (.leaverProceeds i at_)).Sound before := by
  simp only [after]
  cases ht : m.site.leaving[i]? with
  | none => exact h
  | some t =>
    obtain ⟨hi, rfl⟩ := List.getElem?_eq_some_iff.1 ht
    simp only
    have hl := Line.passes_next c.processor at_ m.site.snapshot
      ⟨m.site.broker, m.site.outbox, m.site.leaving[i]⟩
    -- the task that goes on is put before the others
    have hfirst : (m.site.leaving[i] :: m.site.current :: m.site.leaving.eraseIdx i).Perm
        m.site.tasks :=
      (List.Perm.swap _ _ _).trans ((List.getElem_cons_eraseIdx_perm hi).cons _)
    refine ⟨?_, (List.length_set).trans h.leaving, h.cleared, fun hd => ?_⟩
    · refine ((h.account.perm hfirst).passes hl).perm ?_
      exact ((List.set_perm_cons_eraseIdx hi _).cons _).trans (List.Perm.swap _ _ _)
    · -- none leaves before one was put aside
      rw [List.eq_nil_of_length_eq_zero (h.leaving.trans hd)] at hi
      cases hi

/-- What is told to fail holds, committed and was offered what it did before. -/
theorem sound_toldToFail (h : m.Sound before) (part : Worker.Part) (on : Bool) :
    (m.after c (.toldToFail part on)).Sound before := by
  cases part <;>
    exact ⟨h.account.of_eq rfl rfl rfl (.refl _) (.refl _), h.leaving, h.cleared, h.inOrder⟩

/-- Told to stop, a task keeps what it has in hand. -/
theorem sound_toldToStop (h : m.Sound before) : (m.after c .toldToStop).Sound before := by
  obtain ⟨hhand, hunoffered⟩ := hand_stop m.site.current
  have hcurrent := Site.current_stopTask m.site
  refine ⟨h.account.of_eq rfl rfl rfl ?_ ?_, h.leaving, fun o ho => ?_, fun hd => ?_⟩
  · show (m.site.stopTask.tasks.flatMap Task.hand).Perm _
    rw [Site.tasks, Site.tasks, List.flatMap_cons, List.flatMap_cons, hcurrent, hhand]
    exact .refl _
  · show (m.site.stopTask.tasks.flatMap Task.unoffered).Perm _
    rw [Site.tasks, Site.tasks, List.flatMap_cons, List.flatMap_cons, hcurrent, hunoffered]
    exact .refl _
  · have hcleared := h.cleared o ho
    have hkeeps (he : m.site.current.hasEnded = true) :
        m.site.stopTask.current.hasEnded = true := by
      rw [hcurrent]
      exact hasEnded_stop_of_isFree (isFree_of_hasEnded he)
    obtain ⟨kind, phase⟩ := o
    cases phase with
    | subscribing | installing => exact fun hk => hkeeps (hcleared hk)
    | querying | stopping | finished => trivial
  · show InOrder _ _ _ m.site.stopTask.current
    rw [hcurrent]
    exact (h.inOrder hd).of_hand ⟨hhand, hunoffered⟩

/-- A broker that was closed holds and committed what it did before. -/
theorem sound_closed (h : m.Sound before) : (m.after c .closed).Sound before := by
  obtain ⟨hpending, hcommitted⟩ := Worker.State.close_keeps m.site.broker
  refine ⟨h.account.of_eq hpending hcommitted rfl (.refl _) (.refl _), h.leaving, h.cleared,
    fun hd => ?_⟩
  obtain ⟨hcommits, hoffers⟩ := h.inOrder hd
  exact ⟨hcommits.trans (congrArg (· ++ _) hcommitted.symm), hoffers⟩

/-- Whatever happens, the account is kept of what is pushed besides. -/
theorem sound_after (c : Setup) (h : m.Sound before) (x : Event) :
    (m.after c x).Sound (before ++ x.pushes) := by
  cases x with
  | pushed ms => exact ⟨h.account.push ms, h.leaving, h.cleared, h.inOrder⟩
  | called kind =>
    simp only [Event.pushes, List.append_nil]
    exact sound_call h kind
  | proceeds =>
    simp only [Event.pushes, List.append_nil]
    exact sound_proceed h
  | taskProceeds at_ =>
    simp only [Event.pushes, List.append_nil]
    exact sound_taskProceeds h at_
  | leaverProceeds i at_ =>
    simp only [Event.pushes, List.append_nil]
    exact sound_leaverProceeds h i at_
  | restocked store =>
    simp only [Event.pushes, List.append_nil]
    exact ⟨h.account, h.leaving, h.cleared, h.inOrder⟩
  | toldToFail part on =>
    simp only [Event.pushes, List.append_nil]
    exact sound_toldToFail h part on
  | toldToStop =>
    simp only [Event.pushes, List.append_nil]
    exact sound_toldToStop h
  | closed =>
    simp only [Event.pushes, List.append_nil]
    exact sound_closed h

/-- Hence the account is kept in the course of every history. -/
theorem sound_follow (c : Setup) (h : m.Sound before) (history : List Event) :
    (m.follow c history).Sound (before ++ pushed history) := by
  induction history generalizing before m with
  | nil => simpa [pushed, follow] using h
  | cons x rest ih =>
    rw [pushed, List.flatMap_cons, ← List.append_assoc]
    exact ih (sound_after c h x)

/-- **No message is lost between two steps.**  Whatever is called, pushed, changed and told
to fail between any two steps of operations and tasks: what was pushed was taken or is held,
once, and of each topic in the order it was pushed; what was taken is committed or in hand;
one record was offered for each message that was resolved when it was taken, or its task is
about to offer it, and no others were.  Tasks leave only where a start puts them aside, and as
long as none has, all of this happens in the order in which the messages are taken. -/
theorem pushed_is_taken_or_held (c : Setup) (store : Store) (history : List Event) :
    let m := follow c { site := { store := store } } history
    (m.taken.map Taking.message ++ m.site.broker.pending).Perm (pushed history)
      ∧ (∀ topic, ofTopic topic (m.taken.map Taking.message)
            ++ ofTopic topic m.site.broker.pending
          = ofTopic topic (pushed history))
      ∧ (m.site.broker.committed ++ (m.site.tasks.flatMap Task.hand).map Message.origin).Perm
          (m.taken.map fun x => x.message.origin)
      ∧ (m.offered ++ m.site.tasks.flatMap Task.unoffered).Perm
          ((m.taken.filter Taking.isResolved).map Taking.message)
      ∧ m.site.outbox.attempts = m.offered.length
      ∧ m.site.leaving.length = m.displaced
      ∧ (m.displaced = 0 →
          InOrder m.taken m.offered m.site.broker.committed m.site.current) := by
  intro m
  have h : m.Sound (pushed history) := by
    simpa using sound_follow c (sound_new store) history
  refine ⟨h.account.messages.symm, fun topic => ?_, h.account.committed, h.account.offers,
    h.account.attempts, h.leaving, h.inOrder⟩
  rw [← ofTopic_append]
  exact (h.account.order topic).symm

/-! ### Whole operations -/

theorem follow_append (c : Setup) (m : Stream) (history more : List Event) :
    m.follow c (history ++ more) = (m.follow c history).follow c more :=
  List.foldl_append

/-- The stream stands where an operation led. -/
def At (m : Stream) (s : Site) (o : Operation) : Prop := m.site = s ∧ m.operation? = some o

/-- The operation goes on where it stands. -/
theorem at_proceeds (c : Setup) {s : Site} {o : Operation} (h : m.At s o) :
    (m.after c .proceeds).At (o.step c s).1 (o.step c s).2 := by
  obtain ⟨rfl, ho⟩ := h
  simp only [after, proceed, ho]
  exact ⟨rfl, rfl⟩

/-- The task of a site goes on step by step. -/
theorem at_taskProceeds (c : Setup) {o : Operation} (n : Nat) {s : Site} {t : Task}
    (ht : s.task? = some t) {l : Line}
    (hl : (Line.next c.processor c.moment s.snapshot)^[n] ⟨s.broker, s.outbox, t⟩ = l)
    (h : m.At s o) :
    (m.follow c (List.replicate n (.taskProceeds c.moment))).At
      { s with broker := l.broker, outbox := l.outbox, task? := some l.task } o := by
  induction n generalizing m s t with
  | zero =>
    obtain rfl := hl
    obtain ⟨rfl, ho⟩ := h
    refine ⟨?_, ho⟩
    show m.site = { m.site with task? := some t }
    rw [← ht]
  | succ n ih =>
    obtain ⟨rfl, ho⟩ := h
    rw [Function.iterate_succ_apply] at hl
    rw [List.replicate_succ]
    let l' := Line.next c.processor c.moment m.site.snapshot ⟨m.site.broker, m.site.outbox, t⟩
    let s' : Site :=
      { m.site with broker := l'.broker, outbox := l'.outbox, task? := some l'.task }
    have hnext : (m.after c (.taskProceeds c.moment)).At s' o := by
      simp only [after, ht]
      exact ⟨rfl, ho⟩
    exact ih (s := s') rfl hl hnext

/-- That a site settles is a row of events. -/
theorem settle_follows (c : Setup) {s : Site} {o : Operation} (hr : s.Rested) (h : m.At s o) :
    ∃ history, (m.follow c history).At (s.settle c) o := by
  cases ht : s.task? with
  | none =>
    rw [Site.settle_of_no_task c hr ht]
    exact ⟨[], h⟩
  | some t =>
    obtain ⟨n, hn⟩ := Line.settle_eq_next c.processor c.moment s.snapshot ⟨s.broker, s.outbox, t⟩
    rw [Site.settle_of_rested c hr ht]
    exact ⟨_, at_taskProceeds c n ht hn.symm h⟩

/-- A settled step is a row of events. -/
theorem settledStep_follows (c : Setup) {s : Site} {o : Operation} (hr : s.Rested)
    (h : m.At s o) :
    ∃ history, (m.follow c history).At (o.settledStep c s).1 (o.settledStep c s).2 := by
  have hstep := at_proceeds c h
  obtain ⟨due, hdue⟩ : ∃ history,
      (m.follow c history).At (o.stepDue c s).1 (o.stepDue c s).2 := by
    rw [Operation.stepDue, Operation.installDue]
    split
    · exact ⟨[.proceeds, .proceeds], at_proceeds c hstep⟩
    · exact ⟨[.proceeds], hstep⟩
  obtain ⟨settling, hsettling⟩ := settle_follows c (Operation.rested_stepDue c hr o) hdue
  refine ⟨due ++ settling, ?_⟩
  rw [follow_append]
  exact hsettling

/-- **A whole operation is a row of events**: what a worker does at once is one of the
courses that things may take. -/
theorem perform_is_followed (c : Setup) (kind : Kind) (hr : m.site.Rested)
    (hi : (m.operation?.all fun o => o.answer?.isSome) = true) :
    ∃ history, (m.follow c history).site = (Operation.perform c kind m.site).1 := by
  let one := Operation.settledStep c m.site ⟨kind, .querying⟩
  let two := Operation.settledStep c one.1 one.2
  have hr₁ : one.1.Rested := (Operation.rested_settledStep c hr _).1
  have hr₂ : two.1.Rested := (Operation.rested_settledStep c hr₁ _).1
  have h₀ : (m.after c (.called kind)).At m.site ⟨kind, .querying⟩ := by
    simp only [after, call]
    rw [if_pos hi]
    exact ⟨rfl, rfl⟩
  obtain ⟨first, h₁⟩ := settledStep_follows c hr h₀
  obtain ⟨second, h₂⟩ := settledStep_follows c hr₁ h₁
  obtain ⟨third, h₃⟩ := settledStep_follows c hr₂ h₂
  refine ⟨.called kind :: (first ++ second ++ third), ?_⟩
  show ((m.after c (.called kind)).follow c _).site = _
  rw [follow_append, follow_append]
  exact h₃.1

end Stream

end Reshape.Subscription

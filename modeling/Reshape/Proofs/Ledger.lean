/-
# A ledger of messages

Which messages were pushed, which were handled in which order, and which are still held.
The ledger (`Ledger`) says that these accounts agree: what was handled was committed, one
record was offered for each message that was resolved and none for another, and of each
topic the handled messages and those still held are the pushed ones in order.

A receive enters the message that it handles (`ledger_receive`), so settling enters what
a task handles (`ledger_settle`); an operation moves no messages besides
(`accounts_perform`).
-/
import Mathlib.Tactic
import Reshape.Proofs.Operations
import Reshape.Proofs.Publishing

namespace Reshape

/-! ## Taking the first message -/

/-- The message that is taken is the first one that the condition holds of. -/
theorem Broker.split_of_takeFirst? {p : Message → Bool} {ms rest : List Message}
    {m : Message} (h : takeFirst? p ms = some (m, rest)) :
    ∃ before behind, ms = before ++ m :: behind ∧ rest = before ++ behind ∧ p m = true
      ∧ ∀ x ∈ before, p x = false := by
  induction ms generalizing rest with
  | nil => cases h
  | cons a ms ih =>
    rw [takeFirst?] at h
    split_ifs at h with hp
    · cases h
      exact ⟨[], ms, rfl, rfl, hp, fun x hx => absurd hx List.not_mem_nil⟩
    · obtain ⟨⟨found, others⟩, hf, he⟩ := Option.map_eq_some_iff.1 h
      cases he
      obtain ⟨before, behind, rfl, rfl, hm, hbefore⟩ := ih hf
      refine ⟨a :: before, behind, rfl, rfl, hm, ?_⟩
      intro x hx
      rcases List.mem_cons.1 hx with rfl | hx
      · exact Bool.eq_false_iff.2 hp
      · exact hbefore x hx

/-- Of a kind of messages that the condition does not tell apart, the first is taken. -/
theorem Broker.filter_of_takeFirst? {p q : Message → Bool} {ms rest : List Message}
    {m : Message} (h : takeFirst? p ms = some (m, rest))
    (hq : ∀ x, q m = true → q x = true → p x = p m) : ms.filter q = (m :: rest).filter q := by
  obtain ⟨before, behind, rfl, rfl, hm, hbefore⟩ := split_of_takeFirst? h
  rw [List.filter_append, List.filter_cons, List.filter_cons, List.filter_append]
  split_ifs with hqm
  · -- none of the kind are before the message, or they would have been taken
    have hnil : before.filter q = [] := by
      refine List.filter_eq_nil_iff.2 ?_
      intro x hx hqx
      have hpx := hq x hqm hqx
      rw [hbefore x hx, hm] at hpx
      cases hpx
    rw [hnil, List.nil_append, List.nil_append]
  · rfl

namespace Consumption

open Processing (Moment Processor)

/-! ## Handled messages -/

/-- A message that was handled, with the snapshot in force then and the number of records
that were offered for it. -/
structure Handling where
  message : Message
  snapshot : Snapshot
  attempts : Nat

namespace Line

/-- What a receive handles, if it handles a message. -/
def handling? (p : Processor) (at_ : Moment) (s : Snapshot) (l : Line) : Option Handling :=
  if l.task.isReceiving then
    match l.broker.receive.2 with
    | some (.ok m) =>
      some ⟨m, s, (l.receive p at_ s).outbox.attempts - l.outbox.attempts⟩
    | _ => none
  else none

/-- What `n` receives handle, in order. -/
def handlings (p : Processor) (at_ : Moment) (s : Snapshot) : (n : Nat) → Line → List Handling
  | 0, _ => []
  | n + 1, l => (l.handling? p at_ s).toList ++ handlings p at_ s n (l.receive p at_ s)

/-- What is handled while a line settles. -/
def settling (p : Processor) (at_ : Moment) (s : Snapshot) (l : Line) : List Handling :=
  let l := l.finish p at_
  l.handlings p at_ s (l.broker.pending.length + 1)

end Line

/-! ## The ledger -/

/-- The messages of a topic, in order. -/
def ofTopic (topic : String) (ms : List Message) : List Message :=
  ms.filter fun m => m.topic = topic

theorem ofTopic_append (topic : String) (ms more : List Message) :
    ofTopic topic (ms ++ more) = ofTopic topic ms ++ ofTopic topic more :=
  List.filter_append ..

/-- The broker does not tell messages of one topic apart, so it takes the first of them. -/
theorem ofTopic_pending {b : Broker} {m : Message} {rest : List Message}
    (hn : b.next? = some (m, rest)) (topic : String) :
    ofTopic topic b.pending = ofTopic topic (m :: rest) := by
  refine Broker.filter_of_takeFirst? hn ?_
  intro x hm hx
  simp only [decide_eq_true_eq] at hm hx
  rw [hx, hm]

/-- What was pushed and what was handled agree with what a broker holds and committed, and
with what an outbox was offered. -/
structure Ledger (pushed : List Message) (log : List Handling) (b : Broker) (o : Outbox) :
    Prop where
  committed : b.committed = log.map fun h => h.message.origin
  messages : pushed.Perm (log.map Handling.message ++ b.pending)
  order : ∀ topic, ofTopic topic pushed = ofTopic topic (log.map Handling.message ++ b.pending)
  attempts : ∀ h ∈ log, h.attempts = if h.snapshot.contains h.message.topic then 1 else 0
  total : o.attempts = (log.map Handling.attempts).sum

namespace Ledger

variable {pushed : List Message} {log : List Handling} {b b' : Broker} {o o' : Outbox}

/-- Nothing was pushed and nothing was handled yet. -/
theorem new : Ledger [] [] {} {} :=
  ⟨rfl, .refl _, fun _ => rfl, (fun _ hm => nomatch hm), rfl⟩

/-- The ledger is about the messages only. -/
theorem of_eq (h : Ledger pushed log b o) (hp : b'.pending = b.pending)
    (hc : b'.committed = b.committed) (ho : o'.attempts = o.attempts) :
    Ledger pushed log b' o' where
  committed := hc.trans h.committed
  messages := hp ▸ h.messages
  order := hp ▸ h.order
  attempts := h.attempts
  total := ho.trans h.total

theorem polled (h : Ledger pushed log b o) : Ledger pushed log { b with polled := true } o :=
  h.of_eq rfl rfl rfl

/-- Messages that are pushed are held from then on. -/
theorem push (h : Ledger pushed log b o) (ms : List Message) :
    Ledger (pushed ++ ms) log (b.push ms) o where
  committed := h.committed
  messages := by
    rw [Broker.push, ← List.append_assoc]
    exact h.messages.append_right ms
  order := by
    intro topic
    rw [Broker.push, ← List.append_assoc, ofTopic_append, h.order topic, ← ofTopic_append]
  attempts := h.attempts
  total := h.total

end Ledger

namespace Line

variable (p : Processor) (at_ : Moment)

theorem attempts_process (o : Outbox) (m : Message) (t? : Option Transform) :
    (p.process at_ o m t?).1.attempts = o.attempts + if t?.isSome then 1 else 0 := by
  cases t? with
  | none => rfl
  | some t =>
    rw [Processing.process_some]
    rfl

/-- A message that was taken and handled is entered in the ledger. -/
theorem ledger_handled {pushed : List Message} {log : List Handling} (s : Snapshot) {l : Line}
    (h : Ledger pushed log l.broker l.outbox) {m : Message} {rest : List Message}
    (hn : l.broker.next? = some (m, rest)) :
    Ledger pushed
      (log ++ [⟨m, s, (l.handled p at_ s m rest).outbox.attempts - l.outbox.attempts⟩])
      (l.handled p at_ s m rest).broker (l.handled p at_ s m rest).outbox := by
  have hattempts : (l.handled p at_ s m rest).outbox.attempts =
      l.outbox.attempts + if s.contains m.topic then 1 else 0 :=
    attempts_process p at_ l.outbox m (s.get? m.topic)
  have hone : (l.handled p at_ s m rest).outbox.attempts - l.outbox.attempts =
      if s.contains m.topic then 1 else 0 := by
    rw [hattempts, Nat.add_sub_cancel_left]
  rw [hone]
  constructor
  · show l.broker.committed ++ [m.origin] = _
    rw [h.committed, List.map_append]
    rfl
  · rw [List.map_append, List.append_assoc]
    exact h.messages.trans ((Broker.perm_of_takeFirst? hn).append_left _)
  · intro topic
    rw [h.order topic, ofTopic_append, ofTopic_pending hn, ← ofTopic_append, List.map_append,
      List.append_assoc]
    rfl
  · intro e he
    rcases List.mem_append.1 he with he | he
    · exact h.attempts e he
    · obtain rfl := List.mem_singleton.1 he
      rfl
  · rw [hattempts, h.total, List.map_append, List.sum_append]
    simp

variable {pushed : List Message} {log : List Handling}

/-- A receive enters the message that it handles, if it handles one. -/
theorem ledger_receive (s : Snapshot) {l : Line} (h : Ledger pushed log l.broker l.outbox) :
    Ledger pushed (log ++ (l.handling? p at_ s).toList) (l.receive p at_ s).broker
      (l.receive p at_ s).outbox := by
  have hr := receives_receive p at_ s l
  rw [handling?]
  -- what is handled is told apart by what the receive leads to
  generalize l.receive p at_ s = l' at hr ⊢
  cases hr with
  | notReceiving hw =>
    rw [hw]
    simpa using h
  | closed hw hc =>
    rw [hw, broker_receive_of_closed hc]
    simpa using h.polled
  | nothing hw hc hn =>
    rw [hw, broker_receive_of_none hc hn]
    simpa using h.polled
  | message hw hc hn =>
    rw [hw, broker_receive_of_some hc hn]
    exact ledger_handled p at_ s h hn

theorem ledger_receives (s : Snapshot) (n : Nat) {l : Line}
    (h : Ledger pushed log l.broker l.outbox) :
    Ledger pushed (log ++ l.handlings p at_ s n) (l.receives p at_ s n).broker
      (l.receives p at_ s n).outbox := by
  induction n generalizing log l with
  | zero =>
    rw [handlings, List.append_nil]
    exact h
  | succ n ih =>
    rw [handlings, ← List.append_assoc]
    exact ih (ledger_receive p at_ s h)

/-- Settling enters what the task handles. -/
theorem ledger_settle (s : Snapshot) {l : Line} (hf : l.task.IsFree)
    (h : Ledger pushed log l.broker l.outbox) :
    Ledger pushed (log ++ l.settling p at_ s) (l.settle p at_ s).broker
      (l.settle p at_ s).outbox := by
  rw [settling, settle, finish_of_isFree p at_ hf]
  exact ledger_receives p at_ s _ h

end Line

end Consumption

namespace Subscription

open Consumption (Handling Ledger Line Task)

/-! ## Sites and operations -/

namespace Site

/-- The ledger of what a site holds. -/
def Accounts (pushed : List Message) (log : List Handling) (s : Site) : Prop :=
  Ledger pushed log s.broker s.outbox

/-- What is handled while the site settles. -/
def settling (c : Setup) (s : Site) : List Handling :=
  let s := s.dismiss c
  match s.task? with
  | none => []
  | some t => Line.settling c.processor c.moment s.snapshot ⟨s.broker, s.outbox, t⟩

variable {pushed : List Message} {log : List Handling}

theorem accounts_settle (c : Setup) {s : Site} (hr : s.Rested) (h : s.Accounts pushed log) :
    (s.settle c).Accounts pushed (log ++ s.settling c) := by
  rw [settling, dismiss_of_rested c hr]
  cases ht : s.task? with
  | none =>
    rw [settle_of_no_task c hr ht]
    simpa using h
  | some t =>
    rw [settle_of_rested c hr ht]
    exact Line.ledger_settle _ _ _ (hr.isFree t ht) h

end Site

namespace Operation

variable {pushed : List Message} {log : List Handling}

/-- What is handled in a settled step: the step itself handles nothing. -/
def settling (c : Setup) (s : Site) (o : Operation) : List Handling :=
  (o.stepDue c s).1.settling c

/-- What is handled during a whole operation. -/
def performing (c : Setup) (kind : Kind) (s : Site) : List Handling :=
  let first := settledStep c s ⟨kind, .querying⟩
  let second := settledStep c first.1 first.2
  settling c s ⟨kind, .querying⟩ ++ settling c first.1 first.2 ++ settling c second.1 second.2

theorem Moves.accounts {c : Setup} {s s' : Site} {o o' : Operation} (hm : Moves c s o s' o')
    (h : s.Accounts pushed log) : s'.Accounts pushed log := by
  obtain ⟨hpending, hcommitted, houtbox⟩ := hm.keeps_messages
  exact h.of_eq hpending hcommitted (congrArg Outbox.attempts houtbox)

theorem accounts_settledStep (c : Setup) {s : Site} (hr : s.Rested)
    (h : s.Accounts pushed log) (o : Operation) :
    (o.settledStep c s).1.Accounts pushed (log ++ o.settling c s) := by
  have h' : (stepDue c s o).1.Accounts pushed log :=
    stepDue_keeps (P := fun s _ => s.Accounts pushed log) Moves.accounts h
  rw [settledStep_eq]
  exact Site.accounts_settle c (rested_stepDue c hr o) h'

/-- An operation moves no messages but those that are handled between its steps. -/
theorem accounts_perform (c : Setup) (kind : Kind) {s : Site} (hr : s.Rested)
    (h : s.Accounts pushed log) :
    (perform c kind s).1.Accounts pushed (log ++ performing c kind s) := by
  let first := settledStep c s ⟨kind, .querying⟩
  let second := settledStep c first.1 first.2
  have hr₁ : first.1.Rested := (rested_settledStep c hr _).1
  have hr₂ : second.1.Rested := (rested_settledStep c hr₁ _).1
  have h₁ : first.1.Accounts pushed _ := accounts_settledStep c hr h _
  have h₂ : second.1.Accounts pushed _ := accounts_settledStep c hr₁ h₁ _
  have h₃ := accounts_settledStep c hr₂ h₂ second.2
  rw [List.append_assoc, List.append_assoc, ← List.append_assoc (settling c s _)] at h₃
  exact h₃

end Operation

end Subscription

end Reshape

/-
# Tasks that handle messages at once

Over a broker and an outbox that answer at once, a task that is not in the middle of a
message stays so: a receive handles a whole message or none (`receives_receive`).  So a
line that settles ends where its task has to wait (`waits_settle`), and no task of a site
is ever left with a message in hand (`rested_settle`).  Of a site, settling touches the
messages and the tasks only (`stays_settle`).
-/
import Mathlib.Tactic
import Reshape.Subscription

namespace Reshape

/-- What a broker was told, messages apart: what it is and was subscribed to, what it
refuses, and whether it is closed. -/
structure Broker.Terms where
  subscription : List String
  subscriptions : List (List String)
  refusingSubscribe : Bool
  refusingClose : Bool
  closed : Bool

/-- The terms on which a broker hands out messages. -/
def Broker.terms (b : Broker) : Terms :=
  ⟨b.subscription, b.subscriptions, b.refusingSubscribe, b.refusingClose, b.closed⟩

end Reshape

namespace Reshape.Consumption

open Processing (Moment Processor)

/-! ## Tasks between messages -/

/-- The task has no message in hand. -/
def Task.IsFree (t : Task) : Prop :=
  match t.phase with
  | .publishing .. | .committing _ => False
  | _ => True

/-- A new task has no message in hand. -/
theorem isFree_start (topics : Nat) : (Task.start topics).IsFree := by
  unfold Task.start
  split_ifs <;> trivial

/-- A task without a message in hand ends when it is told to stop. -/
theorem hasEnded_stop_of_isFree {t : Task} (h : t.IsFree) : t.stop.hasEnded = true := by
  obtain ⟨phase, stopping⟩ := t
  cases phase with
  | publishing m a => cases h
  | committing m => cases h
  | idle | receiving | pausing | ended => rfl

theorem isFree_of_hasEnded {t : Task} (h : t.hasEnded = true) : t.IsFree := by
  obtain ⟨phase, stopping⟩ := t
  cases phase <;> trivial

namespace Line

variable (p : Processor) (at_ : Moment)

/-! ## What a line does not touch -/

theorem terms_publish (l : Line) : (l.publish p at_).broker.terms = l.broker.terms := by
  unfold publish
  split <;> rfl

theorem terms_commit (l : Line) : (l.commit p at_).broker.terms = l.broker.terms := by
  unfold commit
  split <;> rfl

theorem terms_finish (l : Line) : (l.finish p at_).broker.terms = l.broker.terms := by
  rw [finish, terms_commit, terms_publish]

/-- A receive leaves the terms of a broker as they are. -/
theorem terms_broker_receive (b : Broker) : b.receive.1.terms = b.terms := by
  unfold Broker.receive
  simp only
  split
  · rfl
  · split <;> rfl

theorem terms_receive (s : Snapshot) (l : Line) :
    (l.receive p at_ s).broker.terms = l.broker.terms := by
  have hb := terms_broker_receive l.broker
  unfold receive
  split
  · split
    · rename_i broker h
      rw [h] at hb
      exact hb
    · rename_i broker f h
      rw [h] at hb
      exact hb
    · rename_i broker m h
      rw [h] at hb
      rw [terms_finish]
      exact hb
  · rfl

theorem terms_receives (s : Snapshot) (n : Nat) (l : Line) :
    (l.receives p at_ s n).broker.terms = l.broker.terms := by
  induction n generalizing l with
  | zero => rfl
  | succ n ih => rw [receives, ih, terms_receive]

theorem terms_settle (s : Snapshot) (l : Line) :
    (l.settle p at_ s).broker.terms = l.broker.terms := by
  rw [settle, terms_receives, terms_finish]

/-! ## What a receive can do -/

theorem broker_receive_of_closed {b : Broker} (hc : b.closed = true) :
    b.receive = ({ b with polled := true }, some (.error .closed)) := by
  unfold Broker.receive
  rw [if_pos hc]

theorem broker_receive_of_none {b : Broker} (hc : b.closed = false) (hn : b.next? = none) :
    b.receive = ({ b with polled := true }, none) := by
  have hn' : ({ b with polled := true } : Broker).next? = none := hn
  unfold Broker.receive
  rw [if_neg (Bool.eq_false_iff.1 hc), hn']

theorem broker_receive_of_some {b : Broker} {m : Message} {rest : List Message}
    (hc : b.closed = false) (hn : b.next? = some (m, rest)) :
    b.receive = ({ b with polled := true, pending := rest }, some (.ok m)) := by
  have hn' : ({ b with polled := true } : Broker).next? = some (m, rest) := hn
  unfold Broker.receive
  rw [if_neg (Bool.eq_false_iff.1 hc), hn']

/-- A task without a message in hand has nothing to finish. -/
theorem finish_of_isFree {l : Line} (h : l.task.IsFree) : l.finish p at_ = l := by
  obtain ⟨broker, outbox, ⟨phase, stopping⟩⟩ := l
  cases phase with
  | publishing m a => cases h
  | committing m => cases h
  | idle | receiving | pausing | ended => rfl

/-- The line after a whole message was handled: it is taken from the broker, its record is
offered to the outbox, and it is committed. -/
def handled (s : Snapshot) (l : Line) (m : Message) (rest : List Message) : Line where
  broker := ({ l.broker with polled := true, pending := rest } : Broker).commit m.origin
  outbox := (p.process at_ l.outbox m (s.get? m.topic)).1
  task := { l.task with phase := if l.task.stopping then .ended else .receiving }

/-- What a receive leads to. -/
inductive Receives (s : Snapshot) (l : Line) : Line → Prop
  | notReceiving (h : l.task.isReceiving = false) : Receives s l l
  | closed (h : l.task.isReceiving = true) (hc : l.broker.closed = true) :
      Receives s l
        { l with
          broker := { l.broker with polled := true }
          task := { l.task with phase := .ended } }
  | nothing (h : l.task.isReceiving = true) (hc : l.broker.closed = false)
      (hn : l.broker.next? = none) :
      Receives s l { l with broker := { l.broker with polled := true } }
  | message {m : Message} {rest : List Message} (h : l.task.isReceiving = true)
      (hc : l.broker.closed = false) (hn : l.broker.next? = some (m, rest)) :
      Receives s l (l.handled p at_ s m rest)

/-- Finishing a message that was just received is to process and to commit it. -/
theorem finish_taken (l : Line) (m : Message) (t? : Option Transform) (stopping : Bool) :
    Line.finish p at_ { l with task := ⟨Task.taken p at_ m t?, stopping⟩ } =
      { broker := l.broker.commit m.origin
        outbox := (p.process at_ l.outbox m t?).1
        task := ⟨if stopping then .ended else .receiving, stopping⟩ } := by
  cases ha : p.attempt? at_ m t? with
  | none =>
    simp [Task.taken, Processor.process, ha, finish, publish, commit, Task.request, Task.step]
  | some a =>
    simp [Task.taken, Processor.process, ha, finish, publish, commit, Task.request, Task.step]

/-- A receive handles one whole message, or none. -/
theorem receives_receive (s : Snapshot) (l : Line) : Receives p at_ s l (l.receive p at_ s) := by
  obtain ⟨broker, outbox, ⟨phase, stopping⟩⟩ := l
  cases phase with
  | receiving =>
    have hreq : (⟨.receiving, stopping⟩ : Task).request = .receive := rfl
    unfold receive
    simp only [hreq]
    cases hc : broker.closed with
    | true =>
      rw [broker_receive_of_closed hc]
      exact .closed rfl hc
    | false =>
      cases hn : broker.next? with
      | none =>
        rw [broker_receive_of_none hc hn]
        exact .nothing rfl hc hn
      | some found =>
        obtain ⟨m, rest⟩ := found
        rw [broker_receive_of_some hc hn]
        have hfin := finish_taken p at_
          ⟨{ broker with polled := true, pending := rest }, outbox, ⟨.receiving, stopping⟩⟩ m
          (s.get? m.topic) stopping
        have hm : Receives p at_ s ⟨broker, outbox, ⟨.receiving, stopping⟩⟩ _ :=
          .message rfl hc hn
        rw [handled, ← hfin] at hm
        exact hm
  | idle | publishing | committing | pausing | ended => exact .notReceiving rfl

/-! ## Tasks stay free -/

theorem isFree_handled (s : Snapshot) (l : Line) (m : Message) (rest : List Message) :
    (l.handled p at_ s m rest).task.IsFree := by
  unfold handled Task.IsFree
  cases l.task.stopping <;> trivial

theorem isFree_of_receives {s : Snapshot} {l l' : Line} (hr : Receives p at_ s l l')
    (h : l.task.IsFree) : l'.task.IsFree := by
  cases hr with
  | notReceiving | nothing => exact h
  | closed => trivial
  | message => exact isFree_handled p at_ s l _ _

theorem isFree_receives (s : Snapshot) (n : Nat) {l : Line} (h : l.task.IsFree) :
    (l.receives p at_ s n).task.IsFree := by
  induction n generalizing l with
  | zero => exact h
  | succ n ih => exact ih (isFree_of_receives p at_ (receives_receive p at_ s l) h)

theorem isFree_settle (s : Snapshot) {l : Line} (h : l.task.IsFree) :
    (l.settle p at_ s).task.IsFree := by
  rw [settle, finish_of_isFree p at_ h]
  exact isFree_receives p at_ s _ h

/-- A task that does not receive has nothing to do until it is told so. -/
theorem receives_of_not_receiving (s : Snapshot) (n : Nat) {l : Line}
    (h : l.task.isReceiving = false) : l.receives p at_ s n = l := by
  have hl : l.receive p at_ s = l := by
    obtain ⟨broker, outbox, ⟨phase, stopping⟩⟩ := l
    cases phase with
    | receiving => cases h
    | idle | publishing | committing | pausing | ended => rfl
  induction n with
  | zero => rfl
  | succ n ih => rw [receives, hl, ih]

theorem settle_of_hasEnded (s : Snapshot) {l : Line} (h : l.task.hasEnded = true) :
    l.settle p at_ s = l := by
  rw [settle, finish_of_isFree p at_ (isFree_of_hasEnded h)]
  apply receives_of_not_receiving
  obtain ⟨broker, outbox, ⟨phase, stopping⟩⟩ := l
  cases phase <;> first | rfl | cases h

/-! ## Tasks wait -/

/-- A task that receives waits for a message that the broker does not have. -/
def Waits (l : Line) : Prop :=
  l.task.isReceiving = true → l.broker.closed = false ∧ l.broker.next? = none

/-- A line that waits goes on waiting. -/
theorem waits_of_waits {s : Snapshot} {l l' : Line} (hr : Receives p at_ s l l')
    (h : l.Waits) : l'.Waits := by
  cases hr with
  | notReceiving => exact h
  | closed => exact fun he => nomatch he
  | nothing _ hc hn => exact fun _ => ⟨hc, hn⟩
  | message he hc hn =>
    have hnone := (h he).2
    rw [hn] at hnone
    cases hnone

/-- A receive takes a message or finds that there is none. -/
theorem waits_or_fewer {s : Snapshot} {l l' : Line} (hr : Receives p at_ s l l') :
    l'.Waits ∨ l'.broker.pending.length < l.broker.pending.length := by
  cases hr with
  | notReceiving h => exact .inl fun he => nomatch h.symm.trans he
  | closed => exact .inl fun he => nomatch he
  | nothing _ hc hn => exact .inl fun _ => ⟨hc, hn⟩
  | @message m rest _ hc hn =>
    have hlen := (Broker.perm_of_takeFirst? hn).length_eq
    rw [List.length_cons] at hlen
    right
    show rest.length < l.broker.pending.length
    omega

/-- One receive more than there are messages is enough. -/
theorem waits_receives (s : Snapshot) (n : Nat) {l : Line}
    (h : l.Waits ∨ l.broker.pending.length < n) : (l.receives p at_ s n).Waits := by
  -- on the receives left, over lines that wait or have fewer messages than receives left
  induction n generalizing l with
  | zero =>
    rcases h with h | h
    · exact h
    · exact absurd h (Nat.not_lt_zero _)
  | succ n ih =>
    have hr := receives_receive p at_ s l
    refine ih ?_
    rcases h with h | h
    · exact .inl (waits_of_waits p at_ hr h)
    · rcases waits_or_fewer p at_ hr with hw | hlt
      · exact .inl hw
      · exact .inr (by omega)

/-- **A line that settles ends where its task has to wait.** -/
theorem waits_settle (s : Snapshot) (l : Line) : (l.settle p at_ s).Waits :=
  waits_receives p at_ s _ (.inr (Nat.lt_succ_self _))

end Line

end Reshape.Consumption

namespace Reshape.Subscription

open Consumption (Line Task)

namespace Site

variable (c : Setup)

/-! ## Sites that rest -/

/-- No task of the site has a message in hand. -/
structure Rested (s : Site) : Prop where
  leaving : s.leaving = []
  isFree : ∀ t, s.task? = some t → t.IsFree

/-- The task of the site waits, if it has one. -/
def Waits (s : Site) : Prop := ∀ t, s.task? = some t → Line.Waits ⟨s.broker, s.outbox, t⟩

theorem dismiss_of_rested {s : Site} (h : s.Rested) : s.dismiss c = s := by
  obtain ⟨store, broker, outbox, snapshot, topics, subscribed, task?, leaving⟩ := s
  have hl : leaving = [] := h.leaving
  subst hl
  rfl

/-- Where nothing leaves, settling is what the task does. -/
theorem settle_of_rested {s : Site} (h : s.Rested) {t : Task} (ht : s.task? = some t) :
    s.settle c =
      { s with
        broker := (Line.settle c.processor c.moment s.snapshot ⟨s.broker, s.outbox, t⟩).broker
        outbox := (Line.settle c.processor c.moment s.snapshot ⟨s.broker, s.outbox, t⟩).outbox
        task? := some
          (Line.settle c.processor c.moment s.snapshot ⟨s.broker, s.outbox, t⟩).task } := by
  unfold settle
  simp only [dismiss_of_rested c h, ht]

theorem settle_of_no_task {s : Site} (h : s.Rested) (ht : s.task? = none) :
    s.settle c = s := by
  unfold settle
  simp only [dismiss_of_rested c h, ht]

theorem rested_settle {s : Site} (h : s.Rested) : (s.settle c).Rested := by
  cases ht : s.task? with
  | none =>
    rw [settle_of_no_task c h ht]
    exact h
  | some t =>
    rw [settle_of_rested c h ht]
    refine ⟨h.leaving, ?_⟩
    intro t' ht'
    obtain rfl := Option.some.inj ht'
    exact Line.isFree_settle _ _ _ (h.isFree t ht)

theorem waits_settle {s : Site} (h : s.Rested) : (s.settle c).Waits := by
  cases ht : s.task? with
  | none =>
    rw [settle_of_no_task c h ht]
    intro t ht'
    rw [ht] at ht'
    cases ht'
  | some t =>
    rw [settle_of_rested c h ht]
    intro t' ht'
    obtain rfl := Option.some.inj ht'
    exact Line.waits_settle _ _ _ _

/-- The task before a new one has ended already, so nothing comes to leave. -/
theorem rested_startTask {s : Site} (h : s.Rested) (topics : Nat) :
    (s.startTask topics).Rested := by
  constructor
  · show s.leaving ++ _ = []
    rw [h.leaving, List.nil_append, List.filter_eq_nil_iff]
    intro t ht
    obtain ⟨t', ht', rfl⟩ : ∃ t', s.task? = some t' ∧ t'.stop = t := by simpa using ht
    rw [Consumption.hasEnded_stop_of_isFree (h.isFree t' ht')]
    decide
  · intro t ht
    obtain rfl := Option.some.inj ht
    exact Consumption.isFree_start topics

theorem taskEnded_stopTask {s : Site} (h : s.Rested) : s.stopTask.taskEnded = true := by
  rw [taskEnded, Option.all_eq_true]
  intro t ht
  obtain ⟨t', ht', rfl⟩ : ∃ t', s.task? = some t' ∧ t'.stop = t := by
    simpa [stopTask] using ht
  exact Consumption.hasEnded_stop_of_isFree (h.isFree t' ht')

theorem rested_stopTask {s : Site} (h : s.Rested) : s.stopTask.Rested := by
  refine ⟨h.leaving, ?_⟩
  intro t ht
  have he := Option.all_eq_true _ _ |>.1 (taskEnded_stopTask h) t ht
  exact Consumption.isFree_of_hasEnded he

theorem taskEnded_settle {s : Site} (h : s.Rested) (he : s.taskEnded = true) :
    (s.settle c).taskEnded = true := by
  cases ht : s.task? with
  | none =>
    rw [settle_of_no_task c h ht]
    exact he
  | some t =>
    have hended : t.hasEnded = true := by
      rw [taskEnded, ht] at he
      exact he
    rw [settle_of_rested c h ht, Line.settle_of_hasEnded _ _ _ hended]
    exact hended

/-! ## What settling does not touch -/

/-- What settling leaves as it was: what is noted at the site, and what its broker was
told. -/
structure Stays (s s' : Site) : Prop where
  snapshot : s'.snapshot = s.snapshot
  topics : s'.topics = s.topics
  subscribed : s'.subscribed = s.subscribed
  terms : s'.broker.terms = s.broker.terms

theorem Stays.trans {s s' s'' : Site} (h : s.Stays s') (h' : s'.Stays s'') : s.Stays s'' where
  snapshot := h'.snapshot.trans h.snapshot
  topics := h'.topics.trans h.topics
  subscribed := h'.subscribed.trans h.subscribed
  terms := h'.terms.trans h.terms

theorem stays_dismiss (s : Site) : s.Stays (s.dismiss c) := by
  unfold dismiss
  refine List.foldlRecOn s.leaving _ (motive := s.Stays) ⟨rfl, rfl, rfl, rfl⟩ ?_
  intro s' h t _
  exact h.trans ⟨rfl, rfl, rfl, Line.terms_finish _ _ _⟩

/-- Settling touches the messages and the tasks only. -/
theorem stays_settle (s : Site) : s.Stays (s.settle c) := by
  have hd := stays_dismiss c s
  unfold settle
  cases ht : (s.dismiss c).task? with
  | none =>
    simp only [ht]
    exact hd
  | some t =>
    simp only [ht]
    exact hd.trans ⟨rfl, rfl, rfl, Line.terms_settle _ _ _ _⟩

end Site

end Reshape.Subscription

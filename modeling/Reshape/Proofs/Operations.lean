/-
# What an operation can do

One step of a start or a refresh, case by case.  `Operation.Moves` lists the cases with
what the step finds and what it leaves, and `moves_step` says that there are no others.
What an operation keeps is read off the list: the messages and what was published of
them (`Moves.keeps_messages`), and that no task has a message in hand
(`Moves.keeps_rested`).  Where no task has, an operation needs no more than three steps
(`perform_answers`).
-/
import Mathlib.Tactic
import Reshape.Proofs.Settling

namespace Reshape.Subscription

open Consumption (Line Task)

/-! ## The cases of a step -/

/-- The site after its store was queried. -/
def Site.queried (s : Site) : Site := { s with store := s.store.queried }

/-- The site after its broker was subscribed to topics. -/
def Site.resubscribed (s : Site) (topics : List String) : Site :=
  { s with broker := (s.broker.subscribe topics).1 }

/-- The site after a snapshot was put in force that needs so many topics. -/
def Site.renewed (s : Site) (fresh : Snapshot) (topics : List String) : Site :=
  ({ s with subscribed := topics }.install fresh).startTask topics.length

namespace Operation

/-- What a step of an operation at a site leads to. -/
inductive Moves (c : Setup) (s : Site) : Operation → Site → Operation → Prop
  | unanswered {kind : Kind} {f : Store.Fault}
      (h : Snapshot.load c.engine c.workspace? s.store = .error f) :
      Moves c s ⟨kind, .querying⟩ s.queried ⟨kind, .finished (.error (.store f))⟩
  | loadedStart {fresh : Snapshot}
      (h : Snapshot.load c.engine c.workspace? s.store = .ok fresh) :
      Moves c s ⟨.start, .querying⟩ s.queried ⟨.start, .subscribing fresh⟩
  | loadedKnown {fresh : Snapshot}
      (h : Snapshot.load c.engine c.workspace? s.store = .ok fresh)
      (hnew : newTopics s.topics fresh = []) :
      Moves c s ⟨.refresh, .querying⟩ (s.queried.install fresh)
        ⟨.refresh, .finished (.ok (report s.topics fresh))⟩
  | loadedNew {fresh : Snapshot}
      (h : Snapshot.load c.engine c.workspace? s.store = .ok fresh)
      (hnew : newTopics s.topics fresh ≠ []) :
      Moves c s ⟨.refresh, .querying⟩ s.queried.stopTask ⟨.refresh, .stopping fresh⟩
  | stopped {kind : Kind} {fresh : Snapshot} (h : s.taskEnded = true) :
      Moves c s ⟨kind, .stopping fresh⟩ { s with task? := none } ⟨kind, .subscribing fresh⟩
  | waiting {kind : Kind} {fresh : Snapshot} (h : s.taskEnded = false) :
      Moves c s ⟨kind, .stopping fresh⟩ s ⟨kind, .stopping fresh⟩
  | turnedDown {kind : Kind} {fresh : Snapshot} {f : TransportFault}
      (h : s.broker.refusingSubscribe = true)
      (hf : (s.broker.subscribe (wanted kind s fresh)).2 = .error f) :
      Moves c s ⟨kind, .subscribing fresh⟩ (refused kind s)
        ⟨kind, .finished (.error (.transport f))⟩
  | subscribed {kind : Kind} {fresh : Snapshot} (h : s.broker.refusingSubscribe = false) :
      Moves c s ⟨kind, .subscribing fresh⟩ (s.resubscribed (wanted kind s fresh))
        ⟨kind, .installing fresh (wanted kind s fresh)⟩
  | installed {kind : Kind} {fresh : Snapshot} {topics : List String} :
      Moves c s ⟨kind, .installing fresh topics⟩ (s.renewed fresh topics)
        ⟨kind, .finished (.ok (report s.topics fresh))⟩
  | rested {kind : Kind} {answer : Except Fault Report} :
      Moves c s ⟨kind, .finished answer⟩ s ⟨kind, .finished answer⟩

/-- A step of an operation is one of the listed cases. -/
theorem moves_step (c : Setup) (s : Site) (o : Operation) :
    Moves c s o (o.step c s).1 (o.step c s).2 := by
  obtain ⟨kind, phase⟩ := o
  cases phase with
  | querying =>
    cases h : Snapshot.load c.engine c.workspace? s.store with
    | error f =>
      simp only [step, h]
      exact .unanswered h
    | ok fresh =>
      cases kind with
      | start =>
        simp only [step, h]
        exact .loadedStart h
      | refresh =>
        by_cases hnew : newTopics s.topics fresh = []
        · simp only [step, h, loaded, hnew, List.isEmpty_nil, if_true]
          exact .loadedKnown h hnew
        · simp only [step, h, loaded, List.isEmpty_iff, hnew, if_false]
          exact .loadedNew h hnew
  | stopping fresh =>
    cases h : s.taskEnded with
    | true =>
      simp only [step, h, if_true]
      exact .stopped h
    | false =>
      simp only [step, h, Bool.false_eq_true, if_false]
      exact .waiting h
  | subscribing fresh =>
    cases h : s.broker.refusingSubscribe with
    | true =>
      simp only [step, Broker.subscribe, h, if_true]
      exact .turnedDown h (by rw [Broker.subscribe, if_pos h])
    | false =>
      simp only [step, Broker.subscribe, h, Bool.false_eq_true, if_false]
      have hm : Moves c s ⟨kind, .subscribing fresh⟩ _ _ := .subscribed h
      rwa [Site.resubscribed, Broker.subscribe, h] at hm
  | installing fresh topics => exact .installed
  | finished answer => exact .rested

/-! ## What a step keeps -/

variable {c : Setup} {s s' : Site} {o o' : Operation}

/-- An operation moves no messages: none are taken, published or committed by it. -/
theorem Moves.keeps_messages (h : Moves c s o s' o') :
    s'.broker.pending = s.broker.pending ∧ s'.broker.committed = s.broker.committed
      ∧ s'.outbox = s.outbox := by
  cases h with
  | @subscribed kind fresh h =>
    refine ⟨?_, ?_, rfl⟩ <;> rw [Site.resubscribed, Broker.subscribe, h] <;> rfl
  | @turnedDown kind => cases kind <;> exact ⟨rfl, rfl, rfl⟩
  | unanswered | loadedStart | loadedKnown | loadedNew | stopped | waiting | installed | rested =>
    exact ⟨rfl, rfl, rfl⟩

/-- Tasks without a message in hand are all that an operation leaves. -/
theorem Moves.keeps_rested (h : Moves c s o s' o') (hs : s.Rested) : s'.Rested := by
  cases h with
  | loadedNew => exact Site.rested_stopTask (s := s.queried) ⟨hs.leaving, hs.isFree⟩
  | stopped =>
    refine ⟨hs.leaving, ?_⟩
    intro t ht
    cases ht
  | @turnedDown kind =>
    cases kind with
    | start => exact hs
    | refresh => exact Site.rested_startTask hs _
  | @installed kind fresh topics =>
    exact Site.rested_startTask (s := { s with subscribed := topics }.install fresh)
      ⟨hs.leaving, hs.isFree⟩ topics.length
  | unanswered | loadedStart | loadedKnown | subscribed => exact ⟨hs.leaving, hs.isFree⟩
  | waiting | rested => exact hs

/-! ## Whole operations -/

/-- The site and the operation after a step, and after the snapshot was put in force that
may be due then. -/
def stepDue (c : Setup) (s : Site) (o : Operation) : Site × Operation :=
  (o.step c s).2.installDue c (o.step c s).1

theorem settledStep_eq (c : Setup) (s : Site) (o : Operation) :
    settledStep c s o = ((stepDue c s o).1.settle c, (stepDue c s o).2) := rfl

/-- What every move keeps is kept by a step and the installation after it. -/
theorem stepDue_keeps {P : Site → Operation → Prop}
    (hmove : ∀ {s o s' o'}, Moves c s o s' o' → P s o → P s' o') (h : P s o) :
    P (stepDue c s o).1 (stepDue c s o).2 := by
  have hs := hmove (moves_step c s o) h
  rw [stepDue, installDue]
  split
  · exact hmove (moves_step c _ _) hs
  · exact hs

theorem rested_stepDue (c : Setup) {s : Site} (h : s.Rested) (o : Operation) :
    (stepDue c s o).1.Rested :=
  stepDue_keeps (P := fun s _ => s.Rested) Moves.keeps_rested h

/-- A settled step leaves no message in hand, and the task waits. -/
theorem rested_settledStep (c : Setup) {s : Site} (h : s.Rested) (o : Operation) :
    (settledStep c s o).1.Rested ∧ (settledStep c s o).1.Waits := by
  have hd := rested_stepDue c h o
  rw [settledStep_eq]
  exact ⟨Site.rested_settle c hd, Site.waits_settle c hd⟩

/-- So does a whole operation. -/
theorem rested_perform (c : Setup) (kind : Kind) {s : Site} (h : s.Rested) :
    (perform c kind s).1.Rested ∧ (perform c kind s).1.Waits := by
  let first := settledStep c s ⟨kind, .querying⟩
  have h₁ : first.1.Rested := (rested_settledStep c h _).1
  have h₂ := (rested_settledStep c h₁ first.2).1
  exact rested_settledStep c h₂ _

/-- How many settled steps an operation may still need. -/
def rank (o : Operation) : Nat :=
  match o.phase with
  | .querying => 3
  | .stopping _ => 2
  | .subscribing _ | .installing .. => 1
  | .finished _ => 0

/-- An operation that stops the task does not have to wait for it. -/
def Ready (o : Operation) (s : Site) : Prop :=
  match o.phase with
  | .stopping _ => s.taskEnded = true
  | _ => True

theorem answer_of_rank {o : Operation} (h : o.rank ≤ 0) : ∃ answer, o.answer? = some answer := by
  obtain ⟨kind, phase⟩ := o
  cases phase with
  | finished answer => exact ⟨answer, rfl⟩
  | querying | stopping | subscribing | installing => simp [rank] at h

theorem ready_stepDue (c : Setup) {s : Site} {o : Operation} (hs : s.Rested)
    (h : o.Ready s) :
    (stepDue c s o).2.Ready (stepDue c s o).1 ∧ (stepDue c s o).2.rank ≤ o.rank - 1 := by
  have hm := moves_step c s o
  rw [stepDue]
  generalize o.step c s = after at hm ⊢
  obtain ⟨s', o'⟩ := after
  cases hm with
  | loadedNew =>
    -- the task was between two messages, so it ended as soon as it was told to stop
    have hq : s.queried.Rested := ⟨hs.leaving, hs.isFree⟩
    exact ⟨Site.taskEnded_stopTask hq, Nat.le_of_ble_eq_true rfl⟩
  | waiting hw =>
    rw [Ready, hw] at h
    cases h
  | unanswered | loadedStart | loadedKnown | stopped | turnedDown | subscribed | installed
  | rested => exact ⟨trivial, Nat.le_of_ble_eq_true rfl⟩

theorem ready_settledStep (c : Setup) {s : Site} {o : Operation} (hs : s.Rested)
    (h : o.Ready s) :
    (settledStep c s o).2.Ready (settledStep c s o).1
      ∧ (settledStep c s o).2.rank ≤ o.rank - 1 := by
  have hr := rested_stepDue c hs o
  obtain ⟨hready, hrank⟩ := ready_stepDue c hs h
  rw [settledStep_eq]
  refine ⟨?_, hrank⟩
  generalize stepDue c s o = after at hr hready
  obtain ⟨s', kind, phase⟩ := after
  cases phase with
  | stopping fresh => exact Site.taskEnded_settle c hr hready
  | querying | subscribing | installing | finished => trivial

/-- **An operation on a site that rests is answered.** -/
theorem perform_answers (c : Setup) (kind : Kind) {s : Site} (hs : s.Rested) :
    ∃ answer, (perform c kind s).2 = some answer := by
  have h₀ : Ready ⟨kind, .querying⟩ s := trivial
  obtain ⟨h₁, hr₁⟩ := ready_settledStep c hs h₀
  have hs₁ := (rested_settledStep c hs ⟨kind, .querying⟩).1
  -- each settled step lowers the rank, and it was three at the beginning
  obtain ⟨h₂, hr₂⟩ := ready_settledStep c hs₁ h₁
  obtain ⟨-, hr₃⟩ := ready_settledStep c (rested_settledStep c hs₁ _).1 h₂
  have h₃ : rank ⟨kind, .querying⟩ = 3 := rfl
  refine answer_of_rank (hr₃.trans ?_)
  omega

end Operation

end Reshape.Subscription

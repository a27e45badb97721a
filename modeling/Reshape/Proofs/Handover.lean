/-
# Handing over

A manager gives its work from one task to the next.  A stop ends the task, a refresh that
finds new topics ends it and begins another, and both wait until it has committed the
message in hand.  A start puts a new task in its place and does not wait: the task that it
finds is told to stop, and leaves when it has done with its message.  Calls come one after
another, but between any two steps the tasks go on, each as slowly as its publishings are.

As long as no start finds a message in hand, what is seen of the messages is what would be
seen of them if one task handled them all (`InTurn`), whoever takes its place.  Every step
keeps that (`sound_after`), and so does every history (`messages_are_handed_over_in_turn`).
A start that does find one lets the new task overtake the one that leaves
(`start_overtakes`).
-/
import Mathlib.Tactic
import Reshape.Proofs.Laps
import Reshape.Proofs.Operations

namespace Reshape.Consumption

open Processing (Moment Processor)

/-! ## Messages in hand -/

/-- The task has a message in hand. -/
def Task.isBusy (t : Task) : Bool :=
  match t.phase with
  | .publishing .. | .committing _ => true
  | _ => false

theorem isBusy_eq_false_iff {t : Task} : t.isBusy = false ↔ t.IsFree := by
  obtain ⟨phase, stopping⟩ := t
  cases phase with
  | publishing | committing => exact ⟨(fun h => nomatch h), (fun h => h.elim)⟩
  | idle | receiving | pausing | ended => exact iff_of_true rfl trivial

/-- Told to stop, a task goes on exactly if it has a message in hand. -/
theorem hasEnded_stop (t : Task) : t.stop.hasEnded = !t.isBusy := by
  obtain ⟨phase, stopping⟩ := t
  cases phase <;> rfl

/-- A task that has ended stays so, whatever it is told. -/
theorem step_of_hasEnded (p : Processor) (at_ : Moment) {t : Task} (input : Task.Input)
    (h : t.hasEnded = true) : t.step p at_ input = t ∨ t.step p at_ input = ⟨.ended, true⟩ := by
  obtain ⟨phase, stopping⟩ := t
  cases phase with
  | ended =>
    by_cases hs : input = .stop
    · subst hs
      exact .inr (step_stop p at_ _)
    · exact .inl (step_eq_self (by cases input <;> rfl) hs)
  | idle | receiving | publishing | committing | pausing => cases h

/-! ## Marks of messages -/

/-- The mark is one of a message, and not of waiting for one. -/
def Mark.isOfMessage : Mark → Bool
  | .asked .receive | .asked .pause | .told (.receiveFailed _) | .told .pauseOver => false
  | _ => true

/-- What was seen of messages. -/
def handling (seen : List Mark) : List Mark := seen.filter Mark.isOfMessage

theorem handling_append (a b : List Mark) : handling (a ++ b) = handling a ++ handling b :=
  List.filter_append ..

theorem received_handling (seen : List Mark) : received (handling seen) = received seen := by
  rw [received, received, handling, List.filterMap_filter]
  congr 1
  funext mark
  cases mark with
  | asked r => cases r <;> rfl
  | told input => cases input <;> rfl

theorem commits_handling (seen : List Mark) : commits (handling seen) = commits seen := by
  rw [commits, commits, handling, List.filterMap_filter]
  congr 1
  funext mark
  cases mark with
  | asked r => cases r <;> rfl
  | told input => cases input <;> rfl

/-- Between two messages nothing is seen of them. -/
theorem handling_cut {p : Processor} {t : Task} {cut : List Mark} (hcut : Cut p t.phase cut)
    (h : t.IsFree) : handling cut = [] := by
  obtain ⟨phase, stopping⟩ := t
  cases hcut with
  | publishing | committing => cases h
  | idle | receiving | pausing | endedBetween | endedReceiving | endedClosed | endedPausing => rfl

/-- A task without a message in hand is at a place in a lap. -/
theorem exists_cut {p : Processor} {t : Task} (h : t.IsFree) : ∃ cut, Cut p t.phase cut := by
  obtain ⟨phase, stopping⟩ := t
  cases phase with
  | publishing | committing => cases h
  | idle => exact ⟨_, .idle⟩
  | receiving => exact ⟨_, .receiving⟩
  | pausing => exact ⟨_, .pausing .closed⟩
  | ended => exact ⟨_, .endedBetween⟩

/-! ## One task after the other -/

/-- What was seen of messages is what would be seen of them if one task had handled them
all and were now where `t` is. -/
def InTurn (p : Processor) (t : Task) (seen : List Mark) : Prop :=
  ∃ whole, Along p t whole ∧ handling seen = handling whole

namespace InTurn

variable {p : Processor} {t t' : Task} {seen : List Mark}

theorem step (h : InTurn p t seen) (at_ : Moment) (input : Task.Input) :
    InTurn p (t.step p at_ input) (seen ++ t.marks p at_ input) := by
  obtain ⟨whole, hw, hseen⟩ := h
  exact ⟨_, along_step at_ input hw, by rw [handling_append, handling_append, hseen]⟩

theorem stop (h : InTurn p t seen) : InTurn p t.stop seen := by
  obtain ⟨whole, hw, hseen⟩ := h
  exact ⟨whole, along_stop hw, hseen⟩

/-- **A task without a message in hand can be replaced** by another one without. -/
theorem handOver (h : InTurn p t seen) (ht : t.IsFree) (ht' : t'.IsFree) :
    InTurn p t' seen := by
  obtain ⟨whole, ⟨laps, cut, rfl, hcut⟩, hseen⟩ := h
  obtain ⟨cut', hcut'⟩ := exists_cut (p := p) ht'
  refine ⟨lapMarks p laps ++ cut', ⟨laps, cut', rfl, hcut'⟩, ?_⟩
  rw [hseen, handling_append, handling_append, handling_cut hcut ht, handling_cut hcut' ht']

/-- The messages are handled one by one, each as in a lap of its own. -/
theorem exists_laps (h : InTurn p t seen) :
    ∃ laps, handling seen <+: handling (lapMarks p laps) := by
  obtain ⟨whole, hw, hseen⟩ := h
  obtain ⟨laps, hlaps⟩ := prefix_of_along hw
  exact ⟨laps, hseen ▸ hlaps.filter _⟩

/-- They are committed in the order in which they are received. -/
theorem received_eq (h : InTurn p t seen) :
    (received seen).map Message.origin = commits seen ++ t.phase.owed := by
  obtain ⟨whole, hw, hseen⟩ := h
  rw [← received_handling, ← commits_handling, hseen, received_handling, commits_handling]
  exact received_along hw

end InTurn

end Reshape.Consumption

namespace Reshape.Subscription

open Consumption
open Processing (Moment)

/-! ## The tasks of a site -/

namespace Site

/-- The task of the site; where there is none, it is as if it had ended. -/
def current (s : Site) : Task := s.task?.getD ⟨.ended, true⟩

/-- The tasks that have a message in hand. -/
def inHand (s : Site) : List Task := (s.current :: s.leaving).filter Task.isBusy

theorem taskEnded_eq (s : Site) : s.taskEnded = s.current.hasEnded := by
  obtain ⟨store, broker, outbox, snapshot, topics, subscribed, task?, leaving⟩ := s
  cases task? <;> rfl

theorem current_stopTask (s : Site) : s.stopTask.current = s.current.stop := by
  obtain ⟨store, broker, outbox, snapshot, topics, subscribed, task?, leaving⟩ := s
  cases task? <;> rfl

/-- The task before a new one leaves, if it has a message in hand. -/
theorem leaving_startTask (s : Site) (topics : Nat) :
    (s.startTask topics).leaving =
      s.leaving ++ if s.current.isBusy then [s.current.stop] else [] := by
  obtain ⟨store, broker, outbox, snapshot, names, subscribed, task?, leaving⟩ := s
  cases task? with
  | none => rfl
  | some t =>
    have hold : [t.stop].filter (fun t => !t.hasEnded) = if t.isBusy then [t.stop] else [] := by
      rw [List.filter_singleton, hasEnded_stop, Bool.not_not]
      cases t.isBusy <;> rfl
    exact congrArg (leaving ++ ·) hold

/-- The tasks of the site, with everything else as another site has it. -/
def withTasks (s other : Site) : Site :=
  { other with task? := s.task?, leaving := s.leaving }

end Site

namespace Operation

/-- The next step of the operation puts a task in the place of one with a message in hand,
and does not wait for it. -/
def displaces (o : Operation) (s : Site) : Bool :=
  match o.phase with
  | .installing .. => o.kind = .start && s.current.isBusy
  | _ => false

/-- Past the stop of a refresh there is no task. -/
def Cleared (o : Operation) (s : Site) : Prop :=
  match o.phase with
  | .subscribing _ | .installing .. => o.kind = .refresh → s.current.hasEnded = true
  | _ => True

variable {c : Setup} {s s' : Site} {o o' : Operation}

/-- **What becomes of the tasks in a step of an operation.**  The current one stays, is told
to stop, or makes room for one without a message in hand, and then has none itself unless it
is displaced.  Only if it is, it leaves. -/
theorem Moves.tasks (h : Moves c s o s' o') (hc : o.Cleared s) :
    s'.leaving = s.leaving ++ (if o.displaces s then [s.current.stop] else [])
      ∧ (o.displaces s = false ∧ (s'.current = s.current ∨ s'.current = s.current.stop)
        ∨ (o.displaces s = false → s.current.IsFree) ∧ s'.current.IsFree)
      ∧ o'.Cleared s' := by
  -- a task that has ended makes room and does not leave
  have hroom {n : Nat} (he : s.current.hasEnded = true) :
      (s.startTask n).leaving = s.leaving ++ [] ∧ s.current.IsFree := by
    have hfree := isFree_of_hasEnded he
    rw [Site.leaving_startTask, isBusy_eq_false_iff.2 hfree]
    exact ⟨rfl, hfree⟩
  cases h with
  | unanswered | loadedKnown | waiting | rested =>
    exact ⟨(List.append_nil _).symm, .inl ⟨rfl, .inl rfl⟩, trivial⟩
  | loadedStart =>
    exact ⟨(List.append_nil _).symm, .inl ⟨rfl, .inl rfl⟩, fun hk => nomatch hk⟩
  | loadedNew =>
    exact ⟨(List.append_nil _).symm, .inl ⟨rfl, .inr (Site.current_stopTask s.queried)⟩, trivial⟩
  | stopped he =>
    rw [Site.taskEnded_eq] at he
    exact ⟨(List.append_nil _).symm, .inr ⟨fun _ => isFree_of_hasEnded he, trivial⟩,
      fun _ => rfl⟩
  | @turnedDown kind =>
    cases kind with
    | start => exact ⟨(List.append_nil _).symm, .inl ⟨rfl, .inl rfl⟩, trivial⟩
    | refresh =>
      obtain ⟨hleaving, hfree⟩ := hroom (n := s.subscribed.length) (hc rfl)
      exact ⟨hleaving, .inr ⟨fun _ => hfree, isFree_start _⟩, trivial⟩
  | subscribed => exact ⟨(List.append_nil _).symm, .inl ⟨rfl, .inl rfl⟩, hc⟩
  | @installed kind fresh topics =>
    cases kind with
    | start =>
      exact ⟨Site.leaving_startTask _ topics.length,
        .inr ⟨fun hb => isBusy_eq_false_iff.1 hb, isFree_start _⟩, trivial⟩
    | refresh =>
      obtain ⟨hleaving, hfree⟩ := hroom (n := topics.length) (hc rfl)
      exact ⟨hleaving, .inr ⟨fun _ => hfree, isFree_start _⟩, trivial⟩

end Operation

/-! ## Managers and their tasks -/

/-- What a manager was called to do. -/
inductive Duty
  | operation (o : Operation)
  | halt

/-- A site with the call that is under way, all that was seen of its tasks, and how many of
these a start has displaced. -/
structure Relay where
  site : Site
  duty? : Option Duty := none
  trace : List Consumption.Mark := []
  displaced : Nat := 0

namespace Relay

/-- What may happen next: an operation or a stop is called, the call under way goes on, the
current task or one that leaves is told something, or something changes that is no task. -/
inductive Event
  | operate (kind : Kind)
  | halt
  | proceed
  | told (at_ : Moment) (input : Task.Input)
  | leaverTold (i : Nat) (at_ : Moment) (input : Task.Input)
  | elsewhere (other : Site)

/-- A start or a refresh is called. -/
def operate (m : Relay) (kind : Kind) : Relay :=
  if m.duty?.isNone then { m with duty? := some (.operation ⟨kind, .querying⟩) } else m

/-- A stop is called: the current task is told to stop. -/
def halt (m : Relay) : Relay :=
  if m.duty?.isNone then { m with site := m.site.stopTask, duty? := some .halt } else m

/-- The call under way goes on by a step.  A stop waits until the task has ended. -/
def proceed (c : Setup) (m : Relay) : Relay :=
  match m.duty? with
  | none => m
  | some .halt =>
    if m.site.taskEnded then { m with site := { m.site with task? := none }, duty? := none }
    else m
  | some (.operation o) =>
    { m with
      site := (o.step c m.site).1
      duty? :=
        if (o.step c m.site).2.answer?.isNone then some (.operation (o.step c m.site).2)
        else none
      displaced := m.displaced + if o.displaces m.site then 1 else 0 }

/-- The current task is told something. -/
def tell (c : Setup) (m : Relay) (at_ : Moment) (input : Task.Input) : Relay :=
  { m with
    site := { m.site with task? := m.site.task?.map fun t => t.step c.processor at_ input }
    trace := m.trace ++ m.site.current.marks c.processor at_ input }

/-- A task that leaves is told something. -/
def tellLeaver (c : Setup) (m : Relay) (i : Nat) (at_ : Moment) (input : Task.Input) : Relay :=
  match m.site.leaving[i]? with
  | none => m
  | some t =>
    { m with
      site := { m.site with leaving := m.site.leaving.set i (t.step c.processor at_ input) }
      trace := m.trace ++ t.marks c.processor at_ input }

/-- The manager and its tasks after something happened; one call at a time is under way. -/
def after (c : Setup) (m : Relay) : Event → Relay
  | .operate kind => m.operate kind
  | .halt => m.halt
  | .proceed => m.proceed c
  | .told at_ input => m.tell c at_ input
  | .leaverTold i at_ input => m.tellLeaver c i at_ input
  | .elsewhere other => { m with site := m.site.withTasks other }

/-- The manager and its tasks after several things happened in order. -/
def follow (c : Setup) (m : Relay) (history : List Event) : Relay := history.foldl (after c) m

/-! ### What stays true -/

/-- What is true of a manager and its tasks at all times. -/
structure Sound (c : Setup) (m : Relay) : Prop where
  leaving : m.site.leaving.length = m.displaced
  finishing : ∀ t ∈ m.site.leaving, t.Finishing
  cleared : ∀ o, m.duty? = some (.operation o) → o.Cleared m.site
  inTurn : m.displaced = 0 → InTurn c.processor m.site.current m.trace

variable {c : Setup} {m : Relay}

theorem current_tell (at_ : Moment) (input : Task.Input) :
    (m.tell c at_ input).site.current = m.site.current.step c.processor at_ input := by
  obtain ⟨⟨store, broker, outbox, snapshot, topics, subscribed, task?, leaving⟩, _, _, _⟩ := m
  cases task? with
  | none =>
    rcases step_of_hasEnded c.processor at_ (t := ⟨.ended, true⟩) input rfl with h | h <;>
      exact h.symm
  | some t => rfl

/-- The current task goes on by itself. -/
theorem sound_tell (h : m.Sound c) (at_ : Moment) (input : Task.Input) :
    (m.tell c at_ input).Sound c := by
  refine ⟨h.leaving, h.finishing, fun o ho => ?_, fun hd => ?_⟩
  · have hc := h.cleared o ho
    obtain ⟨kind, phase⟩ := o
    have hkeeps (he : m.site.current.hasEnded = true) :
        (m.tell c at_ input).site.current.hasEnded = true := by
      rw [current_tell]
      rcases step_of_hasEnded c.processor at_ input he with h | h <;> rw [h]
      · exact he
      · rfl
    cases phase with
    | subscribing | installing => exact fun hk => hkeeps (hc hk)
    | querying | stopping | finished => trivial
  · rw [current_tell]
    exact (h.inTurn hd).step at_ input

/-- One that leaves receives nothing more, and there is none before one is displaced. -/
theorem sound_tellLeaver (h : m.Sound c) (i : Nat) (at_ : Moment) (input : Task.Input) :
    (m.tellLeaver c i at_ input).Sound c := by
  unfold tellLeaver
  cases ht : m.site.leaving[i]? with
  | none => exact h
  | some t =>
    refine ⟨(List.length_set).trans h.leaving, fun t' ht' => ?_, h.cleared, fun hd => ?_⟩
    · rcases List.mem_or_eq_of_mem_set ht' with hmem | rfl
      · exact h.finishing t' hmem
      · exact (finishing_step at_ input (h.finishing t (List.mem_of_getElem? ht))).1
    · rw [List.eq_nil_of_length_eq_zero (h.leaving.trans hd)] at ht
      cases ht

/-- A call goes on: a stop and a refresh wait for the message in hand. -/
theorem sound_proceed (h : m.Sound c) : (m.proceed c).Sound c := by
  unfold proceed
  split
  · exact h
  · split
    · rename_i he
      rw [Site.taskEnded_eq] at he
      exact ⟨h.leaving, h.finishing, (fun _ ho => nomatch ho),
        fun hd => (h.inTurn hd).handOver (isFree_of_hasEnded he) trivial⟩
    · exact h
  · rename_i o ho
    obtain ⟨hleaving, hcurrent, hcleared⟩ :=
      (Operation.moves_step c m.site o).tasks (h.cleared o ho)
    refine ⟨?_, fun t ht => ?_, fun o' ho' => ?_, fun hd => ?_⟩
    · show (o.step c m.site).1.leaving.length = _
      rw [hleaving, List.length_append, h.leaving]
      cases o.displaces m.site <;> rfl
    · rw [show _ = _ from hleaving] at ht
      rcases List.mem_append.1 ht with ht | ht
      · exact h.finishing t ht
      · cases hb : o.displaces m.site with
        | false => simp [hb] at ht
        | true =>
          obtain rfl : t = m.site.current.stop := by simpa [hb] using ht
          exact finishing_stop _
    · obtain rfl : (o.step c m.site).2 = o' := by
        simp only at ho'
        split at ho'
        · cases ho'
          rfl
        · cases ho'
      exact hcleared
    · have hd' : m.displaced = 0 ∧ o.displaces m.site = false := by
        simpa using hd
      have hturn := h.inTurn hd'.1
      rcases hcurrent with ⟨-, hsame | hstopped⟩ | ⟨hfree, hfree'⟩
      · exact hsame ▸ hturn
      · exact hstopped ▸ hturn.stop
      · exact hturn.handOver (hfree hd'.2) hfree'

theorem sound_operate (h : m.Sound c) (kind : Kind) : (m.operate kind).Sound c := by
  unfold operate
  split
  · refine ⟨h.leaving, h.finishing, fun o ho => ?_, h.inTurn⟩
    cases ho
    trivial
  · exact h

theorem sound_halt (h : m.Sound c) : m.halt.Sound c := by
  unfold halt
  split
  · refine ⟨h.leaving, h.finishing, (fun _ ho => nomatch ho), fun hd => ?_⟩
    rw [Site.current_stopTask]
    exact (h.inTurn hd).stop
  · exact h

theorem sound_after (h : m.Sound c) (x : Event) : (m.after c x).Sound c := by
  cases x with
  | operate kind => exact sound_operate h kind
  | halt => exact sound_halt h
  | proceed => exact sound_proceed h
  | told at_ input => exact sound_tell h at_ input
  | leaverTold i at_ input => exact sound_tellLeaver h i at_ input
  | elsewhere other => exact ⟨h.leaving, h.finishing, h.cleared, h.inTurn⟩

theorem sound_follow (h : m.Sound c) (history : List Event) : (m.follow c history).Sound c :=
  List.foldlRecOn history _ (motive := Sound c) h fun _ h x _ => sound_after h x

/-- There is no task yet, and nothing was seen. -/
theorem sound_new (c : Setup) (store : Store) :
    ({ site := { store := store } } : Relay).Sound c where
  leaving := rfl
  finishing := fun _ ht => absurd ht List.not_mem_nil
  cleared := fun _ ho => nomatch ho
  inTurn := fun _ => ⟨[], ⟨[], [], rfl, .endedBetween⟩, rfl⟩

/-- **Messages are handed over in turn, unless a start does not wait.**  Whatever is called,
however long the publishings take, and whatever changes in between: the tasks that left are
those that a start found with a message in hand, and they receive nothing more.  There is one
message in hand at most besides theirs, and none when a stop has returned.  As long as no
task had to leave, the messages are handled one by one, and committed in the order in which
they are received, by whichever task. -/
theorem messages_are_handed_over_in_turn (c : Setup) (store : Store) (history : List Event) :
    let m := follow c { site := { store := store } } history
    (m.site.leaving.length = m.displaced ∧ ∀ t ∈ m.site.leaving, t.Finishing)
      ∧ m.site.inHand.length ≤ m.displaced + 1
      ∧ (m.duty? = some .halt → (m.proceed c).duty? = none →
          (m.proceed c).site.inHand.length ≤ m.displaced)
      ∧ (m.displaced = 0 →
          (∃ laps, handling m.trace <+: handling (lapMarks c.processor laps))
            ∧ ∃ owed : List Origin, owed.length ≤ 1
              ∧ (received m.trace).map Message.origin = commits m.trace ++ owed) := by
  intro m
  have h : m.Sound c := sound_follow (sound_new c store) history
  refine ⟨⟨h.leaving, h.finishing⟩, ?_, fun hduty hreturned => ?_, fun hd => ?_⟩
  · refine (List.length_filter_le _ _).trans ?_
    rw [List.length_cons, h.leaving]
  · have hproceed : m.proceed c = if m.site.taskEnded then
        { m with site := { m.site with task? := none }, duty? := none } else m := by
      rw [proceed, hduty]
    rw [hproceed] at hreturned ⊢
    split at hreturned
    · rename_i he
      rw [if_pos he, ← h.leaving]
      exact List.length_filter_le Task.isBusy m.site.leaving
    · rw [hduty] at hreturned
      cases hreturned
  · have hturn := h.inTurn hd
    exact ⟨hturn.exists_laps, _, length_owed_le _, hturn.received_eq⟩

/-! ### A start does not wait -/

/-- A start from its call to its answer, where nothing fails. -/
def startRow : List Event := [.operate .start, .proceed, .proceed, .proceed]

/-- A start that is not turned down puts a task in the place of the one before, which leaves
if it has a message in hand. -/
theorem follow_startRow {fresh : Snapshot} (hduty : m.duty? = none)
    (hload : Snapshot.load c.engine c.workspace? m.site.store = .ok fresh)
    (hopen : m.site.broker.refusingSubscribe = false) :
    m.follow c startRow =
      { m with
        site := (m.site.queried.resubscribed fresh.topics).renewed fresh fresh.topics
        displaced := m.displaced + if m.site.current.isBusy then 1 else 0 } := by
  have hcall : m.operate .start = { m with duty? := some (.operation ⟨.start, .querying⟩) } := by
    rw [operate, hduty]
    rfl
  have hquery : Operation.step c m.site ⟨.start, .querying⟩ =
      (m.site.queried, ⟨.start, .subscribing fresh⟩) := by
    simp only [Operation.step, hload]
    rfl
  have hsubscribe : Operation.step c m.site.queried ⟨.start, .subscribing fresh⟩ =
      (m.site.queried.resubscribed fresh.topics, ⟨.start, .installing fresh fresh.topics⟩) := by
    have hopen' : m.site.queried.broker.refusingSubscribe = false := hopen
    simp only [Operation.step, Operation.wanted, Site.resubscribed, Broker.subscribe, hopen',
      Bool.false_eq_true, if_false]
  show (((m.operate .start).proceed c).proceed c).proceed c = _
  rw [hcall]
  simp only [proceed, hquery, Operation.answer?, Option.isNone_none, if_true, hsubscribe]
  obtain ⟨site, duty?, trace, displaced⟩ := m
  obtain rfl : duty? = none := hduty
  rfl

/-- A message from its receive to the end of its commit. -/
def messageRow (at_ : Moment) (msg : Message) (t? : Option Transform) (d : Task.Delivery)
    (accepted : Bool) : List Event :=
  [.told at_ (.received msg t?), .told at_ (.published d), .told at_ (.committed accepted)]

/-- A task that waits for messages handles one and waits again. -/
theorem follow_messageRow (htask : m.site.task? = some ⟨.receiving, false⟩) (at_ : Moment)
    (msg : Message) (t? : Option Transform) (d : Task.Delivery) (accepted : Bool) :
    ∃ seen, m.follow c (messageRow at_ msg t? d accepted) = { m with trace := m.trace ++ seen }
      ∧ received seen = [msg] ∧ commits seen = [msg.origin] := by
  obtain ⟨⟨store, broker, outbox, snapshot, topics, subscribed, task?, leaving⟩, duty?, trace,
    displaced⟩ := m
  obtain rfl : task? = some ⟨.receiving, false⟩ := htask
  refine ⟨.told (.received msg t?) :: Lap.publishing (c.processor.attempt? at_ msg t?) d
    ++ [.asked (.commit msg.origin), .told (.committed accepted), .asked .receive], ?_, ?_, ?_⟩
  · show (((_ : Relay).tell c at_ (.received msg t?)).tell c at_ (.published d)).tell c at_
      (.committed accepted) = _
    cases ha : c.processor.attempt? at_ msg t? <;>
      simp [tell, Site.current, Task.step, Task.taken, Task.marks, Task.awaits, Task.asking,
        Task.request, Lap.publishing, ha]
  · show msg :: received (Lap.publishing _ d ++ _) = _
    rw [received_append, received_publishing]
    rfl
  · show commits (Lap.publishing _ d ++ _) = _
    rw [commits_append, commits_publishing]
    rfl

/-- A stop does not wait for a task that waits for messages. -/
theorem follow_halt (hduty : m.duty? = none)
    (htask : m.site.task? = some ⟨.receiving, false⟩) :
    m.follow c [.halt, .proceed] = { m with site := { m.site with task? := none } } := by
  obtain ⟨⟨store, broker, outbox, snapshot, topics, subscribed, task?, leaving⟩, duty?, trace,
    displaced⟩ := m
  obtain rfl : task? = some ⟨.receiving, false⟩ := htask
  obtain rfl : duty? = none := hduty
  rfl

theorem follow_append (c : Setup) (m : Relay) (first rest : List Event) :
    m.follow c (first ++ rest) = (m.follow c first).follow c rest :=
  List.foldl_append

/-- **A start lets the new task overtake the old one.**  Where a task has a message in hand
and a start comes through, the new task takes the next message and commits it, and a stop
returns, all while the first message is still in hand.  That one is committed last, whenever
its publishing has ended. -/
theorem start_overtakes {fresh : Snapshot} {msg next : Message} {a : Processing.Attempt}
    {stopping : Bool} (hduty : m.duty? = none)
    (htask : m.site.task? = some ⟨.publishing msg a, stopping⟩)
    (hload : Snapshot.load c.engine c.workspace? m.site.store = .ok fresh)
    (htopics : fresh.topics ≠ []) (hopen : m.site.broker.refusingSubscribe = false)
    (at_ late : Moment) (t? : Option Transform) (d d' : Task.Delivery) (accepted : Bool) :
    let stopped := m.follow c (startRow ++ messageRow at_ next t? d accepted ++ [.halt, .proceed])
    (stopped.duty? = none
        ∧ stopped.site.leaving = m.site.leaving ++ [⟨.publishing msg a, true⟩])
      ∧ (received stopped.trace = received m.trace ++ [next]
        ∧ commits stopped.trace = commits m.trace ++ [next.origin])
      ∧ commits (stopped.after c (.leaverTold m.site.leaving.length late (.published d'))).trace =
        commits m.trace ++ [next.origin, msg.origin] := by
  intro stopped
  -- the start
  let started : Relay := { m with
    site := (m.site.queried.resubscribed fresh.topics).renewed fresh fresh.topics
    displaced := m.displaced + if m.site.current.isBusy then 1 else 0 }
  have hstart : m.follow c startRow = started := follow_startRow hduty hload hopen
  have hnew : started.site.task? = some ⟨.receiving, false⟩ := by
    show some (Task.start fresh.topics.length) = _
    rw [Task.start, if_neg (by simpa using htopics)]
  have hleaving : started.site.leaving = m.site.leaving ++ [⟨.publishing msg a, true⟩] := by
    show m.site.leaving ++ ((m.site.task?.map Task.stop).toList.filter _) = _
    rw [htask]
    rfl
  -- the next message, and the stop
  obtain ⟨seen, hmessage, hreceived, hcommits⟩ :=
    follow_messageRow (c := c) hnew at_ next t? d accepted
  have hstopped : stopped =
      { started with
        site := { started.site with task? := none }
        trace := m.trace ++ seen } := by
    show m.follow c (startRow ++ messageRow at_ next t? d accepted ++ [.halt, .proceed]) = _
    rw [follow_append, follow_append, hstart, hmessage]
    exact follow_halt (m := { started with trace := m.trace ++ seen }) hduty hnew
  rw [hstopped]
  refine ⟨⟨hduty, hleaving⟩, ⟨?_, ?_⟩, ?_⟩
  · rw [received_append, hreceived]
  · rw [commits_append, hcommits]
  · -- the first message
    have hleaver : started.site.leaving[m.site.leaving.length]? =
        some ⟨.publishing msg a, true⟩ := by
      rw [hleaving]
      exact List.getElem?_concat_length
    simp only [after, tellLeaver, hleaver]
    show commits (m.trace ++ seen ++ [.told (.published d'), .asked (.commit msg.origin)]) = _
    rw [commits_append, commits_append, hcommits, List.append_assoc]
    rfl

end Relay

end Reshape.Subscription

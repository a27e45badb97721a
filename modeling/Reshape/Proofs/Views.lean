/-
# What an operation finds at a site

What an operation answers depends on its `view` of a site only: on what the store and the
broker were told, the snapshot, the topics and the subscription.  From sites of one view
operations give the same answers, and lead to sites of one view (`view_perform`).

An operation that fails leaves the view as it was, whether the store did not answer or,
later, when the task was stopped already, the broker refused the subscription.  The task
is begun again then, and waits for messages of the same topics (`perform_of_error`).
-/
import Mathlib.Tactic
import Reshape.Proofs.Coverage

namespace Reshape.Consumption.Line

open Processing (Moment Processor)

variable (p : Processor) (at_ : Moment)

/-! ## Tasks that go on waiting -/

theorem ne_zero_of_isReceiving_start {n : Nat} (h : (Task.start n).isReceiving = true) :
    n ≠ 0 := by
  rintro rfl
  cases h

/-- A task that waits for messages waits again after a receive, unless the broker is
closed. -/
theorem task_of_receives {s : Snapshot} {l l' : Line} (hr : Receives p at_ s l l') {n : Nat}
    (h : l.task = .start n) :
    l'.task = .start n ∨ l.broker.closed = true ∧ n ≠ 0 ∧ l'.task.hasEnded = true := by
  cases hr with
  | notReceiving | nothing => exact .inl h
  | closed hw hc =>
    rw [h] at hw
    exact .inr ⟨hc, ne_zero_of_isReceiving_start hw, rfl⟩
  | message hw =>
    rw [h] at hw
    left
    rw [handled, h, Task.start, if_neg (ne_zero_of_isReceiving_start hw)]
    rfl

theorem task_receives (s : Snapshot) (m : Nat) {l : Line} {n : Nat} (h : l.task = .start n) :
    (l.receives p at_ s m).task = .start n
      ∨ l.broker.closed = true ∧ n ≠ 0 ∧ (l.receives p at_ s m).task.hasEnded = true := by
  induction m generalizing l with
  | zero => exact .inl h
  | succ m ih =>
    have hterms := congrArg Broker.Terms.closed (terms_receive p at_ s l)
    rcases task_of_receives p at_ (receives_receive p at_ s l) h with h' | ⟨hc, hn, he⟩
    · rcases ih h' with h'' | ⟨hc, hn, he⟩
      · exact .inl h''
      · exact .inr ⟨hterms.symm.trans hc, hn, he⟩
    · right
      have hw : (l.receive p at_ s).task.isReceiving = false := by
        generalize (l.receive p at_ s).task = t at he ⊢
        obtain ⟨phase, stopping⟩ := t
        cases phase <;> first | rfl | cases he
      rw [receives, receives_of_not_receiving p at_ s m hw]
      exact ⟨hc, hn, he⟩

/-- A task that waits for messages still waits when the line has settled, unless the broker
is closed. -/
theorem task_settle (s : Snapshot) {l : Line} {n : Nat} (h : l.task = .start n) :
    (l.settle p at_ s).task = .start n
      ∨ l.broker.closed = true ∧ n ≠ 0 ∧ (l.settle p at_ s).task.hasEnded = true := by
  rw [settle, finish_of_isFree p at_ (h ▸ isFree_start n)]
  exact task_receives p at_ s _ h

end Reshape.Consumption.Line

namespace Reshape

/-- What becomes of the terms of a broker that is asked for a subscription. -/
theorem Broker.terms_subscribe (b : Broker) (topics : List String) :
    (b.subscribe topics).1.terms =
      if b.terms.refusingSubscribe then b.terms
      else
        { b.terms with
          subscription := topics
          subscriptions := b.terms.subscriptions ++ [topics] } := by
  unfold subscribe
  split_ifs <;> first | rfl | contradiction

/-- Brokers that were told the same give the same answer when they are asked. -/
theorem Broker.answer_subscribe {b b' : Broker} (h : b'.terms = b.terms) (topics : List String) :
    (b'.subscribe topics).2 = (b.subscribe topics).2 := by
  have hrefusing : b'.refusingSubscribe = b.refusingSubscribe :=
    congrArg Terms.refusingSubscribe h
  unfold subscribe
  rw [hrefusing]
  split_ifs <;> rfl

namespace Subscription

open Consumption (Line Task)

/-! ## Views -/

namespace Site

/-- What an operation finds at a site: what the store holds and whether it answers, what
the broker was told, the snapshot, the topics and the subscription. -/
structure View where
  definitions : List Definition
  failing : Bool
  terms : Broker.Terms
  snapshot : Snapshot
  topics : List String
  subscribed : List String

/-- The view of a site. -/
def view (s : Site) : View :=
  ⟨s.store.definitions, s.store.failing, s.broker.terms, s.snapshot, s.topics, s.subscribed⟩

variable {s s' : Site}

theorem terms_of_view (h : s'.view = s.view) : s'.broker.terms = s.broker.terms :=
  congrArg View.terms h

theorem closed_of_view (h : s'.view = s.view) : s'.broker.closed = s.broker.closed :=
  congrArg (fun v => v.terms.closed) h

theorem topics_of_view (h : s'.view = s.view) : s'.topics = s.topics := congrArg View.topics h

theorem subscribed_of_view (h : s'.view = s.view) : s'.subscribed = s.subscribed :=
  congrArg View.subscribed h

/-- Two sites have the same snapshot in force, and the same topics and subscription. -/
structure Agree (s s' : Site) : Prop where
  snapshot : s'.snapshot = s.snapshot
  topics : s'.topics = s.topics
  subscribed : s'.subscribed = s.subscribed
  subscription : s'.broker.subscription = s.broker.subscription

theorem agree_of_view (h : s'.view = s.view) : s.Agree s' :=
  ⟨congrArg View.snapshot h, topics_of_view h, subscribed_of_view h,
    congrArg (fun v => v.terms.subscription) h⟩

/-- Sites of one view get the same snapshot from their stores. -/
theorem load_of_view (h : s'.view = s.view) (c : Setup) :
    Snapshot.load c.engine c.workspace? s'.store =
      Snapshot.load c.engine c.workspace? s.store := by
  have hdefinitions : s'.store.definitions = s.store.definitions := congrArg View.definitions h
  have hfailing : s'.store.failing = s.store.failing := congrArg View.failing h
  rw [Snapshot.load, Snapshot.load, Store.findActive, Store.findActive, hdefinitions, hfailing]

/-- Settling leaves the view as it is. -/
theorem view_settle (c : Setup) (hr : s.Rested) : (s.settle c).view = s.view := by
  cases ht : s.task? with
  | none => rw [settle_of_no_task c hr ht]
  | some t =>
    rw [settle_of_rested c hr ht]
    exact congrArg (fun terms => { s.view with terms := terms }) (Line.terms_settle _ _ _ _)

/-- Sites of one view have one view when they have settled. -/
theorem settle_of_view (c : Setup) (h : s'.view = s.view) (hr : s.Rested) (hr' : s'.Rested) :
    (s'.settle c).view = (s.settle c).view :=
  (view_settle c hr').trans (h.trans (view_settle c hr).symm)

end Site

namespace Operation

variable {c : Setup} {s s' : Site}

/-- From sites of one view a step leads to sites of one view, and the operation comes as
far. -/
theorem view_step (c : Setup) (h : s'.view = s.view) (o : Operation) (hs : o.Ready s)
    (hs' : o.Ready s') :
    (o.step c s').1.view = (o.step c s).1.view ∧ (o.step c s').2 = (o.step c s).2 := by
  obtain ⟨kind, phase⟩ := o
  have hnew : ∀ fresh, newTopics s'.topics fresh = newTopics s.topics fresh :=
    fun fresh => by rw [Site.topics_of_view h]
  -- installing the same snapshot
  have hinstall : ∀ fresh : Snapshot, (s'.install fresh).view = (s.install fresh).view :=
    fun fresh => congrArg (fun v => { v with snapshot := fresh, topics := fresh.topics }) h
  cases phase with
  | querying =>
    simp only [step, Site.load_of_view h c]
    cases Snapshot.load c.engine c.workspace? s.store with
    | error f => exact ⟨h, rfl⟩
    | ok fresh =>
      cases kind with
      | start => exact ⟨h, rfl⟩
      | refresh =>
        simp only [loaded, report, hnew]
        split_ifs
        · exact ⟨hinstall fresh, rfl⟩
        · exact ⟨h, rfl⟩
  | stopping fresh =>
    have he : s.taskEnded = true := hs
    have he' : s'.taskEnded = true := hs'
    simp only [step, he, he', if_true]
    exact ⟨h, trivial⟩
  | subscribing fresh =>
    have hwanted : wanted kind s' fresh = wanted kind s fresh := by
      cases kind
      · rfl
      · rw [wanted, wanted, Site.topics_of_view h]
    have hterms : (s'.resubscribed (wanted kind s fresh)).view =
        (s.resubscribed (wanted kind s fresh)).view := by
      have hbroker : (s'.broker.subscribe (wanted kind s fresh)).1.terms =
          (s.broker.subscribe (wanted kind s fresh)).1.terms := by
        rw [Broker.terms_subscribe, Broker.terms_subscribe, Site.terms_of_view h]
      exact congrArg₂ (fun v terms => { v with terms := terms }) h hbroker
    have hanswer := Broker.answer_subscribe (Site.terms_of_view h) (wanted kind s fresh)
    simp only [Site.resubscribed] at hterms
    simp only [step, hwanted]
    generalize s'.broker.subscribe (wanted kind s fresh) = after' at *
    generalize s.broker.subscribe (wanted kind s fresh) = after at *
    obtain ⟨broker, answer⟩ := after
    obtain ⟨broker', answer'⟩ := after'
    obtain rfl : answer' = answer := hanswer
    cases answer' with
    | error f => cases kind <;> exact ⟨hterms, rfl⟩
    | ok _ => exact ⟨hterms, rfl⟩
  | installing fresh topics =>
    simp only [step, report, hnew]
    exact ⟨congrArg (fun v => { v with subscribed := topics }) (hinstall fresh), trivial⟩
  | finished answer => exact ⟨h, rfl⟩

theorem view_stepDue (c : Setup) (h : s'.view = s.view) (o : Operation) (hs : o.Ready s)
    (hs' : o.Ready s') :
    (stepDue c s' o).1.view = (stepDue c s o).1.view ∧ (stepDue c s' o).2 = (stepDue c s o).2 := by
  obtain ⟨hview, heq⟩ := view_step c h o hs hs'
  rw [stepDue, stepDue, heq]
  generalize (o.step c s).2 = o' at *
  obtain ⟨kind, phase⟩ := o'
  cases phase with
  | installing fresh topics =>
    exact view_step c hview ⟨kind, .installing fresh topics⟩ trivial trivial
  | querying | stopping | subscribing | finished => exact ⟨hview, rfl⟩

/-- An operation that came as far at two sites of one view, which are ready for it. -/
structure Lockstep (s s' : Site) (o : Operation) : Prop where
  view : s'.view = s.view
  rested : s.Rested
  rested' : s'.Rested
  ready : o.Ready s
  ready' : o.Ready s'

theorem Lockstep.next {o : Operation} (h : Lockstep s s' o) (c : Setup) :
    (settledStep c s' o).2 = (settledStep c s o).2
      ∧ Lockstep (settledStep c s o).1 (settledStep c s' o).1 (settledStep c s o).2 := by
  obtain ⟨hview, heq⟩ := view_stepDue c h.view o h.ready h.ready'
  have hready := (ready_settledStep c h.rested h.ready).1
  have hready' := (ready_settledStep c h.rested' h.ready').1
  have hsteps : (settledStep c s' o).2 = (settledStep c s o).2 := heq
  rw [hsteps] at hready'
  refine ⟨hsteps, ?_, (rested_settledStep c h.rested o).1, (rested_settledStep c h.rested' o).1,
    hready, hready'⟩
  exact Site.settle_of_view c hview (rested_stepDue c h.rested o) (rested_stepDue c h.rested' o)

/-- **An operation gives the same answer at sites of one view, and leads to sites of one
view.** -/
theorem view_perform (c : Setup) (kind : Kind) (hr : s.Rested) (hr' : s'.Rested)
    (h : s'.view = s.view) :
    (perform c kind s').1.view = (perform c kind s).1.view
      ∧ (perform c kind s').2 = (perform c kind s).2 := by
  have h₀ : Lockstep s s' ⟨kind, .querying⟩ := ⟨h, hr, hr', trivial, trivial⟩
  obtain ⟨ho₁, h₁⟩ := h₀.next c
  obtain ⟨ho₂, h₂⟩ := h₁.next c
  obtain ⟨ho₃, h₃⟩ := h₂.next c
  unfold perform
  simp only [ho₁, ho₂, ho₃]
  exact ⟨h₃.view, trivial⟩

/-! ## Failed operations -/

/-- What every move and every settling keeps holds when an operation is over. -/
theorem perform_keeps (c : Setup) (kind : Kind) {P : Site → Operation → Prop}
    (hmove : ∀ {s o s' o'}, Moves c s o s' o' → P s o → P s' o')
    (hsettle : ∀ {s o}, P s o → P (s.settle c) o) {s : Site} (h : P s ⟨kind, .querying⟩) :
    ∃ o, (perform c kind s).2 = o.answer? ∧ P (perform c kind s).1 o := by
  have hstep : ∀ {s o}, P s o → P (settledStep c s o).1 (settledStep c s o).2 := by
    intro s o h
    rw [settledStep_eq]
    exact hsettle (stepDue_keeps hmove h)
  exact ⟨_, rfl, hstep (hstep (hstep h))⟩

end Operation

/-- The task of the site takes messages of the topics that the broker is subscribed to, and
nothing keeps it from doing so. -/
structure Site.Consumes (s : Site) : Prop where
  task : s.task? = some (.start s.subscribed.length)
  open_ : s.subscribed.length ≠ 0 → s.broker.closed = false

/-- Settling leaves the task to what it does. -/
theorem Site.consumes_settle (c : Setup) {s : Site} (hr : s.Rested) (h : s.Consumes) :
    (s.settle c).Consumes := by
  have hview := view_settle c hr
  constructor
  · rw [subscribed_of_view hview, settle_of_rested c hr h.task]
    rcases Line.task_settle c.processor c.moment s.snapshot
      (l := ⟨s.broker, s.outbox, .start s.subscribed.length⟩) rfl with ht | ⟨hc, hn, -⟩
    · exact congrArg some ht
    · rw [h.open_ hn] at hc
      cases hc
  · rw [subscribed_of_view hview, closed_of_view hview]
    exact h.open_

namespace Operation

variable {before : Site}

/-- What an operation that began at the site `before` has left as it was: everything, unless
it is about to succeed or did, but a refresh stops the task until it has failed. -/
def Spares (before s : Site) (o : Operation) : Prop :=
  match o.phase with
  | .querying | .finished (.error _) =>
    s.view = before.view ∧ (o.kind = .refresh → before.Consumes → s.Consumes)
  | .stopping _ | .subscribing _ => s.view = before.view
  | .installing .. | .finished (.ok _) => True

theorem Moves.spares {c : Setup} {s s' : Site} {o o' : Operation} (hm : Moves c s o s' o')
    (h : o.Spares before s) : o'.Spares before s' := by
  cases hm with
  | unanswered =>
    obtain ⟨hview, hconsumes⟩ := h
    refine ⟨hview, fun hk hb => ?_⟩
    exact ⟨(hconsumes hk hb).task, (hconsumes hk hb).open_⟩
  | loadedStart | loadedNew => exact h.1
  | stopped => exact h
  | @turnedDown kind =>
    have hview : s.view = before.view := h
    cases kind with
    | start => exact ⟨hview, fun hk => nomatch hk⟩
    | refresh =>
      -- the task that was stopped is begun again for the same topics
      refine ⟨hview, fun _ hb => ⟨rfl, ?_⟩⟩
      show s.subscribed.length ≠ 0 → s.broker.closed = false
      rw [Site.subscribed_of_view hview, Site.closed_of_view hview]
      exact hb.open_
  | loadedKnown | subscribed | installed => trivial
  | waiting | rested => exact h

theorem spares_settle {c : Setup} {s : Site} {o : Operation} (hr : s.Rested)
    (h : o.Spares before s) : o.Spares before (s.settle c) := by
  have hsettle := Site.view_settle c hr
  obtain ⟨kind, phase⟩ := o
  rcases phase with _ | _ | _ | _ | (_ | _)
  · exact ⟨hsettle.trans h.1, fun hk hb => Site.consumes_settle c hr (h.2 hk hb)⟩
  · exact hsettle.trans h
  · exact hsettle.trans h
  · trivial
  · exact ⟨hsettle.trans h.1, fun hk hb => Site.consumes_settle c hr (h.2 hk hb)⟩
  · trivial

/-- **An operation that fails leaves the view as it was**, and a refresh that fails leaves
the task to what it did. -/
theorem perform_of_error (c : Setup) (kind : Kind) {s : Site} (hr : s.Rested) {f : Fault}
    (h : (perform c kind s).2 = some (.error f)) :
    (perform c kind s).1.view = s.view
      ∧ (kind = .refresh → s.Consumes → (perform c kind s).1.Consumes) := by
  obtain ⟨o, ho, hk, -, hspares⟩ := perform_keeps c kind (s := s)
    (P := fun s' o => o.kind = kind ∧ s'.Rested ∧ o.Spares s s')
    (fun hm h => ⟨hm.kind.trans h.1, hm.keeps_rested h.2.1, hm.spares h.2.2⟩)
    (fun h => ⟨h.1, Site.rested_settle c h.2.1, spares_settle h.2.1 h.2.2⟩)
    ⟨rfl, hr, rfl, fun _ hs => hs⟩
  obtain ⟨kind', phase⟩ := o
  obtain rfl : kind' = kind := hk
  rw [h] at ho
  cases phase with
  | finished answer =>
    obtain rfl := Option.some.inj ho
    exact hspares
  | querying | stopping | subscribing | installing => cases ho

end Operation

/-! ## Steady sites -/

/-- The task of the site, if it has one, ended or takes messages of the topics that are
subscribed. -/
structure Site.Steady (s : Site) : Prop where
  rested : s.Rested
  task : ∀ t, s.task? = some t → t.hasEnded = true ∨ t = .start s.subscribed.length

namespace Site

/-- Without a task a site is steady. -/
theorem steady_of_no_task {s : Site} (hl : s.leaving = []) (ht : s.task? = none) : s.Steady := by
  constructor
  · exact ⟨hl, fun t h => absurd (ht.symm.trans h) (Option.some_ne_none t).symm⟩
  · exact fun t h => absurd (ht.symm.trans h) (Option.some_ne_none t).symm

/-- Where tasks and subscription are those of a steady site, the site is steady. -/
theorem Steady.of_eq {s s' : Site} (h : s.Steady) (ht : s'.task? = s.task?)
    (hl : s'.leaving = s.leaving) (hs : s'.subscribed = s.subscribed) : s'.Steady := by
  refine ⟨⟨hl.trans h.rested.leaving, fun t h' => h.rested.isFree t (ht.symm.trans h')⟩, ?_⟩
  intro t h'
  rw [hs]
  exact h.task t (ht.symm.trans h')

theorem Steady.settle (c : Setup) {s : Site} (h : s.Steady) : (s.settle c).Steady := by
  refine ⟨rested_settle c h.rested, ?_⟩
  rw [subscribed_of_view (view_settle c h.rested)]
  cases ht : s.task? with
  | none =>
    rw [settle_of_no_task c h.rested ht]
    exact h.task
  | some t =>
    rw [settle_of_rested c h.rested ht]
    intro t' ht'
    obtain rfl := Option.some.inj ht'
    rcases h.task t ht with he | rfl
    · left
      rw [Line.settle_of_hasEnded _ _ _ he]
      exact he
    · rcases Line.task_settle c.processor c.moment s.snapshot
        (l := ⟨s.broker, s.outbox, .start s.subscribed.length⟩) rfl with h' | ⟨-, -, he⟩
      · exact .inr h'
      · exact .inl he

/-- A task that did not end, and waits, consumes. -/
theorem Steady.consumes {s : Site} (h : s.Steady) (hw : s.Waits) {t : Task}
    (ht : s.task? = some t) (he : t.hasEnded = false) : s.Consumes := by
  rcases h.task t ht with he' | rfl
  · rw [he] at he'
    cases he'
  · refine ⟨ht, fun hn => (hw _ ht ?_).1⟩
    rw [Task.start, if_neg hn]
    rfl

theorem Steady.stopTask {s : Site} (h : s.Steady) : s.stopTask.Steady :=
  ⟨rested_stopTask h.rested, fun t ht =>
    .inl (Option.all_eq_true _ _ |>.1 (taskEnded_stopTask h.rested) t ht)⟩

end Site

theorem Operation.Moves.steady {c : Setup} {s s' : Site} {o o' : Operation}
    (hm : Moves c s o s' o') (h : s.Steady) : s'.Steady := by
  refine ⟨hm.keeps_rested h.rested, ?_⟩
  cases hm with
  | loadedNew =>
    have hq : s.queried.Steady := h.of_eq rfl rfl rfl
    exact hq.stopTask.task
  | stopped => exact fun t ht => absurd ht (Option.some_ne_none t).symm
  | @turnedDown kind =>
    cases kind with
    | start => exact h.task
    | refresh => exact fun t ht => .inr (Option.some.inj ht).symm
  | installed => exact fun t ht => .inr (Option.some.inj ht).symm
  | unanswered | loadedStart | loadedKnown | subscribed | waiting | rested => exact h.task

theorem Operation.steady_perform (c : Setup) (kind : Kind) {s : Site} (h : s.Steady) :
    (perform c kind s).1.Steady := by
  obtain ⟨-, -, hsteady⟩ := perform_keeps c kind (s := s)
    (P := fun s _ => s.Steady) (fun hm h => hm.steady h) (fun h => h.settle c) h
  exact hsteady

end Subscription

end Reshape

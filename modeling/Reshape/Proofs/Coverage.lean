/-
# What can be resolved is subscribed

A site is *covered* when the topics noted for it are those of the snapshot in force, the
subscription noted for it is that of the broker, and the topics are among the
subscription.  Starts and refreshes are called one after the other, succeed or fail, and
whatever else there is may change at any moment in between: the definitions, what the
store and the broker refuse, the messages, the tasks.  Where no operation is under way, the
site is covered (`sound_follow`, `Sound.covered`).

While a snapshot is about to be put in force, the subscription is ahead of it: `Between`
says what holds then.  What an operation came to is told by what the store answered it
(`Outcome`): it left everything as it was, put the snapshot in force, or subscribed to its
topics first, where the site was called and where it was left are compared.  A refresh
subscribes exactly if there are new topics.
-/
import Mathlib.Tactic
import Reshape.Proofs.Operations

namespace Reshape.Broker

/-- The broker is subscribed to what it was asked for last, of what it did not refuse. -/
def UpToDate (b : Broker) : Prop := b.subscription = b.subscriptions.getLast?.getD []

theorem upToDate_subscribe {b : Broker} (h : b.UpToDate) (topics : List String) :
    (b.subscribe topics).1.UpToDate := by
  unfold subscribe
  split_ifs
  · exact h
  · rw [UpToDate, List.getLast?_concat, Option.getD_some]

end Reshape.Broker

namespace Reshape.Subscription

/-! ## Topics -/

theorem mem_newTopics {topics : List String} {fresh : Snapshot} {topic : String} :
    topic ∈ newTopics topics fresh ↔ fresh.contains topic = true ∧ topic ∉ topics := by
  rw [newTopics, List.mem_filter, Snapshot.topics, Keyed.mem_names_iff]
  simp

theorem mem_union {a b : List String} {topic : String} :
    topic ∈ union a b ↔ topic ∈ a ∨ topic ∈ b := by
  rw [union, (List.mergeSort_perm _ _).mem_iff, List.mem_append, List.mem_filter]
  by_cases h : topic ∈ a <;> simp [h]

/-- New topics are those that one snapshot resolves and the other does not. -/
theorem newTopics_ne_nil_iff {s fresh : Snapshot} :
    newTopics s.topics fresh ≠ [] ↔
      ∃ topic, fresh.contains topic = true ∧ s.contains topic = false := by
  constructor
  · intro h
    obtain ⟨topic, ht⟩ := List.exists_mem_of_ne_nil _ h
    obtain ⟨hfresh, hold⟩ := mem_newTopics.1 ht
    rw [Snapshot.topics, Keyed.mem_names_iff, Bool.not_eq_true] at hold
    exact ⟨topic, hfresh, hold⟩
  · rintro ⟨topic, hfresh, hold⟩ h
    have ht : topic ∈ newTopics s.topics fresh := by
      rw [mem_newTopics, Snapshot.topics, Keyed.mem_names_iff, hold]
      exact ⟨hfresh, Bool.false_ne_true⟩
    rw [h] at ht
    cases ht

/-- An operation subscribes to all topics of its snapshot. -/
theorem topics_subset_wanted (kind : Kind) (s : Site) (fresh : Snapshot) :
    fresh.topics ⊆ Operation.wanted kind s fresh := by
  intro topic h
  cases kind with
  | start => exact h
  | refresh => exact mem_union.2 (.inr h)

/-! ## Covered sites -/

namespace Site

/-- Snapshot, topics and subscription of the site agree. -/
structure Covered (s : Site) : Prop where
  known : s.topics = s.snapshot.topics
  noted : s.subscribed = s.broker.subscription
  subset : s.topics ⊆ s.subscribed

/-- The broker was subscribed to topics of a snapshot that is to be put in force.  Those
of the snapshot before it are still there if it goes on being used. -/
structure Between (kind : Kind) (fresh : Snapshot) (topics : List String) (s : Site) :
    Prop where
  known : s.topics = s.snapshot.topics
  subscription : s.broker.subscription = topics
  ahead : fresh.topics ⊆ topics
  kept : kind = .refresh → s.topics ⊆ topics

/-- What a snapshot resolves is subscribed. -/
theorem Covered.resolved {s : Site} (h : s.Covered) {topic : String}
    (ht : s.snapshot.contains topic = true) : topic ∈ s.broker.subscription := by
  rw [← h.noted]
  apply h.subset
  rw [h.known, Snapshot.topics, Keyed.mem_names_iff]
  exact ht

theorem Between.resolved {s : Site} {fresh : Snapshot} {topics : List String}
    (h : s.Between .refresh fresh topics) {topic : String}
    (ht : s.snapshot.contains topic = true) : topic ∈ s.broker.subscription := by
  rw [h.subscription]
  apply h.kept rfl
  rw [h.known, Snapshot.topics, Keyed.mem_names_iff]
  exact ht

end Site

/-! ## Operations over covered sites -/

namespace Operation

variable {c : Setup} {s s' : Site} {o o' : Operation}

/-- What holds of a site while an operation is under way. -/
def Fits (o : Operation) (s : Site) : Prop :=
  match o.phase with
  | .installing fresh topics => s.Between o.kind fresh topics
  | _ => s.Covered

/-- A site where the broker was just subscribed is ahead of its snapshot. -/
theorem between_resubscribed (hs : s.Covered) (h : s.broker.refusingSubscribe = false)
    (kind : Kind) (fresh : Snapshot) :
    (s.resubscribed (wanted kind s fresh)).Between kind fresh (wanted kind s fresh) := by
  constructor
  · exact hs.known
  · rw [Site.resubscribed, Broker.subscribe, h]
    rfl
  · exact topics_subset_wanted kind s fresh
  · rintro rfl topic ht
    exact mem_union.2 (.inl ht)

/-- Every move keeps a site covered, or subscribes ahead of the snapshot to come. -/
theorem Moves.fits (hm : Moves c s o s' o') (h : o.Fits s) : o'.Fits s' := by
  cases hm with
  | unanswered | loadedStart | loadedNew | stopped =>
    exact ⟨h.known, h.noted, h.subset⟩
  | waiting | rested => exact h
  | @loadedKnown fresh hl hnew =>
    refine ⟨rfl, h.noted, ?_⟩
    intro topic ht
    -- a topic that is not new is one of those before
    have hold : topic ∈ s.topics := by
      by_contra hn
      have hmem := mem_newTopics.2 ⟨Keyed.mem_names_iff.1 ht, hn⟩
      rw [hnew] at hmem
      cases hmem
    exact h.subset hold
  | @turnedDown kind =>
    cases kind <;> exact ⟨h.known, h.noted, h.subset⟩
  | @subscribed kind fresh hr => exact between_resubscribed h hr kind fresh
  -- the snapshot catches up with the subscription
  | installed => exact ⟨rfl, h.subscription.symm, h.ahead⟩

/-! ## What is asked of the broker -/

/-- The subscriptions that the next step asks the broker for. -/
def asks (s : Site) (o : Operation) : List (List String) :=
  match o.phase with
  | .subscribing fresh => [wanted o.kind s fresh]
  | _ => []

/-- A step changes the broker by the subscriptions that it asks for, and not otherwise. -/
theorem broker_step (c : Setup) (s : Site) (o : Operation) :
    (o.step c s).1.broker = (o.asks s).foldl (fun b topics => (b.subscribe topics).1) s.broker := by
  have hm := moves_step c s o
  generalize o.step c s = after at hm ⊢
  obtain ⟨s', o'⟩ := after
  cases hm with
  | @turnedDown kind fresh f h =>
    have hb : (s.broker.subscribe (wanted kind s fresh)).1 = s.broker := by
      rw [Broker.subscribe, if_pos h]
    cases kind <;> exact hb.symm
  | unanswered | loadedStart | loadedKnown | loadedNew | stopped | waiting | subscribed
  | installed | rested => rfl

theorem upToDate_step (c : Setup) {s : Site} (h : s.broker.UpToDate) (o : Operation) :
    (o.step c s).1.broker.UpToDate := by
  rw [broker_step]
  exact List.foldlRecOn (o.asks s) _ (motive := Broker.UpToDate) h
    fun _ hb topics _ => Broker.upToDate_subscribe hb topics

theorem Moves.kind (hm : Moves c s o s' o') : o'.kind = o.kind := by
  cases hm <;> rfl

theorem kind_settledStep (c : Setup) (s : Site) (o : Operation) :
    (settledStep c s o).2.kind = o.kind :=
  stepDue_keeps (P := fun _ o' => o'.kind = o.kind) (fun hm h => hm.kind.trans h) rfl

/-- No step leads back to the beginning. -/
theorem Moves.phase_ne_querying (hm : Moves c s o s' o') : o'.phase ≠ .querying := by
  cases hm <;> exact fun h => nomatch h

end Operation

/-! ## What an operation comes to -/

namespace Site

/-- What the store answered, if it was queried on the way from one site to another: the
store counts its queries. -/
def loads? (c : Setup) (s s' : Site) : Option (Except Store.Fault Snapshot) :=
  if s'.store.queries = s.store.queries then none
  else some (Snapshot.load c.engine c.workspace? s.store)

theorem loads?_queried {c : Setup} {s s' : Site} (h : s'.store = s.store.queried) :
    s.loads? c s' = some (Snapshot.load c.engine c.workspace? s.store) := by
  rw [loads?, h]
  exact if_neg (Nat.succ_ne_self _)

/-- The snapshot in force, its topics and the subscriptions of the broker so far are those
that they were. -/
structure Unchanged (s s' : Site) : Prop where
  snapshot : s'.snapshot = s.snapshot
  topics : s'.topics = s.topics
  subscriptions : s'.broker.subscriptions = s.broker.subscriptions

theorem Unchanged.trans {a b d : Site} (h : a.Unchanged b) (h' : b.Unchanged d) :
    a.Unchanged d :=
  ⟨h'.snapshot.trans h.snapshot, h'.topics.trans h.topics,
    h'.subscriptions.trans h.subscriptions⟩

end Site

namespace Operation

/-- An operation that was called at a site and gets a snapshot has to subscribe: a start in
any case, a refresh if the snapshot resolves a topic that the one in force does not. -/
def HasToSubscribe (kind : Kind) (called : Site) (fresh : Snapshot) : Prop :=
  kind = .refresh →
    ∃ topic, fresh.contains topic = true ∧ called.snapshot.contains topic = false

/-- What an operation came to, which was called at one site, found another at its last step
and left a third: by what the store answered, and with its own answer. -/
inductive Outcome (kind : Kind) (called found left : Site) :
    Except Store.Fault Snapshot → Except Fault Report → Prop
  | unanswered {f : Store.Fault} (h : called.Unchanged left) :
      Outcome kind called found left (.error f) (.error (.store f))
  | known {fresh : Snapshot} (hnew : ¬ HasToSubscribe kind called fresh)
      (hs : left.snapshot = fresh)
      (hb : left.broker.subscriptions = called.broker.subscriptions) :
      Outcome kind called found left (.ok fresh) (.ok (report called.topics fresh))
  | turnedDown {fresh : Snapshot} {f : TransportFault}
      (hnew : HasToSubscribe kind called fresh)
      (hf : (found.broker.subscribe (wanted kind called fresh)).2 = .error f)
      (h : called.Unchanged left) :
      Outcome kind called found left (.ok fresh) (.error (.transport f))
  | subscribed {fresh : Snapshot} (hnew : HasToSubscribe kind called fresh)
      (hs : left.snapshot = fresh)
      (hb : left.broker.subscriptions
        = called.broker.subscriptions ++ [wanted kind called fresh]) :
      Outcome kind called found left (.ok fresh) (.ok (report called.topics fresh))

/-- How far an operation has come since it was called. -/
inductive Since (kind : Kind) (called found s : Site) :
    Option (Except Store.Fault Snapshot) → Phase → Prop
  | querying (h : called.Unchanged s) : Since kind called found s none .querying
  | stopping {fresh : Snapshot} (h : called.Unchanged s)
      (hnew : HasToSubscribe kind called fresh) :
      Since kind called found s (some (.ok fresh)) (.stopping fresh)
  | subscribing {fresh : Snapshot} (h : called.Unchanged s)
      (hnew : HasToSubscribe kind called fresh) :
      Since kind called found s (some (.ok fresh)) (.subscribing fresh)
  | installing {fresh : Snapshot} {topics : List String}
      (ht : s.topics = called.topics)
      (hb : s.broker.subscriptions
        = called.broker.subscriptions ++ [wanted kind called fresh])
      (hnew : HasToSubscribe kind called fresh) :
      Since kind called found s (some (.ok fresh)) (.installing fresh topics)
  | finished {loaded : Except Store.Fault Snapshot} {answer : Except Fault Report}
      (h : Outcome kind called found s loaded answer) :
      Since kind called found s (some loaded) (.finished answer)

variable {c : Setup} {called found s s' : Site} {o o' : Operation}

theorem wanted_congr (h : s.topics = called.topics) (kind : Kind) (fresh : Snapshot) :
    wanted kind s fresh = wanted kind called fresh := by
  cases kind
  · rfl
  · rw [wanted, wanted, h]

/-- For a refresh, to have to subscribe is to find new topics. -/
theorem hasToSubscribe_refresh_iff {fresh : Snapshot}
    (hknown : called.topics = called.snapshot.topics) :
    HasToSubscribe .refresh called fresh ↔ newTopics called.topics fresh ≠ [] := by
  rw [hknown, newTopics_ne_nil_iff]
  exact ⟨fun h => h rfl, fun h _ => h⟩

/-- The first step of an operation has the store queried. -/
theorem Moves.loads?_querying {kind : Kind} (hm : Moves c s ⟨kind, .querying⟩ s' o') :
    s.loads? c s' = some (Snapshot.load c.engine c.workspace? s.store) := by
  cases hm <;> exact Site.loads?_queried rfl

/-- No other step has. -/
theorem Moves.loads?_eq_none (hm : Moves c s o s' o') (ho : o.phase ≠ .querying) :
    s.loads? c s' = none := by
  have hstore : s'.store = s.store := by
    cases hm with
    | unanswered | loadedStart | loadedKnown | loadedNew => exact absurd rfl ho
    | @turnedDown kind => cases kind <;> rfl
    | stopped | waiting | subscribed | installed | rested => rfl
  rw [Site.loads?, hstore, if_pos rfl]

/-- **Every step takes an operation further**, from where it has come since it was called. -/
theorem Moves.since (hm : Moves c s o s' o') (hknown : called.topics = called.snapshot.topics)
    (hopen : o.answer? = none) {loaded? : Option (Except Store.Fault Snapshot)}
    (h : Since o.kind called found s loaded? o.phase) :
    Since o'.kind called s s' ((s.loads? c s').or loaded?) o'.phase := by
  obtain ⟨kind, phase⟩ := o
  change Since kind called found s loaded? phase at h
  cases h with
  | querying hs =>
    rw [hm.loads?_querying]
    cases hm with
    | unanswered hl =>
      rw [hl]
      exact .finished (.unanswered ⟨hs.snapshot, hs.topics, hs.subscriptions⟩)
    | loadedStart hl =>
      rw [hl]
      exact .subscribing ⟨hs.snapshot, hs.topics, hs.subscriptions⟩ (by rintro ⟨⟩)
    | @loadedKnown fresh hl hnew =>
      rw [hs.topics] at hnew
      have hn : ¬ HasToSubscribe .refresh called fresh :=
        fun hh => (hasToSubscribe_refresh_iff hknown).1 hh hnew
      rw [hl, hs.topics]
      exact .finished (.known hn rfl hs.subscriptions)
    | loadedNew hl hnew =>
      rw [hs.topics] at hnew
      rw [hl]
      exact .stopping ⟨hs.snapshot, hs.topics, hs.subscriptions⟩
        ((hasToSubscribe_refresh_iff hknown).2 hnew)
  | stopping hs hnew =>
    rw [hm.loads?_eq_none (by rintro ⟨⟩)]
    cases hm with
    | stopped => exact .subscribing ⟨hs.snapshot, hs.topics, hs.subscriptions⟩ hnew
    | waiting => exact .stopping hs hnew
  | @subscribing fresh hs hnew =>
    rw [hm.loads?_eq_none (by rintro ⟨⟩)]
    have hwanted := wanted_congr hs.topics kind fresh
    cases hm with
    | turnedDown hr hf =>
      have hu : called.Unchanged (refused kind s) := by
        cases kind <;> exact ⟨hs.snapshot, hs.topics, hs.subscriptions⟩
      exact .finished (.turnedDown hnew (hwanted ▸ hf) hu)
    | subscribed hr =>
      have hb : (s.resubscribed (wanted kind s fresh)).broker.subscriptions
          = called.broker.subscriptions ++ [wanted kind called fresh] := by
        rw [Site.resubscribed, Broker.subscribe, hr, ← hs.subscriptions, ← hwanted]
        rfl
      exact .installing hs.topics hb hnew
  | installing ht hb hnew =>
    rw [hm.loads?_eq_none (by rintro ⟨⟩)]
    cases hm with
    | installed =>
      rw [ht]
      exact .finished (.subscribed hnew rfl hb)
  | finished => cases hopen

/-- An operation came to the same where what operations change is the same. -/
theorem Outcome.stays {kind : Kind} {loaded : Except Store.Fault Snapshot} {answer : Except Fault Report}
    (h : Outcome kind called found s loaded answer) (hs : s.Unchanged s') :
    Outcome kind called found s' loaded answer := by
  cases h with
  | unanswered h => exact .unanswered (h.trans hs)
  | known hnew hsnapshot hb =>
    exact .known hnew (hs.snapshot.trans hsnapshot) (hs.subscriptions.trans hb)
  | turnedDown hnew hf h => exact .turnedDown hnew hf (h.trans hs)
  | subscribed hnew hsnapshot hb =>
    exact .subscribed hnew (hs.snapshot.trans hsnapshot) (hs.subscriptions.trans hb)

theorem Since.stays {kind : Kind} {loaded? : Option (Except Store.Fault Snapshot)} {phase : Phase}
    (h : Since kind called found s loaded? phase) (hs : s.Unchanged s') :
    Since kind called found s' loaded? phase := by
  cases h with
  | querying h => exact .querying (h.trans hs)
  | stopping h hnew => exact .stopping (h.trans hs) hnew
  | subscribing h hnew => exact .subscribing (h.trans hs) hnew
  | installing ht hb hnew =>
    exact .installing (hs.topics.trans ht) (hs.subscriptions.trans hb) hnew
  | finished h => exact .finished (h.stays hs)

/-- A refresh that got a snapshot asked the broker for the old and the new topics together,
and it has noted them or refuses them, exactly if there are new topics. -/
theorem Outcome.asked_iff {fresh : Snapshot} {answer : Except Fault Report}
    (h : Outcome .refresh called found s (.ok fresh) answer) :
    (s.broker.subscriptions = called.broker.subscriptions ++ [union called.topics fresh.topics]
        ∨ ∃ f, answer = .error (.transport f)
          ∧ (found.broker.subscribe (union called.topics fresh.topics)).2 = .error f)
      ↔ ∃ topic, fresh.contains topic = true ∧ called.snapshot.contains topic = false := by
  cases h with
  | known hnew hs hb =>
    refine iff_of_false ?_ fun ht => hnew fun _ => ht
    rintro (hlog | ⟨f, hf, -⟩)
    · rw [hb] at hlog
      simp at hlog
    · cases hf
  | turnedDown hnew hf => exact iff_of_true (.inr ⟨_, rfl, hf⟩) (hnew rfl)
  | subscribed hnew hs hb => exact iff_of_true (.inl hb) (hnew rfl)

/-- How many steps an operation has ahead of it at most, if it does not have to wait. -/
def ahead (o : Operation) : Nat :=
  match o.phase with
  | .querying => 4
  | .stopping _ => 3
  | .subscribing _ => 2
  | .installing .. => 1
  | .finished _ => 0

theorem ahead_eq_zero_iff (o : Operation) : o.ahead = 0 ↔ o.answer?.isSome = true := by
  obtain ⟨kind, phase⟩ := o
  cases phase <;> simp [ahead, answer?]

theorem ahead_le (o : Operation) : o.ahead ≤ 4 := by
  obtain ⟨kind, phase⟩ := o
  cases phase <;> exact Nat.le_of_ble_eq_true rfl

theorem Moves.ahead_le (hm : Moves c s o s' o') (he : s.taskEnded = true) :
    o'.ahead ≤ o.ahead - 1 := by
  cases hm with
  | waiting hw =>
    rw [he] at hw
    cases hw
  | unanswered | loadedStart | loadedKnown | loadedNew | stopped | turnedDown | subscribed
  | installed | rested => exact Nat.le_of_ble_eq_true rfl

end Operation

/-! ## Managers -/

/-- The site with everything as another has it but what operations change: the snapshot,
its topics, the subscription, and what the broker is and was subscribed to. -/
def Site.withRest (s other : Site) : Site :=
  { other with
    snapshot := s.snapshot
    topics := s.topics
    subscribed := s.subscribed
    broker :=
      { other.broker with
        subscription := s.broker.subscription
        subscriptions := s.broker.subscriptions } }

theorem Site.unchanged_withRest (s other : Site) : s.Unchanged (s.withRest other) :=
  ⟨rfl, rfl, rfl⟩

/-- An operation fits the site as long as what operations change stays. -/
theorem Operation.Fits.withRest {o : Operation} {s : Site} (h : o.Fits s) (other : Site) :
    o.Fits (s.withRest other) := by
  obtain ⟨kind, phase⟩ := o
  cases phase with
  | installing fresh topics => exact ⟨h.known, h.subscription, h.ahead, h.kept⟩
  | querying | stopping | subscribing | finished => exact ⟨h.known, h.noted, h.subset⟩

/-- A site with the operation that was called last.  Of that operation it is noted at which
site it was called, which one its last step found, and what the store answered it. -/
structure Manager where
  site : Site
  operation? : Option Operation := none
  called : Site := site
  found : Site := site
  loaded? : Option (Except Store.Fault Snapshot) := none

/-- What may happen next: an operation is called, the one under way goes on by a step, or
something changes elsewhere. -/
inductive Occurrence
  | call (kind : Kind)
  | proceed
  | elsewhere (other : Site)

namespace Manager

/-- No operation is under way. -/
def idle (m : Manager) : Bool := m.operation?.all fun o => o.answer?.isSome

/-- The manager after an operation was called; only one at a time is under way. -/
def call (m : Manager) (kind : Kind) : Manager :=
  if m.idle then { site := m.site, operation? := some ⟨kind, .querying⟩ } else m

/-- The manager after a step of the operation under way. -/
def proceed (c : Setup) (m : Manager) : Manager :=
  match m.operation? with
  | none => m
  | some o =>
    if o.answer?.isSome then m
    else
      { m with
        site := (o.step c m.site).1
        operation? := some (o.step c m.site).2
        found := m.site
        loaded? := (m.site.loads? c (o.step c m.site).1).or m.loaded? }

theorem idle_or_open (m : Manager) :
    m.idle = true ∨ ∃ o, m.operation? = some o ∧ o.answer? = none := by
  cases ho : m.operation? with
  | none => exact .inl (by rw [idle, ho]; rfl)
  | some o =>
    cases hanswer : o.answer? with
    | none => exact .inr ⟨o, rfl, hanswer⟩
    | some answer => exact .inl (by rw [idle, ho, Option.all_some, hanswer]; rfl)

/-- Nothing goes on without an operation under way. -/
theorem proceed_idle (c : Setup) {m : Manager} (hi : m.idle = true) : m.proceed c = m := by
  unfold proceed
  split
  · rfl
  · rename_i o ho
    rw [idle, ho] at hi
    exact if_pos hi

theorem proceed_open (c : Setup) {m : Manager} {o : Operation} (ho : m.operation? = some o)
    (hopen : o.answer? = none) :
    m.proceed c =
      { m with
        site := (o.step c m.site).1
        operation? := some (o.step c m.site).2
        found := m.site
        loaded? := (m.site.loads? c (o.step c m.site).1).or m.loaded? } := by
  simp only [proceed, ho, hopen, Option.isSome_none, Bool.false_eq_true, if_false]

/-- The manager after something happened. -/
def after (c : Setup) (m : Manager) : Occurrence → Manager
  | .call kind => m.call kind
  | .proceed => m.proceed c
  | .elsewhere other => { m with site := m.site.withRest other }

/-- The manager after several things happened in order. -/
def follow (c : Setup) (m : Manager) (history : List Occurrence) : Manager :=
  history.foldl (after c) m

/-! ## What stays true of a manager -/

/-- What is true of a manager at all times. -/
structure Sound (m : Manager) : Prop where
  site : m.operation?.elim m.site.Covered fun o => o.Fits m.site
  upToDate : m.site.broker.UpToDate
  known : m.called.topics = m.called.snapshot.topics
  since : ∀ o, m.operation? = some o →
    Operation.Since o.kind m.called m.found m.site m.loaded? o.phase

/-- Where no operation is under way, the site is covered. -/
theorem Sound.covered {m : Manager} (h : m.Sound) (hi : m.idle = true) : m.site.Covered := by
  have hs := h.site
  cases ho : m.operation? with
  | none =>
    rw [ho] at hs
    exact hs
  | some o =>
    obtain ⟨kind, phase⟩ := o
    rw [idle, ho] at hi
    rw [ho] at hs
    cases phase with
    | finished answer => exact hs
    | querying | stopping | subscribing | installing => cases hi

/-- While a refresh is under way, what the snapshot in force resolves is subscribed. -/
theorem Sound.resolved {m : Manager} (h : m.Sound) {phase : Phase}
    (ho : m.operation? = some ⟨.refresh, phase⟩) {topic : String}
    (ht : m.site.snapshot.contains topic = true) : topic ∈ m.site.broker.subscription := by
  have hs := h.site
  rw [ho] at hs
  cases phase with
  | installing fresh topics => exact Site.Between.resolved hs ht
  | querying | stopping | subscribing | finished => exact Site.Covered.resolved hs ht

/-- An operation that is finished got an answer from the store, and came to what follows
from it. -/
theorem Sound.outcome {m : Manager} (h : m.Sound) {kind : Kind} {answer : Except Fault Report}
    (ho : m.operation? = some ⟨kind, .finished answer⟩) :
    ∃ loaded, m.loaded? = some loaded
      ∧ Operation.Outcome kind m.called m.found m.site loaded answer := by
  have hsince := h.since _ ho
  generalize m.loaded? = loaded? at hsince ⊢
  cases hsince with
  | finished hout => exact ⟨_, rfl, hout⟩

theorem sound_call {m : Manager} (h : m.Sound) (kind : Kind) : (m.call kind).Sound := by
  unfold call
  split
  · rename_i hi
    -- the operation before has finished, so the site is covered when the next begins
    refine ⟨h.covered hi, h.upToDate, (h.covered hi).known, ?_⟩
    intro o ho
    obtain rfl := Option.some.inj ho
    exact .querying ⟨rfl, rfl, rfl⟩
  · exact h

theorem sound_proceed (c : Setup) {m : Manager} (h : m.Sound) : (m.proceed c).Sound := by
  obtain hi | ⟨o, ho, hopen⟩ := m.idle_or_open
  · rw [proceed_idle c hi]
    exact h
  · rw [proceed_open c ho hopen]
    have hm := Operation.moves_step c m.site o
    have hs := h.site
    rw [ho] at hs
    refine ⟨hm.fits hs, Operation.upToDate_step c h.upToDate o, h.known, ?_⟩
    intro o' ho'
    obtain rfl := Option.some.inj ho'
    exact hm.since h.known hopen (h.since o ho)

/-- What happens elsewhere leaves what operations change alone. -/
theorem sound_elsewhere {m : Manager} (h : m.Sound) (other : Site) :
    ({ m with site := m.site.withRest other } : Manager).Sound := by
  refine ⟨?_, h.upToDate, h.known, fun o ho => (h.since o ho).stays (m.site.unchanged_withRest _)⟩
  have hs := h.site
  cases ho : m.operation? with
  | none =>
    rw [ho] at hs
    exact ⟨hs.known, hs.noted, hs.subset⟩
  | some o =>
    rw [ho] at hs
    exact Operation.Fits.withRest hs other

theorem sound_after (c : Setup) {m : Manager} (h : m.Sound) (x : Occurrence) :
    (m.after c x).Sound := by
  cases x with
  | call kind => exact sound_call h kind
  | proceed => exact sound_proceed c h
  | elsewhere other => exact sound_elsewhere h other

theorem sound_follow (c : Setup) {m : Manager} (h : m.Sound) (history : List Occurrence) :
    (m.follow c history).Sound := by
  induction history generalizing m with
  | nil => exact h
  | cons x rest ih => exact ih (sound_after c h x)

/-- A covered site that nothing was called at. -/
theorem sound_of_covered {s : Site} (h : s.Covered) (hb : s.broker.UpToDate) :
    ({ site := s } : Manager).Sound :=
  ⟨h, hb, h.known, fun _ ho => nomatch ho⟩

/-- A site that nothing was done with is covered: no topics are known or subscribed. -/
theorem sound_new (store : Store) : ({ site := { store := store } } : Manager).Sound :=
  sound_of_covered ⟨rfl, rfl, List.Subset.refl _⟩ rfl

/-! ## Whole operations -/

/-- What settling does is something that happens elsewhere. -/
theorem withRest_settle (c : Setup) (s : Site) : s.withRest (s.settle c) = s.settle c := by
  have h := Site.stays_settle c s
  have hsubscription := congrArg Broker.Terms.subscription h.terms
  have hsubscriptions := congrArg Broker.Terms.subscriptions h.terms
  simp only [Broker.terms] at hsubscription hsubscriptions
  rw [Site.withRest, ← h.snapshot, ← h.topics, ← h.subscribed, ← hsubscription,
    ← hsubscriptions]

theorem follow_append (c : Setup) (m : Manager) (history more : List Occurrence) :
    m.follow c (history ++ more) = (m.follow c history).follow c more :=
  List.foldl_append

/-- The manager stands where an operation led that was called at a site. -/
structure At (m : Manager) (called s : Site) (o : Operation) : Prop where
  site : m.site = s
  operation : m.operation? = some o
  called : m.called = called

theorem at_proceed (c : Setup) {m : Manager} {called s : Site} {o : Operation}
    (h : m.At called s o) : (m.proceed c).At called (o.step c s).1 (o.step c s).2 := by
  obtain ⟨rfl, ho, rfl⟩ := h
  obtain hi | ⟨o', ho', hopen⟩ := m.idle_or_open
  · -- an operation that was answered does not go on
    have hstep : o.step c m.site = (m.site, o) := by
      rw [idle, ho] at hi
      obtain ⟨kind, phase⟩ := o
      cases phase with
      | finished answer => rfl
      | querying | stopping | subscribing | installing => cases hi
    rw [proceed_idle c hi, hstep]
    exact ⟨rfl, ho, rfl⟩
  · obtain rfl := Option.some.inj (ho.symm.trans ho')
    rw [proceed_open c ho hopen]
    exact ⟨rfl, rfl, rfl⟩

/-- A settled step is a row of occurrences. -/
theorem settledStep_follows (c : Setup) {m : Manager} {called s : Site} {o : Operation}
    (h : m.At called s o) :
    ∃ history, (m.follow c history).At called (o.settledStep c s).1 (o.settledStep c s).2 := by
  have hstep := at_proceed c h
  obtain ⟨history, hdue⟩ : ∃ history,
      (m.follow c history).At called (o.stepDue c s).1 (o.stepDue c s).2 := by
    rw [Operation.stepDue, Operation.installDue]
    split
    · exact ⟨[.proceed, .proceed], at_proceed c hstep⟩
    · exact ⟨[.proceed], hstep⟩
  refine ⟨history ++ [.elsewhere ((o.stepDue c s).1.settle c)], ?_⟩
  rw [follow_append, Operation.settledStep_eq]
  refine ⟨?_, hdue.operation, hdue.called⟩
  show (m.follow c history).site.withRest _ = _
  rw [hdue.site, withRest_settle]

/-- A whole operation is a row of occurrences. -/
theorem perform_follows (c : Setup) (kind : Kind) {m : Manager} (hi : m.idle = true) :
    ∃ (more : List Occurrence) (o : Operation),
      (m.follow c (.call kind :: more)).At m.site (Operation.perform c kind m.site).1 o
        ∧ o.kind = kind ∧ o.answer? = (Operation.perform c kind m.site).2 := by
  have h₀ : (m.call kind).At m.site m.site ⟨kind, .querying⟩ := by
    unfold call
    rw [if_pos hi]
    exact ⟨rfl, rfl, rfl⟩
  let one := Operation.settledStep c m.site ⟨kind, .querying⟩
  let two := Operation.settledStep c one.1 one.2
  let three := Operation.settledStep c two.1 two.2
  obtain ⟨first, h₁⟩ : ∃ history, ((m.call kind).follow c history).At m.site one.1 one.2 :=
    settledStep_follows c h₀
  obtain ⟨second, h₂⟩ := settledStep_follows c h₁
  obtain ⟨third, h₃⟩ := settledStep_follows c h₂
  have hkind : three.2.kind = kind :=
    (Operation.kind_settledStep c two.1 two.2).trans <|
      (Operation.kind_settledStep c one.1 one.2).trans (Operation.kind_settledStep c m.site _)
  refine ⟨first ++ second ++ third, three.2, ?_, hkind, rfl⟩
  show ((m.call kind).follow c _).At _ _ _
  rw [follow_append, follow_append]
  exact h₃

/-- **A whole operation on a site that rests is answered**, and is a row of occurrences. -/
theorem perform_answers_follows (c : Setup) (kind : Kind) {m : Manager} (hi : m.idle = true)
    (hr : m.site.Rested) :
    ∃ answer more,
      Operation.perform c kind m.site = ((m.follow c (.call kind :: more)).site, some answer)
        ∧ (m.follow c (.call kind :: more)).operation? = some ⟨kind, .finished answer⟩
        ∧ (m.follow c (.call kind :: more)).called = m.site := by
  obtain ⟨answer, ha⟩ := Operation.perform_answers c kind hr
  obtain ⟨more, ⟨kind', phase⟩, hat, hkind, ho⟩ := perform_follows c kind hi
  obtain rfl : kind' = kind := hkind
  rw [ha] at ho
  cases phase with
  | finished answer' =>
    obtain rfl := Option.some.inj ho
    exact ⟨answer', more, Prod.ext hat.site.symm ha, hat.operation, hat.called⟩
  | querying | stopping | subscribing | installing => cases ho

/-- An operation on a site that rests leaves it covered, whatever it was answered. -/
theorem covered_perform (c : Setup) (kind : Kind) {s : Site} (hr : s.Rested)
    (hs : s.Covered) (hb : s.broker.UpToDate) : (Operation.perform c kind s).1.Covered := by
  obtain ⟨answer, more, hperform, ho, -⟩ :=
    perform_answers_follows c kind (m := { site := s }) rfl hr
  rw [hperform]
  refine (sound_follow c (sound_of_covered hs hb) _).covered ?_
  rw [idle, ho]
  rfl

/-! ## What can be resolved is subscribed -/

/-- An operation goes on to its answer, unless a step of it finds that the task has a message
in hand. -/
theorem idle_of_ended (c : Setup) (others : List Site)
    (hended : ∀ other ∈ others, other.taskEnded = true) {m : Manager}
    (hlen : ∀ o, m.operation? = some o → o.ahead ≤ others.length) :
    (m.follow c (others.flatMap fun other => [.elsewhere other, .proceed])).idle = true := by
  -- each step that finds the task ended takes the operation nearer to its answer
  induction others generalizing m with
  | nil =>
    show m.idle = true
    rw [idle, Option.all_eq_true]
    exact fun o ho => o.ahead_eq_zero_iff.1 (Nat.le_zero.1 (hlen o ho))
  | cons other rest ih =>
    refine ih (fun x hx => hended x (List.mem_cons_of_mem _ hx)) ?_
    intro o ho
    let changed : Manager := { m with site := m.site.withRest other }
    change (changed.proceed c).operation? = some o at ho
    obtain hi | ⟨before, hop, hopen⟩ := changed.idle_or_open
    · rw [proceed_idle c hi] at ho
      rw [idle, ho] at hi
      exact (o.ahead_eq_zero_iff.2 hi).le.trans (Nat.zero_le _)
    · rw [proceed_open c hop hopen] at ho
      obtain rfl := Option.some.inj ho
      have hle : before.ahead ≤ rest.length + 1 := hlen before hop
      have hstep := (Operation.moves_step c changed.site before).ahead_le
        (hended other List.mem_cons_self)
      omega

/-- **Whatever happens, what can be resolved is subscribed.**  Where no operation is under
way, the topics are those of the snapshot in force, the subscription noted is that of the
broker, and the topics are among it.  While a refresh is under way, all that the snapshot
in force resolves is subscribed.  The subscription is the last that the broker did not
refuse.  Every finished operation had the store queried, and came to what follows from its
answer; a refresh that got a snapshot asked the broker for a subscription exactly if that
snapshot has a topic that the one before did not have.  An operation under way is answered
after four more steps at most that find the task ended, and one that is called where no
message is in hand is answered. -/
theorem resolved_are_subscribed (c : Setup) (store : Store) (history : List Occurrence) :
    let m := follow c { site := { store := store } } history
    (m.idle = true →
      m.site.topics = m.site.snapshot.topics
        ∧ m.site.subscribed = m.site.broker.subscription
        ∧ m.site.topics ⊆ m.site.subscribed)
      ∧ (∀ phase topic, m.operation? = some ⟨.refresh, phase⟩ →
          m.site.snapshot.contains topic = true → topic ∈ m.site.broker.subscription)
      ∧ m.site.broker.subscription = m.site.broker.subscriptions.getLast?.getD []
      ∧ (∀ kind answer, m.operation? = some ⟨kind, .finished answer⟩ →
          ∃ loaded, m.loaded? = some loaded
            ∧ Operation.Outcome kind m.called m.found m.site loaded answer)
      ∧ (∀ answer fresh, m.operation? = some ⟨.refresh, .finished answer⟩ →
          m.loaded? = some (.ok fresh) →
          let topics := union m.called.topics fresh.topics
          (m.site.broker.subscriptions = m.called.broker.subscriptions ++ [topics]
              ∨ ∃ f, answer = .error (.transport f)
                ∧ (m.found.broker.subscribe topics).2 = .error f)
            ↔ ∃ topic, fresh.contains topic = true
                ∧ m.called.snapshot.contains topic = false)
      ∧ (∀ others : List Site, 4 ≤ others.length →
          (∀ other ∈ others, other.taskEnded = true) →
          (m.follow c (others.flatMap fun other => [.elsewhere other, .proceed])).idle = true)
      ∧ ∀ kind, m.idle = true → m.site.Rested →
          ∃ answer more,
            Operation.perform c kind m.site
                = ((m.follow c (.call kind :: more)).site, some answer)
              ∧ (m.follow c (.call kind :: more)).operation?
                = some ⟨kind, .finished answer⟩
              ∧ (m.follow c (.call kind :: more)).called = m.site := by
  intro m
  have h : m.Sound := sound_follow c (sound_new store) history
  refine ⟨?_, ?_, h.upToDate, ?_, ?_, ?_, ?_⟩
  · intro hi
    have hs := h.covered hi
    exact ⟨hs.known, hs.noted, hs.subset⟩
  · intro phase topic ho ht
    exact h.resolved ho ht
  · intro kind answer ho
    exact h.outcome ho
  · intro answer fresh ho hl
    obtain ⟨loaded, hloaded, hout⟩ := h.outcome ho
    rw [hl] at hloaded
    obtain rfl := Option.some.inj hloaded
    exact hout.asked_iff
  · intro others hlen hended
    exact idle_of_ended c others hended fun o _ => o.ahead_le.trans hlen
  · intro kind hi hr
    exact perform_answers_follows c kind hi hr

end Manager

end Reshape.Subscription

/-
# Calls take turns

Any number of starts and refreshes may be called at once.  A call waits for its turn, has
the store queried, and goes on step by step until it is answered; only then another call
gets the turn.  Between any two steps everything else may change: the store, what it and the
broker refuse, the messages, the tasks.  So may the store between the query and the step
that goes on with its answer.

The marks of the call that has the turn are the last of the trace, those of the calls before
it are complete, and the others have none (`Sound`).  Hence the trace is serial, and the
snapshot in force is always the one that was queried last among those that came so far.
-/
import Mathlib.Tactic
import Reshape.Proofs.Courses

namespace Reshape.Subscription

/-! ## Calls -/

/-- A start or a refresh that was called; `seen?` is the store as it was when queried. -/
structure Call where
  operation : Operation
  seen? : Option Store := none

/-- The call was not answered yet. -/
def Call.isOpen (x : Call) : Bool := x.operation.answer?.isNone

/-- The call had the store queried and was not answered yet. -/
def Call.underWay (x : Call) : Bool := x.isOpen && x.seen?.isSome

/-- A site with the calls that were made at it, in order, and which of them has the turn. -/
structure Turns where
  site : Site
  calls : List Call := []
  turn? : Option Nat := none
  trace : List (Nat × Mark) := []

/-- What may happen next: a start or a refresh is called, one that was called goes on, or
something changes elsewhere. -/
inductive Event
  | called (kind : Kind)
  | proceeds (i : Nat)
  | elsewhere (other : Site)

namespace Turns

/-- A call is made; it waits for its turn. -/
def call (m : Turns) (kind : Kind) : Turns :=
  { m with calls := m.calls ++ [⟨⟨kind, .querying⟩, none⟩] }

/-- The call that has the turn has the store queried. -/
def query (m : Turns) (i : Nat) (x : Call) : Turns :=
  { m with
    site := m.site.queried
    calls := m.calls.set i { x with seen? := some m.site.store }
    trace := m.trace ++ [(i, .queried m.site.store)] }

/-- The call that has the turn goes on by a step, with what it saw of the store; when it is
answered, it gives the turn back. -/
def goOn (c : Setup) (m : Turns) (i : Nat) (x : Call) (seen : Store) : Turns :=
  let s := { m.site with store := seen }
  { m with
    site := { (x.operation.step c s).1 with store := m.site.store }
    calls := m.calls.set i { x with operation := (x.operation.step c s).2 }
    turn? := if (x.operation.step c s).2.answer?.isNone then some i else none
    trace := m.trace ++ marksOf i (x.operation.marks c s) }

/-- A call takes the turn, or goes on if it has it; it waits while another one has it. -/
def proceed (c : Setup) (m : Turns) (i : Nat) : Turns :=
  match m.calls[i]?, m.turn? with
  | none, _ => m
  | some x, none => if x.isOpen then { m with turn? := some i } else m
  | some x, some j =>
    if i = j then
      match x.seen? with
      | none => m.query i x
      | some seen => m.goOn c i x seen
    else m

/-- The site and the calls after something happened. -/
def after (c : Setup) (m : Turns) : Event → Turns
  | .called kind => m.call kind
  | .proceeds i => m.proceed c i
  | .elsewhere other => { m with site := m.site.withRest other }

/-- The site and the calls after several things happened in order. -/
def follow (c : Setup) (m : Turns) (history : List Event) : Turns := history.foldl (after c) m

/-! ### What stays true -/

/-- The marks of the call that has the turn are the last ones. -/
structure Holds (c : Setup) (calls : List Call) (trace : List (Nat × Mark)) (i : Nat) (x : Call)
    (past : List (Nat × Mark)) (marks : List Mark) : Prop where
  call : calls[i]? = some x
  isOpen : x.isOpen = true
  course : Course c x.seen? x.operation.phase marks
  serial : Serial c past
  without : Without past i
  trace : trace = past ++ marksOf i marks

/-- A call that waits for its turn has done nothing yet. -/
structure Waits (trace : List (Nat × Mark)) (i : Nat) (x : Call) : Prop where
  phase : x.operation.phase = .querying
  seen? : x.seen? = none
  without : Without trace i

/-- What is true of a site and its calls at all times. -/
structure Sound (c : Setup) (m : Turns) : Prop where
  serial : Serial c m.trace
  holds : ∀ i, m.turn? = some i → ∃ x past marks, Holds c m.calls m.trace i x past marks
  waits : ∀ i x, m.calls[i]? = some x → x.isOpen = true → m.turn? ≠ some i → Waits m.trace i x
  called : ∀ x ∈ m.trace, x.1 < m.calls.length
  snapshot : m.site.snapshot = lastInstalled m.trace
  noted : m.site.noted = lastNoted m.trace

variable {c : Setup} {m : Turns}

theorem sound_call (h : m.Sound c) (kind : Kind) : (m.call kind).Sound c := by
  have hold {i : Nat} (hi : i < m.calls.length) : (m.call kind).calls[i]? = m.calls[i]? :=
    List.getElem?_append_left hi
  refine ⟨h.serial, ?_, ?_, ?_, h.snapshot, h.noted⟩
  · intro i hi
    obtain ⟨x, past, marks, hh⟩ := h.holds i hi
    have hcall := (hold (List.getElem?_eq_some_iff.1 hh.call).1).trans hh.call
    exact ⟨x, past, marks, hcall, hh.isOpen, hh.course, hh.serial, hh.without, hh.trace⟩
  · intro i x hx ho ht
    by_cases hi : i < m.calls.length
    · exact h.waits i x ((hold hi).symm.trans hx) ho ht
    · -- the call that was just made has no marks, as there are only those of calls made before
      rw [call, List.getElem?_append_right (Nat.le_of_not_lt hi)] at hx
      have hx' : x ∈ [(⟨⟨kind, .querying⟩, none⟩ : Call)] := List.mem_of_getElem? hx
      rw [List.mem_singleton.1 hx']
      refine ⟨rfl, rfl, fun y hy hyi => hi ?_⟩
      rw [← hyi]
      exact h.called y hy
  · intro x hx
    rw [call, List.length_append]
    exact Nat.lt_add_right 1 (h.called x hx)

/-- A call that waits may take the turn, if it is free. -/
theorem sound_taken (h : m.Sound c) {i : Nat} {x : Call} (hx : m.calls[i]? = some x)
    (ho : x.isOpen = true) (ht : m.turn? = none) :
    ({ m with turn? := some i } : Turns).Sound c := by
  obtain ⟨hphase, hseen, hwithout⟩ := h.waits i x hx ho (by simp [ht])
  refine ⟨h.serial, ?_, ?_, h.called, h.snapshot, h.noted⟩
  · intro j hj
    obtain rfl := Option.some.inj hj
    refine ⟨x, m.trace, [], hx, ho, ?_, h.serial, hwithout, (List.append_nil _).symm⟩
    rw [hphase, hseen]
    exact .waiting
  · intro j y hy hyo _
    exact h.waits j y hy hyo (by simp [ht])

/-- **What the call does that has the turn** keeps the trace one of one call after another. -/
theorem sound_gone (h : m.Sound c) {i : Nat} {x : Call} {past : List (Nat × Mark)}
    {marks : List Mark} (x' : Call) (more : List Mark) (s' : Site) (ht : m.turn? = some i)
    (hh : Holds c m.calls m.trace i x past marks)
    (hc : Course c x'.seen? x'.operation.phase (marks ++ more))
    (hs : s'.snapshot = Mark.last Mark.installed? m.site.snapshot more)
    (hn : s'.noted = Mark.last Mark.noted? m.site.noted more) :
    ({ site := s', calls := m.calls.set i x', turn? := if x'.isOpen then some i else none,
       trace := m.trace ++ marksOf i more } : Turns).Sound c := by
  have htrace : m.trace ++ marksOf i more = past ++ marksOf i (marks ++ more) := by
    rw [hh.trace, List.append_assoc, marksOf, marksOf, marksOf, List.map_append]
  have hi : i < m.calls.length := (List.getElem?_eq_some_iff.1 hh.call).1
  have hserial : Serial c (past ++ marksOf i (marks ++ more)) := .turn hh.serial hh.without hc
  refine ⟨htrace ▸ hserial, ?_, ?_, ?_, ?_, ?_⟩
  · -- it keeps the turn if it was not answered
    intro j hj
    cases ho : x'.isOpen with
    | false => simp [ho] at hj
    | true =>
      obtain rfl : i = j := by simpa [ho] using hj
      exact ⟨x', past, marks ++ more, List.getElem?_set_self hi, ho, hc, hh.serial, hh.without,
        htrace⟩
  · -- the others go on waiting, as the marks are none of theirs
    intro j y hy hyo hyt
    have hji : j ≠ i := by
      rintro rfl
      obtain rfl : x' = y := Option.some.inj ((List.getElem?_set_self hi).symm.trans hy)
      exact hyt (if_pos hyo)
    obtain ⟨hphase, hseen, hwithout⟩ := h.waits j y
      ((List.getElem?_set_ne hji.symm).symm.trans hy) hyo (by simp [ht, hji.symm])
    exact ⟨hphase, hseen, hwithout.append (without_marksOf hji more)⟩
  · intro y hy
    rw [List.length_set]
    rcases List.mem_append.1 hy with hy | hy
    · exact h.called y hy
    · rw [fst_of_mem_marksOf hy]
      exact hi
  · rw [hs, h.snapshot, lastInstalled, lastInstalled, List.map_append, snd_marksOf,
      Mark.last_append]
  · rw [hn, h.noted, lastNoted, lastNoted, List.map_append, snd_marksOf, Mark.last_append]

/-- A call that has the turn goes on in its course. -/
theorem sound_proceed (h : m.Sound c) (i : Nat) : (m.proceed c i).Sound c := by
  unfold proceed
  split
  · exact h
  · rename_i x hx ht
    split
    · exact sound_taken h hx ‹_› ht
    · exact h
  · rename_i x j hx ht
    split
    · rename_i hij
      subst hij
      obtain ⟨x', past, marks, hh⟩ := h.holds i ht
      obtain rfl : x = x' := Option.some.inj (hx.symm.trans hh.call)
      have hcourse := hh.course
      split
      · -- it has not seen the store, so it is at the beginning and has no marks
        rename_i hseen
        rw [hseen] at hcourse
        obtain ⟨hphase, rfl⟩ := hcourse.eq_nil
        have hgone := sound_gone h { x with seen? := some m.site.store }
          [.queried m.site.store] m.site.queried ht hh (by rw [hphase]; exact .queried) rfl rfl
        rwa [show Call.isOpen { x with seen? := some m.site.store } = true from hh.isOpen,
          if_pos rfl, ← ht] at hgone
      · -- it goes on by a step of its operation, at the store that it saw
        rename_i seen hseen
        rw [hseen] at hcourse
        have hnone : x.operation.answer? = none := Option.isNone_iff_eq_none.1 hh.isOpen
        obtain ⟨hs, hn⟩ := Operation.last_marks c { m.site with store := seen } x.operation
        exact sound_gone h
          { x with operation := (x.operation.step c { m.site with store := seen }).2 } _ _ ht hh
          (hseen ▸ hcourse.next (s := { m.site with store := seen }) hnone) hs.symm hn.symm
    · exact h

theorem sound_after (h : m.Sound c) (x : Event) : (m.after c x).Sound c := by
  cases x with
  | called kind => exact sound_call h kind
  | proceeds i => exact sound_proceed h i
  | elsewhere other => exact ⟨h.serial, h.holds, h.waits, h.called, h.snapshot, h.noted⟩

theorem sound_follow (h : m.Sound c) (history : List Event) : (m.follow c history).Sound c := by
  induction history generalizing m with
  | nil => exact h
  | cons x rest ih => exact ih (sound_after h x)

/-- Nothing was called yet, and nothing is in force. -/
theorem sound_new (c : Setup) (store : Store) :
    ({ site := { store := store } } : Turns).Sound c where
  serial := .nil
  holds := fun _ hi => by cases hi
  waits := fun _ _ hx => by cases hx
  called := fun _ hx => absurd hx List.not_mem_nil
  snapshot := rfl
  noted := rfl

/-- Only the call that has the turn is under way. -/
theorem Sound.turn_of_underWay (h : m.Sound c) {i : Nat} {x : Call} (hx : m.calls[i]? = some x)
    (hu : x.underWay = true) : m.turn? = some i := by
  obtain ⟨ho, hs⟩ := Bool.and_eq_true_iff.1 hu
  by_contra ht
  rw [(h.waits i x hx ho ht).seen?] at hs
  cases hs

/-- **Calls take turns.**  However many starts and refreshes are called, in whatever order
they go on, and whatever changes in between: one at most is under way; between the marks of
one call there are none of another; the snapshot in force is the one that comes from the
store that was queried last, among the calls that came to put one in force, and what is
noted was noted with it; and before a snapshot is replaced, the store is queried anew that
the next one comes from. -/
theorem refreshes_take_turns (c : Setup) (store : Store) (history : List Event) :
    let m := follow c { site := { store := store } } history
    (∀ (i j : Nat) (x y : Call), m.calls[i]? = some x → m.calls[j]? = some y →
        x.underWay = true → y.underWay = true → i = j)
      ∧ (∀ x y z, [x, y, z].Sublist m.trace → x.1 = z.1 → y.1 = x.1)
      ∧ ((reaching m.trace).getLast?.elim (m.site.snapshot = .empty) fun seen =>
          Snapshot.load c.engine c.workspace? seen = .ok m.site.snapshot)
      ∧ (m.site.snapshot = lastInstalled m.trace ∧ m.site.noted = lastNoted m.trace)
      ∧ ∀ i j fresh fresh',
          [(i, Mark.installed fresh), (j, .installed fresh')].Sublist m.trace →
          ∃ seen, Snapshot.load c.engine c.workspace? seen = .ok fresh'
            ∧ [(i, Mark.installed fresh), (j, .queried seen), (j, .installed fresh')].Sublist
                m.trace := by
  intro m
  have h : m.Sound c := sound_follow (sound_new c store) history
  refine ⟨?_, ?_, ?_, ⟨h.snapshot, h.noted⟩, ?_⟩
  · intro i j x y hx hy hxu hyu
    have hi := h.turn_of_underWay hx hxu
    have hj := h.turn_of_underWay hy hyu
    exact Option.some.inj (hi.symm.trans hj)
  · intro x y z hsub hxz
    exact h.serial.unseparated hsub hxz
  · rw [h.snapshot]
    exact h.serial.loaded
  · intro i j fresh fresh' hsub
    exact h.serial.queried_between hsub

/-! ### Whole operations -/

/-- A step that queries the store and goes on at once is a step with the store seen. -/
theorem step_seen (c : Setup) (kind : Kind) (s : Site) :
    { (Operation.step c s ⟨kind, .querying⟩).1 with store := s.queried.store }
      = (Operation.step c s ⟨kind, .querying⟩).1 := by
  have hm := Operation.moves_step c s ⟨kind, .querying⟩
  generalize Operation.step c s ⟨kind, .querying⟩ = after at hm ⊢
  obtain ⟨s', o'⟩ := after
  cases hm <;> rfl

/-- Behind its query, an operation does not look at the store. -/
theorem step_unseen (c : Setup) (s : Site) (seen : Store) {o : Operation}
    (ho : o.phase ≠ .querying) :
    { (o.step c { s with store := seen }).1 with store := s.store } = (o.step c s).1
      ∧ (o.step c { s with store := seen }).2 = (o.step c s).2 := by
  obtain ⟨kind, phase⟩ := o
  cases phase with
  | querying => exact absurd rfl ho
  | stopping fresh =>
    have hended : ({ s with store := seen } : Site).taskEnded = s.taskEnded := rfl
    cases h : s.taskEnded <;> simp [Operation.step, hended, h]
  | subscribing fresh =>
    cases h : s.broker.refusingSubscribe <;> cases kind <;>
      simp [Operation.step, Operation.wanted, Operation.refused, Broker.subscribe,
        Site.startTask, h]
  | installing fresh topics => exact ⟨rfl, rfl⟩
  | finished answer => exact ⟨rfl, rfl⟩

/-- A call stands where its operation led; it has the turn until it is answered. -/
structure At (m : Turns) (i : Nat) (s : Site) (o : Operation) : Prop where
  site : m.site = s
  call : ∃ seen?, m.calls[i]? = some ⟨o, seen?⟩ ∧ (seen? = none ↔ o.phase = .querying)
  turn : m.turn? = if o.answer?.isNone then some i else none

theorem follow_append (c : Setup) (m : Turns) (history more : List Event) :
    m.follow c (history ++ more) = (m.follow c history).follow c more :=
  List.foldl_append

/-- A call that has the turn and has seen the store goes on as its operation does. -/
theorem at_goOn (c : Setup) {m : Turns} {i : Nat} {s : Site} {o : Operation}
    (seen : Store) (hx : m.calls[i]? = some ⟨o, some seen⟩) (ht : m.turn? = some i)
    (hs : { (o.step c { m.site with store := seen }).1 with store := m.site.store }
      = (o.step c s).1)
    (ho : (o.step c { m.site with store := seen }).2 = (o.step c s).2) :
    (m.after c (.proceeds i)).At i (o.step c s).1 (o.step c s).2 := by
  have hi : i < m.calls.length := (List.getElem?_eq_some_iff.1 hx).1
  have hafter : m.after c (.proceeds i) = m.goOn c i ⟨o, some seen⟩ seen := by
    simp only [after, proceed, hx, ht, if_true]
  rw [hafter]
  refine ⟨hs, ⟨some seen, ?_, ?_⟩, ?_⟩
  · rw [goOn, List.getElem?_set_self hi, ho]
  · exact iff_of_false (by simp) (Operation.moves_step c s o).phase_ne_querying
  · rw [goOn, ho]

theorem at_step (c : Setup) {m : Turns} {i : Nat} {s : Site} {o : Operation} (h : m.At i s o) :
    ∃ history, (m.follow c history).At i (o.step c s).1 (o.step c s).2 := by
  obtain ⟨hsite, ⟨seen?, hx, hseen⟩, ht⟩ := h
  cases ho : o.answer? with
  | some answer =>
    -- an operation that was answered does not go on
    have hstep : o.step c s = (s, o) := by
      obtain ⟨kind, phase⟩ := o
      cases phase <;> first | rfl | cases ho
    rw [hstep]
    exact ⟨[], hsite, ⟨seen?, hx, hseen⟩, ht⟩
  | none =>
    rw [ho, Option.isNone_none, if_pos rfl] at ht
    cases seen? with
    | some seen =>
      have hphase : o.phase ≠ .querying := fun hq => by cases hseen.2 hq
      obtain ⟨hs, hop⟩ := step_unseen c m.site seen hphase
      rw [hsite] at hs hop
      refine ⟨[.proceeds i], at_goOn c seen hx ht ?_ ?_⟩ <;> rw [hsite] <;> assumption
    | none =>
      obtain ⟨kind, phase⟩ := o
      obtain rfl : phase = .querying := hseen.1 rfl
      have hi : i < m.calls.length := (List.getElem?_eq_some_iff.1 hx).1
      have hquery : m.after c (.proceeds i) = m.query i ⟨⟨kind, .querying⟩, none⟩ := by
        simp only [after, proceed, hx, ht, if_true]
      refine ⟨[.proceeds i, .proceeds i], ?_⟩
      show ((m.after c (.proceeds i)).after c (.proceeds i)).At i _ _
      rw [hquery]
      refine at_goOn c s.store ?_ ht ?_ ?_
      · rw [query, List.getElem?_set_self hi, hsite]
      · rw [query, hsite]
        exact step_seen c kind s
      · rw [query, hsite]
        rfl

theorem at_settledStep (c : Setup) {m : Turns} {i : Nat} {s : Site} {o : Operation}
    (h : m.At i s o) :
    ∃ history, (m.follow c history).At i (o.settledStep c s).1 (o.settledStep c s).2 := by
  obtain ⟨first, hstep⟩ := at_step c h
  obtain ⟨due, hdue⟩ : ∃ history,
      (m.follow c history).At i (o.stepDue c s).1 (o.stepDue c s).2 := by
    rw [Operation.stepDue, Operation.installDue]
    split
    · obtain ⟨second, hsecond⟩ := at_step c hstep
      rw [← follow_append] at hsecond
      exact ⟨first ++ second, hsecond⟩
    · exact ⟨first, hstep⟩
  refine ⟨due ++ [.elsewhere ((o.stepDue c s).1.settle c)], ?_⟩
  rw [follow_append, Operation.settledStep_eq]
  refine ⟨?_, hdue.call, hdue.turn⟩
  show (m.follow c due).site.withRest _ = _
  rw [hdue.site, Manager.withRest_settle]

/-- **A whole operation is a row of events**, where no call has the turn: it is called, takes
the turn, and goes on; where it is answered it has given the turn back. -/
theorem perform_follows_turns (c : Setup) (kind : Kind) {m : Turns} (ht : m.turn? = none) :
    ∃ history, (m.follow c history).site = (Operation.perform c kind m.site).1
      ∧ ((Operation.perform c kind m.site).2.isSome → (m.follow c history).turn? = none) := by
  have hcall : (m.call kind).calls[m.calls.length]? = some ⟨⟨kind, .querying⟩, none⟩ := by
    rw [call, List.getElem?_append_right le_rfl, Nat.sub_self]
    rfl
  have htaken : (m.call kind).proceed c m.calls.length
      = { m.call kind with turn? := some m.calls.length } := by
    have hfree : (m.call kind).turn? = none := ht
    simp only [proceed, hcall, hfree]
    rfl
  have h₀ : (m.follow c [.called kind, .proceeds m.calls.length]).At m.calls.length m.site
      ⟨kind, .querying⟩ := by
    show ((m.call kind).proceed c m.calls.length).At _ _ _
    rw [htaken]
    exact ⟨rfl, ⟨none, hcall, iff_of_true rfl rfl⟩, rfl⟩
  obtain ⟨first, h₁⟩ := at_settledStep c h₀
  obtain ⟨second, h₂⟩ := at_settledStep c h₁
  obtain ⟨third, h₃⟩ := at_settledStep c h₂
  refine ⟨[.called kind, .proceeds m.calls.length] ++ first ++ second ++ third, ?_⟩
  rw [follow_append, follow_append, follow_append]
  refine ⟨h₃.site, fun ha => ?_⟩
  rw [h₃.turn, if_neg]
  intro hnone
  rw [Option.isNone_iff_eq_none] at hnone
  have hanswer : (Operation.perform c kind m.site).2 = none := hnone
  rw [hanswer] at ha
  cases ha

end Turns

end Reshape.Subscription

/-
# Failed refreshes leave no trace

A refresh that fails leaves the site as it was: the same snapshot, topics and subscription,
and a task that waits for messages of the same topics.  So two workers, one of which was
told to refresh in vain, are `Alike`: they answer every command in the same way and stay
alike (`alike_step`).  Hence from a row of commands failed refreshes can be left out, and
the others come to the same (`outcomes_spared`).
-/
import Mathlib.Tactic
import Reshape.Proofs.Conservation
import Reshape.Proofs.Views

namespace Reshape

namespace Worker

open Subscription (Kind Operation Setup Site)

namespace State

variable (c : Setup)

/-! ## Workers are steady -/

theorem steady_refresh {w : State} (h : w.site.Steady) : (w.refresh c).1.site.Steady := by
  rw [site_refresh]
  exact Operation.steady_perform c .refresh h

theorem steady_ticks (n : Nat) {w : State} (h : w.site.Steady) :
    (ticks c n w).site.Steady := by
  induction n generalizing w with
  | zero => exact h
  | succ n ih =>
    rw [ticks]
    split
    · exact h
    · rename_i t _
      split_ifs
      · exact ih (w := { (w.refresh c).1 with timer? := some (t.next w.clock) })
          (steady_refresh c h)
      · exact h

theorem steady_step {w : State} (h : w.site.Steady) (command : Command) :
    (w.step c command).1.site.Steady := by
  cases command with
  | start =>
    simp only [step]
    split_ifs
    · rw [site_start]
      exact Operation.steady_perform c .start h
    · exact h
  | refresh =>
    simp only [step]
    split_ifs
    · exact steady_refresh c h
    · exact h
  | push | insert | replace =>
    refine Site.Steady.settle c (h.of_eq ?_ ?_ ?_) <;> rfl
  | setFailing part on =>
    refine Site.Steady.settle c (h.of_eq ?_ ?_ ?_) <;> cases part <;> rfl
  | advance ms => exact steady_ticks c _ (w := { w with clock := w.clock + ms }) h
  | closeBroker =>
    rw [site_closeBroker]
    refine Site.Steady.settle c (h.of_eq ?_ ?_ ?_) <;> rfl
  | shutdown =>
    simp only [step]
    split_ifs
    · exact Site.steady_of_no_task (h.stopTask.settle c).rested.leaving rfl
    · exact h

theorem steady_run {w : State} (h : w.site.Steady) (commands : List Command) :
    (w.run c commands).site.Steady :=
  List.foldlRecOn commands _ (motive := fun w : State => w.site.Steady) h
    fun _ h command _ => steady_step c h command

/-! ## Workers that are alike -/

/-- Two workers with sites of one view, at the same time, with the same timer. -/
structure Alike (w w' : State) : Prop where
  view : w'.site.view = w.site.view
  interval : w'.interval = w.interval
  clock : w'.clock = w.clock
  timer : w'.timer? = w.timer?
  running : w'.running = w.running

variable {w w' w'' : State}

theorem Alike.symm_trans (h : w.Alike w') (h' : w.Alike w'') : w'.Alike w'' :=
  ⟨h'.view.trans h.view.symm, h'.interval.trans h.interval.symm, h'.clock.trans h.clock.symm,
    h'.timer.trans h.timer.symm, h'.running.trans h.running.symm⟩

/-- Alike workers stay alike if their sites have one view again. -/
theorem Alike.onView (h : w.Alike w') {s s' : Site} (hview : s'.view = s.view) :
    Alike { w with site := s } { w' with site := s' } :=
  ⟨hview, h.interval, h.clock, h.timer, h.running⟩

theorem alike_start (hr : w.site.Rested) (hr' : w'.site.Rested) (h : w.Alike w') :
    (w.start c).1.Alike (w'.start c).1 ∧ (w'.start c).2 = (w.start c).2 := by
  obtain ⟨hview, hanswer⟩ := Operation.view_perform c .start hr hr' h.view
  unfold start
  generalize Operation.perform c .start w.site = after at *
  generalize Operation.perform c .start w'.site = after' at *
  obtain ⟨site, answer?⟩ := after
  obtain ⟨site', answer?'⟩ := after'
  obtain rfl : answer?' = answer? := hanswer
  rcases answer?' with _ | (f | r)
  · exact ⟨h.onView hview, rfl⟩
  · exact ⟨h.onView hview, rfl⟩
  · refine ⟨⟨hview, h.interval, h.clock, ?_, h.running⟩, rfl⟩
    show Timer.start? w'.clock w'.interval = Timer.start? w.clock w.interval
    rw [h.clock, h.interval]

theorem alike_refresh (hr : w.site.Rested) (hr' : w'.site.Rested) (h : w.Alike w') :
    (w.refresh c).1.Alike (w'.refresh c).1 ∧ (w'.refresh c).2 = (w.refresh c).2 := by
  obtain ⟨hview, hanswer⟩ := Operation.view_perform c .refresh hr hr' h.view
  unfold refresh
  generalize Operation.perform c .refresh w.site = after at *
  generalize Operation.perform c .refresh w'.site = after' at *
  obtain ⟨site, answer?⟩ := after
  obtain ⟨site', answer?'⟩ := after'
  obtain rfl : answer?' = answer? := hanswer
  rcases answer?' with _ | (f | r) <;> exact ⟨h.onView hview, rfl⟩

theorem alike_ticks (n : Nat) {w v : State} (hs : w.site.Steady) (hs' : v.site.Steady)
    (h : w.Alike v) : (ticks c n w).Alike (ticks c n v) := by
  induction n generalizing w v with
  | zero => exact h
  | succ n ih =>
    rw [ticks, ticks, h.timer, h.clock]
    split
    · exact h
    · rename_i t _
      split_ifs
      · have hr := (alike_refresh c hs.rested hs'.rested h).1
        exact ih (w := { (w.refresh c).1 with timer? := some (t.next w.clock) })
          (v := { (v.refresh c).1 with timer? := some (t.next w.clock) })
          (steady_refresh c hs) (steady_refresh c hs')
          ⟨hr.view, hr.interval, hr.clock, rfl, hr.running⟩
      · exact h

/-- What becomes of the terms of a broker that is to close. -/
theorem terms_close (b : Broker) :
    b.close.1.terms =
      if b.terms.refusingClose then b.terms else { b.terms with closed := true } := by
  unfold Broker.close
  split_ifs <;> first | rfl | contradiction

/-- Brokers that were told the same give the same answer when they are to close. -/
theorem answer_close {b b' : Broker} (h : b'.terms = b.terms) : b'.close.2 = b.close.2 := by
  have hrefusing : b'.refusingClose = b.refusingClose := congrArg Broker.Terms.refusingClose h
  unfold Broker.close
  rw [hrefusing]
  split_ifs <;> rfl

/-- Sites of one view have one view after their brokers were to close. -/
theorem view_close {s s' : Site} (h : s'.view = s.view) :
    Site.view { s' with broker := s'.broker.close.1 } =
      Site.view { s with broker := s.broker.close.1 } := by
  have hterms : s'.broker.close.1.terms = s.broker.close.1.terms := by
    rw [terms_close, terms_close, Site.terms_of_view h]
  exact congrArg₂ (fun v terms => { v with terms := terms }) h hterms

/-- Alike workers whose sites are changed in the same way stay alike. -/
theorem alike_onSite (f : Site → Site) (h : w.Alike w') (hf : (f w'.site).view = (f w.site).view)
    (hr : (f w.site).Rested) (hr' : (f w'.site).Rested) :
    (w.onSite c f).Alike (w'.onSite c f) :=
  h.onView (Site.settle_of_view c hf hr hr')

theorem view_setFailing (part : Part) (on : Bool) {s s' : Site} (h : s'.view = s.view) :
    (setFailing part on s').view = (setFailing part on s).view := by
  cases part with
  | query => exact congrArg (fun v => { v with failing := on }) h
  | subscribe =>
    exact congrArg (fun v => { v with terms := { v.terms with refusingSubscribe := on } }) h
  | publish => exact h
  | close => exact congrArg (fun v => { v with terms := { v.terms with refusingClose := on } }) h

theorem alike_shutdown (hs : w.site.Steady) (hs' : w'.site.Steady) (h : w.Alike w') :
    (w.shutdown c).Alike (w'.shutdown c) := by
  have hstopped : (w'.site.stopTask.settle c).view = (w.site.stopTask.settle c).view :=
    Site.settle_of_view c h.view hs.stopTask.rested hs'.stopTask.rested
  exact ⟨view_close hstopped, h.interval, h.clock, rfl, rfl⟩

/-- **Alike workers answer a command in the same way**, and stay alike. -/
theorem alike_step (hs : w.site.Steady) (hs' : w'.site.Steady) (h : w.Alike w')
    (command : Command) :
    (w.step c command).1.Alike (w'.step c command).1
      ∧ (w'.step c command).2 = (w.step c command).2 := by
  have hr := hs.rested
  have hr' := hs'.rested
  cases command with
  | start =>
    simp only [step, h.running]
    split_ifs
    · exact alike_start c hr hr' h
    · exact ⟨h, rfl⟩
  | refresh =>
    simp only [step, h.running]
    split_ifs
    · exact alike_refresh c hr hr' h
    · exact ⟨h, rfl⟩
  | push ms =>
    exact ⟨alike_onSite c (fun s => { s with broker := s.broker.push ms }) h h.view
      ⟨hr.leaving, hr.isFree⟩ ⟨hr'.leaving, hr'.isFree⟩, rfl⟩
  | insert d =>
    exact ⟨alike_onSite c (fun s =>
        { s with store := { s.store with definitions := s.store.definitions ++ [d] } }) h
      (congrArg (fun v => { v with definitions := v.definitions ++ [d] }) h.view)
      ⟨hr.leaving, hr.isFree⟩ ⟨hr'.leaving, hr'.isFree⟩, rfl⟩
  | replace ds =>
    exact ⟨alike_onSite c (fun s => { s with store := { s.store with definitions := ds } }) h
      (congrArg (fun v => { v with definitions := ds }) h.view)
      ⟨hr.leaving, hr.isFree⟩ ⟨hr'.leaving, hr'.isFree⟩, rfl⟩
  | setFailing part on =>
    exact ⟨alike_onSite c (setFailing part on) h (view_setFailing part on h.view)
      (rested_setFailing part on hr) (rested_setFailing part on hr'), rfl⟩
  | advance ms =>
    have hclock : w'.clock + ms = w.clock + ms := congrArg (· + ms) h.clock
    exact ⟨alike_ticks c _ (w := { w with clock := w.clock + ms })
      (v := { w' with clock := w'.clock + ms }) hs hs'
      ⟨h.view, h.interval, hclock, h.timer, h.running⟩, rfl⟩
  | closeBroker =>
    have hview := view_close h.view
    have hanswer := answer_close (Site.terms_of_view h.view)
    simp only [step]
    generalize w.site.broker.close = after at *
    generalize w'.site.broker.close = after' at *
    obtain ⟨broker, answer⟩ := after
    obtain ⟨broker', answer'⟩ := after'
    obtain rfl : answer' = answer := hanswer
    have hsettled : (Site.settle c { w'.site with broker := broker' }).view =
        (Site.settle c { w.site with broker := broker }).view :=
      Site.settle_of_view c hview ⟨hr.leaving, hr.isFree⟩ ⟨hr'.leaving, hr'.isFree⟩
    cases answer' <;> exact ⟨h.onView hsettled, rfl⟩
  | shutdown =>
    simp only [step, h.running]
    split_ifs
    · exact ⟨alike_shutdown c hs hs' h, rfl⟩
    · exact ⟨h, rfl⟩

/-! ## Erasure -/

/-- What each of a row of commands comes to. -/
def outcomes : State → List Command → List (Command × Answer)
  | _, [] => []
  | w, command :: rest => (command, (w.step c command).2) :: outcomes (w.step c command).1 rest

/-- The command was a refresh, and it failed. -/
def isFailedRefresh : Command × Answer → Bool
  | (.refresh, .failed _) => true
  | _ => false

/-- What a row of commands comes to, failed refreshes apart. -/
def spared (w : State) (commands : List Command) : List (Command × Answer) :=
  (w.outcomes c commands).filter fun o => !isFailedRefresh o

/-- A refresh that fails leads to an alike worker. -/
theorem alike_of_isFailedRefresh (hs : w.site.Steady) {command : Command}
    (h : isFailedRefresh (command, (w.step c command).2) = true) :
    w.Alike (w.step c command).1 := by
  cases command with
  | refresh =>
    simp only [step] at h ⊢
    split_ifs at h ⊢
    · have herror := fun f => Operation.perform_of_error c .refresh (f := f) hs.rested
      unfold refresh at h ⊢
      generalize Operation.perform c .refresh w.site = after at *
      obtain ⟨site, answer?⟩ := after
      rcases answer? with _ | (f | r)
      · cases h
      · exact ⟨(herror f rfl).1, rfl, rfl, rfl, rfl⟩
      · cases h
    · cases h
  | start | push | insert | replace | setFailing | advance | closeBroker | shutdown => cases h

/-- Without the failed refreshes, the other commands come to the same, also for an alike
worker. -/
theorem outcomes_spared (hs : w.site.Steady) (hs' : w'.site.Steady) (h : w.Alike w')
    (commands : List Command) :
    w'.outcomes c ((w.spared c commands).map Prod.fst) = w.spared c commands
      ∧ (w.run c commands).Alike (w'.run c ((w.spared c commands).map Prod.fst)) := by
  induction commands generalizing w w' with
  | nil => exact ⟨rfl, h⟩
  | cons command rest ih =>
    have hnext := steady_step c hs command
    rw [spared, outcomes, List.filter_cons]
    cases hfailed : isFailedRefresh (command, (w.step c command).2) with
    | true =>
      -- the refresh can be left out, for it leads to an alike worker
      exact ih hnext hs' ((alike_of_isFailedRefresh c hs hfailed).symm_trans h)
    | false =>
      obtain ⟨ha, hanswer⟩ := alike_step c hs hs' h command
      obtain ⟨houtcomes, hrun⟩ := ih hnext (steady_step c hs' command) ha
      refine ⟨?_, hrun⟩
      show (command, (w'.step c command).2) :: _ = (command, (w.step c command).2) :: _
      rw [hanswer]
      exact congrArg _ houtcomes

/-- **Failed refreshes leave no trace.**  Whatever a worker was told before, a refresh that
fails leaves the snapshot, the topics and the subscription as they were, and a task that
runs goes on waiting for messages of as many topics as are subscribed.  So the failed
refreshes among commands can be left out: the others come to the same, and at the end the
snapshot, the topics and the subscription are the same. -/
theorem failed_refreshes_leave_no_trace (store : Store) (interval : Nat)
    (commands : List Command) :
    let w₀ : State := { site := { store := store }, interval := interval }
    let w := w₀.run c commands
    let others := (w₀.outcomes c commands).filter fun o => !isFailedRefresh o
    (∀ f, (Operation.perform c .refresh w.site).2 = some (.error f) →
        let site := (Operation.perform c .refresh w.site).1
        w.site.Agree site
          ∧ ∀ t, w.site.task? = some t → t.hasEnded = false →
            site.task? = some t ∧ t = .start w.site.subscribed.length)
      ∧ w₀.outcomes c (others.map Prod.fst) = others
      ∧ w.site.Agree (w₀.run c (others.map Prod.fst)).site := by
  intro w₀ w others
  have hs₀ : w₀.site.Steady := Site.steady_of_no_task rfl rfl
  have hs : w.site.Steady := steady_run c hs₀ commands
  have hwaits : w.site.Waits := (sound_run c (w := w₀) (sound_new store) commands).waits
  refine ⟨?_, ?_⟩
  · intro f hf
    obtain ⟨hview, hconsumes⟩ := Operation.perform_of_error c .refresh hs.rested hf
    refine ⟨Site.agree_of_view hview, fun t ht he => ?_⟩
    have hc := hs.consumes hwaits ht he
    have hstart := Option.some.inj (ht.symm.trans hc.task)
    refine ⟨?_, hstart⟩
    rw [(hconsumes rfl hc).task, Site.subscribed_of_view hview, hstart]
  · obtain ⟨houtcomes, ha⟩ := outcomes_spared c hs₀ hs₀
      ⟨rfl, rfl, rfl, rfl, rfl⟩ commands
    exact ⟨houtcomes, Site.agree_of_view ha.view⟩

end State
end Worker
end Reshape

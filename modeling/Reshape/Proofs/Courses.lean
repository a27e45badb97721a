/-
# The course of a call

What is seen of the starts and refreshes that are called is a trace of marks, each with the
number of its call: what the store held when it was queried, the subscriptions that were
asked for, the snapshots that were put in force, and what was noted with them.  The marks of
a call follow from how far it came (`Course`).

A trace is serial if it is made of the marks of one call after another (`Serial`).  In such
a trace no call comes between the marks of another, and snapshots were put in force in the
order in which the store was queried for them.
-/
import Mathlib.Tactic
import Reshape.Proofs.Coverage

namespace Reshape.Subscription

/-! ## Marks -/

/-- What is seen of a call. -/
inductive Mark
  | queried (seen : Store)
  | subscribed (topics : List String)
  | installed (fresh : Snapshot)
  | noted (topics subscribed : List String)

namespace Mark

/-- The snapshot that was put in force. -/
def installed? : Mark → Option Snapshot
  | installed fresh => some fresh
  | _ => none

/-- The topics and the subscription that were noted. -/
def noted? : Mark → Option (List String × List String)
  | noted topics asked => some (topics, asked)
  | _ => none

/-- A snapshot was put in force. -/
def anyInstalled (marks : List Mark) : Bool := marks.any fun mark => mark.installed?.isSome

/-- What the last mark tells that tells something; if none does, what was before. -/
def last {α : Type} (tells : Mark → Option α) (before : α) (marks : List Mark) : α :=
  (marks.filterMap tells).getLast?.getD before

theorem last_append {α : Type} (tells : Mark → Option α) (before : α) (marks more : List Mark) :
    last tells before (marks ++ more) = last tells (last tells before marks) more := by
  unfold last
  rw [List.filterMap_append, List.getLast?_append]
  cases (more.filterMap tells).getLast? <;> rfl

/-- Marks that tell nothing leave what was before. -/
theorem last_of_silent {α : Type} {tells : Mark → Option α} {marks : List Mark}
    (h : ∀ mark ∈ marks, tells mark = none) (before : α) : last tells before marks = before := by
  rw [last, List.filterMap_eq_nil_iff.2 h]
  rfl

end Mark

/-- What is noted with the snapshot in force: its topics and the subscription. -/
def Site.noted (s : Site) : List String × List String := (s.topics, s.subscribed)

namespace Operation

/-- The marks of a step: the subscriptions that it asks for and, where it succeeds, the
snapshot that is in force after it and what is noted then. -/
def marks (c : Setup) (s : Site) (o : Operation) : List Mark :=
  (o.asks s).map .subscribed ++
    match (o.step c s).2.answer? with
    | some (.ok _) =>
      [.installed (o.step c s).1.snapshot,
        .noted (o.step c s).1.topics (o.step c s).1.subscribed]
    | _ => []

variable {c : Setup} {s s' : Site} {o o' : Operation}

/-- Only a step that succeeds puts a snapshot in force or notes something. -/
theorem Moves.keeps_noted (hm : Moves c s o s' o') (h : ∀ report, o'.answer? ≠ some (.ok report)) :
    s'.snapshot = s.snapshot ∧ s'.noted = s.noted := by
  cases hm with
  | unanswered | loadedStart | loadedNew | stopped | waiting | subscribed | rested =>
    exact ⟨rfl, rfl⟩
  | @turnedDown kind => cases kind <;> exact ⟨rfl, rfl⟩
  | loadedKnown | installed => exact absurd rfl (h _)

/-- That a subscription was asked for puts nothing in force and notes nothing. -/
theorem last_asks {α : Type} {tells : Mark → Option α}
    (h : ∀ topics, tells (.subscribed topics) = none) (s : Site) (o : Operation) (before : α) :
    Mark.last tells before ((o.asks s).map .subscribed) = before := by
  refine Mark.last_of_silent ?_ before
  intro mark hmark
  obtain ⟨topics, -, rfl⟩ := List.mem_map.1 hmark
  exact h topics

/-- The marks of a step tell which snapshot is in force after it, and what is noted. -/
theorem last_marks (c : Setup) (s : Site) (o : Operation) :
    Mark.last Mark.installed? s.snapshot (o.marks c s) = (o.step c s).1.snapshot
      ∧ Mark.last Mark.noted? s.noted (o.marks c s) = (o.step c s).1.noted := by
  rw [marks, Mark.last_append, Mark.last_append, last_asks fun _ => rfl, last_asks fun _ => rfl]
  split
  · exact ⟨rfl, rfl⟩
  · rename_i hanswer
    obtain ⟨hsnapshot, hnoted⟩ := (moves_step c s o).keeps_noted hanswer
    exact ⟨hsnapshot.symm, hnoted.symm⟩

end Operation

/-! ## The course of a call -/

/-- The marks of a call by what it saw of the store and how far it came. -/
inductive Course (c : Setup) : Option Store → Phase → List Mark → Prop
  | waiting : Course c none .querying []
  | queried {seen : Store} : Course c (some seen) .querying [.queried seen]
  | unanswered {seen : Store} {f : Store.Fault}
      (h : Snapshot.load c.engine c.workspace? seen = .error f) :
      Course c (some seen) (.finished (.error (.store f))) [.queried seen]
  | stopping {seen : Store} {fresh : Snapshot}
      (h : Snapshot.load c.engine c.workspace? seen = .ok fresh) :
      Course c (some seen) (.stopping fresh) [.queried seen]
  | subscribing {seen : Store} {fresh : Snapshot}
      (h : Snapshot.load c.engine c.workspace? seen = .ok fresh) :
      Course c (some seen) (.subscribing fresh) [.queried seen]
  | turnedDown {seen : Store} {topics : List String} {f : TransportFault} :
      Course c (some seen) (.finished (.error (.transport f))) [.queried seen, .subscribed topics]
  | installing {seen : Store} {fresh : Snapshot} {topics : List String}
      (h : Snapshot.load c.engine c.workspace? seen = .ok fresh) :
      Course c (some seen) (.installing fresh topics) [.queried seen, .subscribed topics]
  | installedKnown {seen : Store} {fresh : Snapshot} {topics : List String} {report : Report}
      (h : Snapshot.load c.engine c.workspace? seen = .ok fresh) :
      Course c (some seen) (.finished (.ok report))
        [.queried seen, .installed fresh, .noted fresh.topics topics]
  | installedNew {seen : Store} {fresh : Snapshot} {topics : List String} {report : Report}
      (h : Snapshot.load c.engine c.workspace? seen = .ok fresh) :
      Course c (some seen) (.finished (.ok report))
        [.queried seen, .subscribed topics, .installed fresh, .noted fresh.topics topics]

namespace Course

variable {c : Setup} {seen? : Option Store} {phase : Phase} {marks : List Mark}

/-- A call that queried no store has no marks yet. -/
theorem eq_nil (h : Course c none phase marks) : phase = .querying ∧ marks = [] := by
  cases h
  exact ⟨rfl, rfl⟩

/-- The course of a call goes on with the marks of its next step. -/
theorem next {s : Site} {o : Operation} (h : Course c (some s.store) o.phase marks)
    (ho : o.answer? = none) :
    Course c (some s.store) (o.step c s).2.phase (marks ++ o.marks c s) := by
  have hm := Operation.moves_step c s o
  rw [Operation.marks]
  generalize o.step c s = after at hm ⊢
  obtain ⟨s', o'⟩ := after
  cases hm with
  | unanswered hl =>
    cases h
    exact .unanswered hl
  | loadedStart hl =>
    cases h
    exact .subscribing hl
  | loadedKnown hl =>
    cases h
    exact .installedKnown hl
  | loadedNew hl =>
    cases h
    exact .stopping hl
  | stopped =>
    cases h with
    | stopping hl => exact .subscribing hl
  | waiting =>
    cases h with
    | stopping hl => exact .stopping hl
  | turnedDown =>
    cases h with
    | subscribing hl => exact .turnedDown
  | subscribed =>
    cases h with
    | subscribing hl => exact .installing hl
  | installed =>
    cases h with
    | installing hl => exact .installedNew hl
  | rested => cases ho

/-- A snapshot is put in force once in a course. -/
theorem not_installed_twice (h : Course c seen? phase marks) (fresh fresh' : Snapshot) :
    ¬ [Mark.installed fresh, .installed fresh'].Sublist marks := by
  intro hsub
  have hlen := (hsub.filterMap Mark.installed?).length_le
  cases h <;> simp [List.filterMap_cons, Mark.installed?] at hlen

/-- Before a snapshot is put in force, the store was queried that it comes from. -/
theorem queried_before (h : Course c seen? phase marks) {fresh : Snapshot}
    (hmem : Mark.installed fresh ∈ marks) :
    ∃ seen, Snapshot.load c.engine c.workspace? seen = .ok fresh
      ∧ [Mark.queried seen, .installed fresh].Sublist marks := by
  cases h with
  | installedKnown hl =>
    obtain rfl := Mark.installed.inj (by simpa using hmem)
    exact ⟨_, hl, (List.nil_sublist _).cons_cons _ |>.cons_cons _⟩
  | installedNew hl =>
    obtain rfl := Mark.installed.inj (by simpa using hmem)
    exact ⟨_, hl, ((List.nil_sublist _).cons_cons _ |>.cons _).cons_cons _⟩
  | waiting | queried | unanswered | stopping | subscribing | turnedDown | installing =>
    simp at hmem

/-- A course leads to the snapshot that its query gives, or to none. -/
theorem installs_or_keeps (h : Course c seen? phase marks) :
    (Mark.anyInstalled marks = false ∧ ∀ before, Mark.last Mark.installed? before marks = before)
      ∨ ∃ seen fresh, seen? = some seen ∧ Snapshot.load c.engine c.workspace? seen = .ok fresh
        ∧ Mark.anyInstalled marks = true
        ∧ ∀ before, Mark.last Mark.installed? before marks = fresh := by
  cases h with
  | installedKnown hl | installedNew hl => exact .inr ⟨_, _, rfl, hl, rfl, fun _ => rfl⟩
  | waiting | queried | unanswered | stopping | subscribing | turnedDown | installing =>
    exact .inl ⟨rfl, fun _ => rfl⟩

end Course

/-! ## Traces of one call after another -/

/-- The marks with the number of their call. -/
def marksOf (i : Nat) (marks : List Mark) : List (Nat × Mark) := marks.map fun mark => (i, mark)

/-- No mark of the trace is of that call. -/
def Without (trace : List (Nat × Mark)) (i : Nat) : Prop := ∀ x ∈ trace, x.1 ≠ i

/-- The trace is made of the marks of one call after another. -/
inductive Serial (c : Setup) : List (Nat × Mark) → Prop
  | nil : Serial c []
  | turn {past : List (Nat × Mark)} {i : Nat} {seen? : Option Store} {phase : Phase}
      {marks : List Mark} (h : Serial c past) (hi : Without past i)
      (hc : Course c seen? phase marks) : Serial c (past ++ marksOf i marks)

/-- The call put a snapshot in force. -/
def installs (trace : List (Nat × Mark)) (i : Nat) : Bool :=
  trace.any fun x => x.1 = i && x.2.installed?.isSome

/-- The snapshot that was put in force last. -/
def lastInstalled (trace : List (Nat × Mark)) : Snapshot :=
  Mark.last Mark.installed? .empty (trace.map Prod.snd)

/-- What was noted last. -/
def lastNoted (trace : List (Nat × Mark)) : List String × List String :=
  Mark.last Mark.noted? ([], []) (trace.map Prod.snd)

/-- The store that a mark tells of, if its call is one of the given ones. -/
def queriedBy? (those : Nat → Bool) : Nat × Mark → Option Store
  | (i, .queried seen) => if those i then some seen else none
  | _ => none

/-- The stores that were queried by the calls that came to put a snapshot in force. -/
def reaching (trace : List (Nat × Mark)) : List Store :=
  trace.filterMap (queriedBy? (installs trace))

theorem queriedBy?_congr {those those' : Nat → Bool} {x : Nat × Mark}
    (h : those x.1 = those' x.1) : queriedBy? those x = queriedBy? those' x := by
  obtain ⟨i, mark⟩ := x
  cases mark <;> simp only [queriedBy?, h]

theorem fst_of_mem_marksOf {i : Nat} {marks : List Mark} {x : Nat × Mark}
    (h : x ∈ marksOf i marks) : x.1 = i := by
  obtain ⟨mark, -, rfl⟩ := List.mem_map.1 h
  rfl

theorem snd_marksOf (i : Nat) (marks : List Mark) : (marksOf i marks).map Prod.snd = marks := by
  rw [marksOf, List.map_map]
  exact List.map_id marks

theorem without_marksOf {i j : Nat} (h : j ≠ i) (marks : List Mark) :
    Without (marksOf i marks) j := by
  intro x hx
  rw [fst_of_mem_marksOf hx]
  exact h.symm

theorem Without.append {past more : List (Nat × Mark)} {i : Nat} (h : Without past i)
    (h' : Without more i) : Without (past ++ more) i := by
  intro x hx
  rcases List.mem_append.1 hx with hx | hx
  · exact h x hx
  · exact h' x hx

/-- A call without marks put no snapshot in force. -/
theorem Without.not_installs {trace : List (Nat × Mark)} {i : Nat} (h : Without trace i) :
    installs trace i = false := by
  rw [installs, List.any_eq_false]
  intro x hx
  simp [h x hx]

/-- A call put a snapshot in force if one of its own marks says so. -/
theorem installs_marksOf (i : Nat) (marks : List Mark) :
    installs (marksOf i marks) i = Mark.anyInstalled marks := by
  rw [installs, marksOf, List.any_map]
  simp [Function.comp_def, Mark.anyInstalled]

theorem installs_append (past more : List (Nat × Mark)) (i : Nat) :
    installs (past ++ more) i = (installs past i || installs more i) := List.any_append

/-- The queries behind which a snapshot was put in force go on with that of the last call,
if it came so far. -/
theorem reaching_append {c : Setup} {past : List (Nat × Mark)} {i : Nat} {seen? : Option Store}
    {phase : Phase} {marks : List Mark} (hi : Without past i) (hc : Course c seen? phase marks) :
    reaching (past ++ marksOf i marks) =
      reaching past ++ if Mark.anyInstalled marks then seen?.toList else [] := by
  have hown : installs (past ++ marksOf i marks) i = Mark.anyInstalled marks := by
    rw [installs_append, hi.not_installs, Bool.false_or, installs_marksOf]
  have hold : ∀ x ∈ past, installs (past ++ marksOf i marks) x.1 = installs past x.1 := by
    intro x hx
    rw [installs_append, (without_marksOf (hi x hx) marks).not_installs, Bool.or_false]
  -- the calls before the last one have not got more marks
  have hpast : past.filterMap (queriedBy? (installs (past ++ marksOf i marks)))
      = reaching past :=
    List.filterMap_congr fun x hx => queriedBy?_congr (hold x hx)
  have hlast : (marksOf i marks).filterMap (queriedBy? (installs (past ++ marksOf i marks)))
      = (marksOf i marks).filterMap (queriedBy? fun _ => Mark.anyInstalled marks) := by
    refine List.filterMap_congr fun x hx => queriedBy?_congr ?_
    rw [fst_of_mem_marksOf hx, hown]
  rw [reaching, List.filterMap_append, hpast, hlast]
  cases hc <;> rfl

namespace Serial

variable {c : Setup} {trace : List (Nat × Mark)}

/-- **No call comes between the marks of another.** -/
theorem unseparated (h : Serial c trace) {x y z : Nat × Mark} (hsub : [x, y, z].Sublist trace)
    (hxz : x.1 = z.1) : y.1 = x.1 := by
  induction h with
  | nil => cases hsub
  | @turn past i seen? phase marks _ hi hc ih =>
    obtain ⟨front, back, heq, hfront, hback⟩ := List.sublist_append_iff.1 hsub
    have hlast : ∀ w ∈ back, w.1 = i := fun w hw => fst_of_mem_marksOf (hback.subset hw)
    rcases front with _ | ⟨w, front⟩
    · -- all three are of the last call
      obtain rfl : [x, y, z] = back := heq
      rw [hlast x (by simp), hlast y (by simp)]
    · obtain ⟨rfl, heq⟩ := List.cons.inj heq
      rcases List.eq_nil_or_concat back with rfl | ⟨back, w, rfl⟩
      · rw [List.append_nil] at heq
        rw [← heq] at hfront
        exact ih hfront
      · -- the first is before the last call and the third is of it
        have hw : z = w := by
          have hlasts := congrArg List.getLast? heq
          rw [List.concat_eq_append, ← List.append_assoc, List.getLast?_concat] at hlasts
          exact Option.some.inj hlasts
        exact absurd (hxz.trans (hw ▸ hlast w (by simp))) (hi x (hfront.subset (by simp)))

/-- Between two snapshots that were put in force, the store was queried that the later one
comes from. -/
theorem queried_between (h : Serial c trace) {i j : Nat} {fresh fresh' : Snapshot}
    (hsub : [(i, Mark.installed fresh), (j, .installed fresh')].Sublist trace) :
    ∃ seen, Snapshot.load c.engine c.workspace? seen = .ok fresh'
      ∧ [(i, Mark.installed fresh), (j, .queried seen), (j, .installed fresh')].Sublist trace := by
  induction h with
  | nil => cases hsub
  | @turn past k seen? phase marks _ hk hc ih =>
    obtain ⟨front, back, heq, hfront, hback⟩ := List.sublist_append_iff.1 hsub
    rcases front with _ | ⟨w, front⟩
    · -- both are of the last call, which puts one in force only
      obtain rfl : _ = back := heq
      have hmarks := hback.map Prod.snd
      rw [snd_marksOf] at hmarks
      exact absurd hmarks (hc.not_installed_twice fresh fresh')
    · obtain ⟨hw, hrest⟩ := List.cons.inj heq
      rw [← hw] at hfront
      rcases front with _ | ⟨v, front⟩
      · -- the later one is of the last call, and so is its query
        obtain rfl : [(j, Mark.installed fresh')] = back := hrest
        obtain ⟨mark, hmem, hmark⟩ := List.mem_map.1 (List.singleton_sublist.1 hback)
        obtain ⟨rfl, rfl⟩ := Prod.mk.inj hmark
        obtain ⟨seen, hl, hseen⟩ := hc.queried_before hmem
        exact ⟨seen, hl, hfront.append (hseen.map fun mark => (k, mark))⟩
      · obtain ⟨hv, hnil⟩ := List.cons.inj hrest
        obtain ⟨rfl, -⟩ := List.append_eq_nil_iff.1 hnil.symm
        rw [← hv] at hfront
        obtain ⟨seen, hl, hseen⟩ := ih hfront
        exact ⟨seen, hl, hseen.trans (List.sublist_append_left _ _)⟩

/-- The snapshot that was put in force last comes from the store that was queried last, among
the calls that came so far. -/
theorem loaded (h : Serial c trace) :
    (reaching trace).getLast?.elim (lastInstalled trace = .empty) fun seen =>
      Snapshot.load c.engine c.workspace? seen = .ok (lastInstalled trace) := by
  induction h with
  | nil => rfl
  | @turn past i seen? phase marks _ hi hc ih =>
    rw [reaching_append hi hc, lastInstalled, List.map_append, snd_marksOf, Mark.last_append]
    rcases hc.installs_or_keeps with ⟨hnone, hlast⟩ | ⟨seen, fresh, rfl, hl, hsome, hlast⟩
    · rw [hnone, hlast, if_neg Bool.false_ne_true, List.append_nil]
      exact ih
    · rw [hsome, hlast, if_pos rfl, Option.toList_some, List.getLast?_concat]
      exact hl

end Serial

end Reshape.Subscription

/-
# The definition that a topic gets

Which definition a topic gets is settled in three places: the store answers with the active
ones in order, those that are not usable are passed over, and of each topic the first that
is left is kept.  Together they come to one rule, which mentions neither sorting nor
passing over: a topic gets the definition that *qualifies* for it (`Qualifies`) and that no
other one that qualifies *precedes* (`Precedes`), by higher version, smaller id and earlier
place in the store.

A snapshot keeps the first transform of each topic (`get?_ofTransforms`), the sorted list
has the least definition first (`find?_activeIn_eq_some_iff`), and the rule follows
(`get?_build_activeIn_iff`).  From the rule it follows that the other topics do not matter,
and that the places in the store matter for nothing but ties.
-/
import Mathlib.Tactic
import Reshape.Snapshot

namespace Reshape

/-! ## Tables with the same values -/

namespace Keyed

variable {α : Type}

/-- No name has two entries. -/
theorem nodup_names (t : Keyed α) : t.names.Nodup := by
  rw [names, List.Nodup, List.pairwise_map]
  exact t.ascending.imp fun h => String.ne_of_lt h

/-- The entries of a table are its values under their names. -/
theorem mem_entries_iff {t : Keyed α} {k : String} {v : α} :
    (k, v) ∈ t.entries ↔ t.get? k = some v := by
  obtain ⟨entries, hasc⟩ := t
  show (k, v) ∈ entries ↔ find? k entries = some v
  induction entries with
  | nil => simp [find?]
  | cons e rest ih =>
    obtain ⟨k', v'⟩ := e
    obtain ⟨hhead, htail⟩ := List.pairwise_cons.1 hasc
    rw [List.mem_cons, find?, ih htail]
    split_ifs with hk
    · subst hk
      -- a later entry has a larger name
      have hrest : ¬ find? k' rest = some v := by
        intro hv
        exact String.lt_irrefl _ (hhead (k', v) ((ih htail).2 hv))
      simp [hrest, eq_comm]
    · simp [Ne.symm hk]

/-- Two tables with the same values are the same. -/
theorem ext_get? {t u : Keyed α} (h : ∀ k, t.get? k = u.get? k) : t = u := by
  have hmem : ∀ e, e ∈ t.entries ↔ e ∈ u.entries := by
    intro e
    rw [mem_entries_iff, mem_entries_iff, h]
  have heq : t.entries = u.entries := by
    have : Std.Irrefl fun a b : String × α => a.1 < b.1 := ⟨fun a => String.lt_irrefl _⟩
    have : Std.Antisymm fun a b : String × α => a.1 < b.1 :=
      ⟨fun a b hab hba => absurd hba (String.lt_asymm hab)⟩
    exact t.ascending.eq_of_mem_iff u.ascending hmem
  cases t
  cases u
  cases heq
  rfl

end Keyed

/-! ## The first transform of each topic -/

namespace Snapshot

theorem get?_offer (s : Snapshot) (t : Transform) (topic : String) :
    (s.offer t).get? topic =
      (s.get? topic).or (if t.source = topic then some t else none) := by
  unfold offer Keyed.contains
  split_ifs with h ht ht
  · subst ht
    obtain ⟨u, hu⟩ := Option.isSome_iff_exists.1 h
    rw [hu, Option.some_or]
  · rw [Option.or_none]
  · subst ht
    rw [Bool.not_eq_true, Option.isSome_eq_false_iff, Option.isNone_iff_eq_none] at h
    rw [Keyed.get?_insert, if_pos rfl, h, Option.none_or]
  · rw [Keyed.get?_insert, if_neg ht, Option.or_none]

theorem get?_foldl_offer (s : Snapshot) (ts : List Transform) (topic : String) :
    (ts.foldl offer s).get? topic = (s.get? topic).or (ts.find? fun t => t.source = topic) := by
  induction ts generalizing s with
  | nil => rw [List.foldl_nil, List.find?_nil, Option.or_none]
  | cons t ts ih =>
    rw [List.foldl_cons, ih, get?_offer, Option.or_assoc, List.find?_cons]
    by_cases ht : t.source = topic <;> simp [ht]

/-- A snapshot of transforms keeps the first one of each topic. -/
theorem get?_ofTransforms (ts : List Transform) (topic : String) :
    (ofTransforms ts).get? topic = ts.find? fun t => t.source = topic := by
  rw [ofTransforms, get?_foldl_offer, Keyed.get?_empty, Option.none_or]

end Snapshot

/-! ## The order of definitions -/

namespace Definition

theorem le_iff {d e : Definition} :
    d.le e = true ↔ e.version < d.version ∨ d.version = e.version ∧ d.id ≤ e.id := by
  simp [le]

theorem le_trans (d e f : Definition) (hde : d.le e = true) (hef : e.le f = true) :
    d.le f = true := by
  rw [le_iff] at *
  rcases hde with hde | ⟨hde, hid⟩ <;> rcases hef with hef | ⟨hef, hid'⟩
  · exact .inl (Int64.lt_trans hef hde)
  · exact .inl (hef ▸ hde)
  · exact .inl (hde ▸ hef)
  · exact .inr ⟨hde.trans hef, String.le_trans hid hid'⟩

theorem le_total (d e : Definition) : (d.le e || e.le d) = true := by
  rw [Bool.or_eq_true, le_iff, le_iff]
  by_cases h : d.version = e.version
  · rcases String.le_total d.id e.id with hid | hid
    · exact .inl (.inr ⟨h, hid⟩)
    · exact .inr (.inr ⟨h.symm, hid⟩)
  · rcases Int64.lt_or_lt_of_ne h with hlt | hlt
    · exact .inr (.inl hlt)
    · exact .inl (.inl hlt)

theorem le_refl (d : Definition) : d.le d = true := by
  simpa using le_total d d

/-- Definitions that each come before the other have one version and one id. -/
theorem le_and_le_iff {d e : Definition} :
    (d.le e = true ∧ e.le d = true) ↔ d.version = e.version ∧ d.id = e.id := by
  rw [le_iff, le_iff]
  constructor
  · rintro ⟨hde | ⟨hv, hid⟩, hed | ⟨hv', hid'⟩⟩
    · exact absurd hed (Int64.lt_asymm hde)
    · exact absurd (hv' ▸ hde) Int64.lt_irrefl
    · exact absurd (hv ▸ hed) Int64.lt_irrefl
    · exact ⟨hv, String.le_antisymm hid hid'⟩
  · rintro ⟨hv, hid⟩
    exact ⟨.inr ⟨hv, hid ▸ String.le_refl _⟩, .inr ⟨hv.symm, hid ▸ String.le_refl _⟩⟩

/-- The definition `e` at the place `j` goes before the definition `d` at the place `i`:
by its higher version, else by its smaller id, else by its place. -/
def Precedes (e : Definition) (j : Nat) (d : Definition) (i : Nat) : Prop :=
  d.version < e.version
    ∨ e.version = d.version ∧ (e.id < d.id ∨ e.id = d.id ∧ j < i)

/-- Nothing goes before `d` but what does not come after it in the order, or is as good
and has a later place. -/
theorem not_precedes_iff {d e : Definition} {i j : Nat} :
    ¬ e.Precedes j d i ↔ d.le e = true ∧ (e.le d = true → i ≤ j) := by
  rw [Precedes, le_iff, le_iff]
  by_cases hv : d.version = e.version
  · -- of one version, the ids and then the places decide
    simp only [hv, Int64.lt_irrefl, true_and, false_or, not_or, not_and, String.not_lt,
      Nat.not_lt]
    constructor
    · rintro ⟨hid, hplace⟩
      exact ⟨hid, fun hid' => hplace (String.le_antisymm hid' hid)⟩
    · rintro ⟨hid, hplace⟩
      exact ⟨hid, fun heq => hplace (heq ▸ String.le_refl _)⟩
  · rcases Int64.lt_or_lt_of_ne hv with hlt | hlt
    · simp [hlt, hv, Int64.lt_asymm hlt]
    · simp [hlt, hv, Ne.symm hv, Int64.lt_asymm hlt]

end Definition

/-! ## The rule -/

/-- The transform `t` is that of the definition `d`, whose expression compiles. -/
structure Transform.IsOf (engine : Expression.Engine) (t : Transform) (d : Definition) :
    Prop where
  id : t.id = d.id
  source : t.source = d.source
  target : t.target = d.target
  version : (t.version.toNat : Int) = d.version.toInt
  expression : t.expression = d.expression
  program : engine d.expression = .ok t.program

namespace Definition

/-- The definition can be put to use for a topic: it is active, belongs to the workspace if
there is one, has the topic as its source, a version from one to the greatest word, and an
expression that compiles. -/
structure Qualifies (engine : Expression.Engine) (workspace? : Option String)
    (topic : String) (d : Definition) : Prop where
  active : d.status = .active
  workspace : ∀ w, workspace? = some w → d.workspace = w
  source : d.source = topic
  positive : 1 ≤ d.version.toInt
  fits : d.version.toInt ≤ 4294967295
  compiles : ∃ p, engine d.expression = .ok p

/-- The definition `d` stands at the place `i` of a store and qualifies for a topic, and no
other one that qualifies goes before it. -/
structure Leads (engine : Expression.Engine) (workspace? : Option String) (topic : String)
    (ds : List Definition) (i : Nat) (d : Definition) : Prop where
  place : ds[i]? = some d
  qualifies : d.Qualifies engine workspace? topic
  first : ∀ (j : Nat) (e : Definition), ds[j]? = some e →
    e.Qualifies engine workspace? topic → ¬ e.Precedes j d i

variable {engine : Expression.Engine} {workspace? : Option String} {topic : String}
variable {ds : List Definition}

/-- A definition is made into a transform exactly if its version is a word from one on and
its expression compiles. -/
theorem ofDefinition?_eq_some_iff {d : Definition} {t : Transform} :
    Transform.ofDefinition? engine d = some t ↔
      (1 ≤ d.version.toInt ∧ d.version.toInt ≤ 4294967295) ∧ t.IsOf engine d := by
  have hone : (1 ≤ d.version) ↔ 1 ≤ d.version.toInt := Int64.le_iff_toInt_le
  unfold Transform.ofDefinition?
  simp only [hone, Word.maxUInt32]
  split_ifs with h
  · have hversion : ((UInt32.ofInt d.version.toInt).toNat : Int) = d.version.toInt :=
      Word.toNat_ofInt_uint32 (by omega) h.2
    cases hp : engine d.expression with
    | error f =>
      refine iff_of_false (fun he => nomatch he) ?_
      rintro ⟨-, ht⟩
      have hok := ht.program
      rw [hp] at hok
      cases hok
    | ok p =>
      rw [Option.some.injEq]
      constructor
      · rintro rfl
        exact ⟨h, rfl, rfl, rfl, hversion, rfl, hp⟩
      · rintro ⟨-, ht⟩
        obtain ⟨id, source, target, version, expression, program⟩ := t
        obtain ⟨rfl, rfl, rfl, hv, rfl, hprogram⟩ := ht
        have hword : UInt32.ofInt d.version.toInt = version := by
          rw [← UInt32.toNat_inj]
          exact Int.ofNat_inj.1 (hversion.trans hv.symm)
        rw [hp] at hprogram
        cases hprogram
        rw [Transform.ofDefinition, hword]
  · refine iff_of_false (fun he => nomatch he) ?_
    exact fun ht => h ht.1

/-- The definition can be made into a transform of a topic. -/
def usableFor (engine : Expression.Engine) (topic : String) (d : Definition) : Bool :=
  (Transform.ofDefinition? engine d).any fun t => t.source = topic

theorem usableFor_iff {d : Definition} :
    usableFor engine topic d = true ↔
      d.source = topic ∧ (1 ≤ d.version.toInt ∧ d.version.toInt ≤ 4294967295)
        ∧ ∃ p, engine d.expression = .ok p := by
  rw [usableFor, Option.any_eq_true]
  constructor
  · rintro ⟨t, ht, hsource⟩
    obtain ⟨hversion, hof⟩ := ofDefinition?_eq_some_iff.1 ht
    rw [decide_eq_true_eq, hof.source] at hsource
    exact ⟨hsource, hversion, t.program, hof.program⟩
  · rintro ⟨hsource, hversion, p, hp⟩
    refine ⟨Transform.ofDefinition d (.ofInt d.version.toInt) p, ?_, decide_eq_true hsource⟩
    refine ofDefinition?_eq_some_iff.2 ⟨hversion, rfl, rfl, rfl, ?_, rfl, hp⟩
    exact Word.toNat_ofInt_uint32 (by omega) hversion.2

/-- A definition qualifies if the store answers with it and it can be made into a transform
of the topic. -/
theorem qualifies_iff {d : Definition} :
    d.Qualifies engine workspace? topic ↔
      d.isActiveIn workspace? = true ∧ usableFor engine topic d = true := by
  have hactive : d.isActiveIn workspace? = true ↔
      d.status = .active ∧ ∀ w, workspace? = some w → d.workspace = w := by
    simp [isActiveIn, Option.all_eq_true]
  rw [hactive, usableFor_iff]
  constructor
  · intro h
    exact ⟨⟨h.active, h.workspace⟩, h.source, ⟨h.positive, h.fits⟩, h.compiles⟩
  · rintro ⟨⟨hactive, hworkspace⟩, hsource, ⟨hpositive, hfits⟩, hcompiles⟩
    exact ⟨hactive, hworkspace, hsource, hpositive, hfits, hcompiles⟩

/-! ## The least definition -/

/-- What is found first in sorted order is not less than anything else of its kind, and of
those that are as good it has the earliest place. -/
theorem exists_of_find?_mergeSort {q : Definition → Bool} {d : Definition}
    (h : (ds.mergeSort le).find? q = some d) :
    ∃ i, ds[i]? = some d ∧ ∀ (j : Nat) (e : Definition), ds[j]? = some e → q e = true →
      d.le e = true ∧ (e.le d = true → i ≤ j) := by
  -- sorted together with their places, no two definitions are as good as each other
  rw [← List.mergeSort_zipIdx, List.find?_map] at h
  obtain ⟨⟨d', i⟩, hfind, rfl⟩ := Option.map_eq_some_iff.1 h
  have hsorted := List.pairwise_mergeSort (List.zipIdxLE_trans le_trans)
    (List.zipIdxLE_total le_total) ds.zipIdx
  obtain ⟨-, before, behind, hsplit, hbefore⟩ := List.find?_eq_some_iff_append.1 hfind
  have hmem : ∀ x, x ∈ before ++ (d', i) :: behind ↔ ds[x.2]? = some x.1 := by
    intro x
    rw [← hsplit, List.mem_mergeSort, List.mem_zipIdx_iff_getElem?]
  rw [hsplit, List.pairwise_append, List.pairwise_cons] at hsorted
  refine ⟨i, (hmem (d', i)).1 (by simp), ?_⟩
  intro j e he hq
  rcases List.mem_append.1 ((hmem (e, j)).2 he) with hj | hj
  · have hno := hbefore _ hj
    rw [Function.comp_apply, hq] at hno
    cases hno
  · rcases List.mem_cons.1 hj with heq | hj
    · cases heq
      exact ⟨le_refl d', fun _ => le_rfl⟩
    · have hle := hsorted.2.1.1 _ hj
      rw [List.zipIdxLE] at hle
      split_ifs at hle with hde hed
      · exact ⟨hde, fun _ => of_decide_eq_true hle⟩
      · exact ⟨hde, fun hed' => absurd hed' hed⟩

/-- The first definition of a kind in sorted order: no other one is less, and of those that
are as good it comes first in the store. -/
theorem find?_activeIn_eq_some_iff {q : Definition → Bool} {d : Definition} :
    (Store.activeIn workspace? ds).find? q = some d ↔
      ds.find? (fun e => e.isActiveIn workspace? && (q e && (e.le d && d.le e))) = some d
        ∧ ∀ e ∈ ds, e.isActiveIn workspace? = true → q e = true → d.le e = true := by
  have hsound : ∀ d, (Store.activeIn workspace? ds).find? q = some d →
      ds.find? (fun e => e.isActiveIn workspace? && (q e && (e.le d && d.le e))) = some d
        ∧ ∀ e ∈ ds, e.isActiveIn workspace? = true → q e = true → d.le e = true := by
    intro d h
    have hq := List.find?_some h
    obtain ⟨i, hi, hleast⟩ := exists_of_find?_mergeSort h
    obtain ⟨hlt, hget⟩ := List.getElem?_eq_some_iff.1 hi
    constructor
    · have hfiltered : (ds.filter (·.isActiveIn workspace?)).find?
          (fun e => q e && (e.le d && d.le e)) = some d := by
        refine List.find?_eq_some_iff_getElem.2 ⟨by simp [hq, le_refl], i, hlt, hget, ?_⟩
        intro j hj
        by_contra hn
        simp only [Bool.not_eq_true', Bool.not_eq_false, Bool.and_eq_true] at hn
        have hle := (hleast j _ (List.getElem?_eq_getElem (by omega)) hn.1).2 hn.2.1
        omega
      simpa [List.find?_filter] using hfiltered
    · intro e he hactive hqe
      obtain ⟨j, hj⟩ := List.getElem?_of_mem (List.mem_filter.2 ⟨he, hactive⟩)
      exact (hleast j e hj hqe).1
  refine ⟨hsound d, ?_⟩
  rintro ⟨hfind, hleast⟩
  have hd := List.find?_some hfind
  simp only [Bool.and_eq_true] at hd
  have hmem : d ∈ Store.activeIn workspace? ds := by
    rw [Store.activeIn, List.mem_mergeSort, List.mem_filter]
    exact ⟨List.mem_of_find?_eq_some hfind, hd.1⟩
  -- what is found is as good as `d`, so the same definitions are as good as it
  obtain ⟨d', hd'⟩ := Option.isSome_iff_exists.1 (List.find?_isSome.2 ⟨d, hmem, hd.2.1⟩)
  obtain ⟨hfind', hleast'⟩ := hsound d' hd'
  have hfound := List.find?_some hfind'
  simp only [Bool.and_eq_true] at hfound
  have hdd' := hleast d' (List.mem_of_find?_eq_some hfind') hfound.1 hfound.2.1
  have hd'd := hleast' d (List.mem_of_find?_eq_some hfind) hd.1 hd.2.1
  have hsame : ∀ e : Definition, (e.le d && d.le e) = (e.le d' && d'.le e) := by
    intro e
    rw [Bool.eq_iff_iff, Bool.and_eq_true, Bool.and_eq_true, le_and_le_iff, le_and_le_iff]
    obtain ⟨hv, hid⟩ := le_and_le_iff.1 ⟨hdd', hd'd⟩
    rw [hv, hid]
  simp only [hsame] at hfind
  rw [hd', ← hfind', hfind]

/-- What leads is found first in sorted order. -/
theorem find?_usableFor_iff {d : Definition} :
    (Store.activeIn workspace? ds).find? (usableFor engine topic) = some d ↔
      ∃ i, Leads engine workspace? topic ds i d := by
  rw [find?_activeIn_eq_some_iff, List.find?_eq_some_iff_getElem]
  simp only [Bool.and_eq_true, Bool.not_eq_true']
  constructor
  · rintro ⟨⟨⟨hactive, husable, -⟩, i, hi, rfl, hbefore⟩, hleast⟩
    refine ⟨i, List.getElem?_eq_getElem hi, qualifies_iff.2 ⟨hactive, husable⟩, ?_⟩
    intro j e he hq
    obtain ⟨hj, rfl⟩ := List.getElem?_eq_some_iff.1 he
    obtain ⟨hactive', husable'⟩ := qualifies_iff.1 hq
    have hle := hleast _ (List.getElem_mem hj) hactive' husable'
    refine not_precedes_iff.2 ⟨hle, fun hle' => ?_⟩
    by_contra hij
    have hno := hbefore j (by omega)
    rw [hactive', husable', hle, hle'] at hno
    cases hno
  · rintro ⟨i, hplace, hq, hfirst⟩
    obtain ⟨hi, rfl⟩ := List.getElem?_eq_some_iff.1 hplace
    obtain ⟨hactive, husable⟩ := qualifies_iff.1 hq
    refine ⟨⟨⟨hactive, husable, le_refl _, le_refl _⟩, i, hi, rfl, ?_⟩, ?_⟩
    · intro j hj
      by_contra hn
      simp only [Bool.not_eq_false, Bool.and_eq_true] at hn
      have hnot := hfirst j _ (List.getElem?_eq_getElem (by omega))
        (qualifies_iff.2 ⟨hn.1, hn.2.1⟩)
      have := (not_precedes_iff.1 hnot).2 hn.2.2.1
      omega
    · intro e he hactive' husable'
      obtain ⟨j, hj⟩ := List.getElem?_of_mem he
      exact (not_precedes_iff.1 (hfirst j e hj (qualifies_iff.2 ⟨hactive', husable'⟩))).1

/-- What is found for a topic depends on the definitions of that topic only. -/
theorem find?_usableFor_filter :
    (Store.activeIn workspace? (ds.filter fun d => d.source = topic)).find?
        (usableFor engine topic) =
      (Store.activeIn workspace? ds).find? (usableFor engine topic) := by
  have hsource : ∀ e, usableFor engine topic e = true → e.source = topic :=
    fun e he => (usableFor_iff.1 he).1
  apply Option.ext
  intro d
  rw [find?_activeIn_eq_some_iff, find?_activeIn_eq_some_iff, List.find?_filter]
  have hfind : ∀ e : Definition,
      decide (decide (e.source = topic) = true
          ∧ (e.isActiveIn workspace? && (usableFor engine topic e && (e.le d && d.le e))) = true) =
        (e.isActiveIn workspace? && (usableFor engine topic e && (e.le d && d.le e))) := by
    intro e
    rw [Bool.eq_iff_iff, decide_eq_true_eq, decide_eq_true_eq]
    refine and_iff_right_of_imp fun he => hsource e ?_
    simp only [Bool.and_eq_true] at he
    exact he.2.1
  simp only [hfind]
  refine and_congr_right fun _ => ⟨?_, ?_⟩
  · intro h e he hactive husable
    exact h e (List.mem_filter.2 ⟨he, decide_eq_true (hsource e husable)⟩) hactive husable
  · intro h e he hactive husable
    exact h e (List.mem_filter.1 he).1 hactive husable

/-- Definitions of one topic are told apart by their versions and ids. -/
def ToldApart (ds : List Definition) : Prop :=
  ∀ d ∈ ds, ∀ e ∈ ds, d.source = e.source → d.version = e.version → d.id = e.id → d = e

/-- Where definitions are told apart, what is found does not depend on their places. -/
theorem find?_usableFor_perm {ds' : List Definition} (hperm : ds.Perm ds')
    (hapart : ToldApart ds) :
    (Store.activeIn workspace? ds').find? (usableFor engine topic) =
      (Store.activeIn workspace? ds).find? (usableFor engine topic) := by
  have hsorted : (Store.activeIn workspace? ds').Perm (Store.activeIn workspace? ds) := by
    rw [Store.activeIn, Store.activeIn]
    exact (List.mergeSort_perm _ _).trans
      ((hperm.symm.filter _).trans (List.mergeSort_perm _ _).symm)
  cases hfind : (Store.activeIn workspace? ds).find? (usableFor engine topic) with
  | none =>
    rw [List.find?_eq_none] at hfind ⊢
    exact fun d hd => hfind d (hsorted.mem_iff.1 hd)
  | some d =>
    have hd := List.find?_some hfind
    have hmem := hsorted.mem_iff.2 (List.mem_of_find?_eq_some hfind)
    obtain ⟨d', hfind'⟩ := Option.isSome_iff_exists.1 (List.find?_isSome.2 ⟨d, hmem, hd⟩)
    obtain ⟨i, hleads⟩ := find?_usableFor_iff.1 hfind
    obtain ⟨i', hleads'⟩ := find?_usableFor_iff.1 hfind'
    have hin := List.mem_of_getElem? hleads.place
    have hin' := List.mem_of_getElem? hleads'.place
    -- neither goes before the other, so they have one version and one id
    obtain ⟨j, hj⟩ := List.getElem?_of_mem (hperm.mem_iff.2 hin')
    obtain ⟨j', hj'⟩ := List.getElem?_of_mem (hperm.mem_iff.1 hin)
    have hle := (not_precedes_iff.1 (hleads.first j d' hj hleads'.qualifies)).1
    have hle' := (not_precedes_iff.1 (hleads'.first j' d hj' hleads.qualifies)).1
    obtain ⟨hversion, hid⟩ := le_and_le_iff.1 ⟨hle, hle'⟩
    have hsource := hleads.qualifies.source.trans hleads'.qualifies.source.symm
    rw [hfind', hapart d hin d' (hperm.mem_iff.2 hin') hsource hversion hid]

end Definition

/-! ## Snapshots -/

namespace Snapshot

open Definition (usableFor)

variable {engine : Expression.Engine} {workspace? : Option String} {topic : String}
variable {ds : List Definition}

/-- A topic gets the first of its definitions that can be made into a transform. -/
theorem get?_build (engine : Expression.Engine) (ds : List Definition) (topic : String) :
    (build engine ds).get? topic =
      (ds.find? (usableFor engine topic)).bind (Transform.ofDefinition? engine) := by
  rw [build, get?_ofTransforms, List.find?_filterMap]
  rfl

/-- A topic gets the definition that leads. -/
theorem get?_build_activeIn_iff {t : Transform} :
    (build engine (Store.activeIn workspace? ds)).get? topic = some t ↔
      ∃ i d, Definition.Leads engine workspace? topic ds i d ∧ t.IsOf engine d := by
  rw [get?_build, Option.bind_eq_some_iff]
  constructor
  · rintro ⟨d, hfind, ht⟩
    obtain ⟨i, hleads⟩ := Definition.find?_usableFor_iff.1 hfind
    exact ⟨i, d, hleads, (Definition.ofDefinition?_eq_some_iff.1 ht).2⟩
  · rintro ⟨i, d, hleads, ht⟩
    have hversion := And.intro hleads.qualifies.positive hleads.qualifies.fits
    exact ⟨d, Definition.find?_usableFor_iff.2 ⟨i, hleads⟩,
      Definition.ofDefinition?_eq_some_iff.2 ⟨hversion, ht⟩⟩

/-- A topic gets nothing exactly if no definition qualifies for it. -/
theorem get?_build_activeIn_eq_none_iff :
    (build engine (Store.activeIn workspace? ds)).get? topic = none ↔
      ∀ d ∈ ds, ¬ d.Qualifies engine workspace? topic := by
  have hbind : (build engine (Store.activeIn workspace? ds)).get? topic = none ↔
      (Store.activeIn workspace? ds).find? (usableFor engine topic) = none := by
    rw [get?_build, Option.bind_eq_none_iff]
    constructor
    · intro h
      cases hfind : (Store.activeIn workspace? ds).find? (usableFor engine topic) with
      | none => rfl
      | some d =>
        have husable := List.find?_some hfind
        rw [usableFor, h d hfind] at husable
        cases husable
    · intro h d hd
      rw [h] at hd
      cases hd
  rw [hbind, List.find?_eq_none]
  constructor
  · intro h d hd hq
    obtain ⟨hactive, husable⟩ := Definition.qualifies_iff.1 hq
    refine h d ?_ husable
    rw [Store.activeIn, List.mem_mergeSort, List.mem_filter]
    exact ⟨hd, hactive⟩
  · intro h d hd husable
    rw [Store.activeIn, List.mem_mergeSort, List.mem_filter] at hd
    exact h d hd.1 (Definition.qualifies_iff.2 ⟨hd.2, husable⟩)

/-- **A topic gets the definition that leads.**  What is loaded from a store resolves a topic
to the definition that qualifies for it and that no other one that qualifies precedes, and
does not resolve it exactly if none qualifies.  A topic is resolved once.  What it is resolved
to depends on the definitions of that topic only, and where those of each topic are told
apart by version and id, not on the order in which they were added. -/
theorem load_resolves_to_leading (engine : Expression.Engine) (workspace? : Option String)
    (ds : List Definition) :
    ∃ s : Snapshot, load engine workspace? { definitions := ds } = .ok s
      ∧ (∀ topic t, s.get? topic = some t ↔
          ∃ i d, Definition.Leads engine workspace? topic ds i d ∧ t.IsOf engine d)
      ∧ (∀ topic, s.get? topic = none ↔ ∀ d ∈ ds, ¬ d.Qualifies engine workspace? topic)
      ∧ s.topics.Nodup
      ∧ (∀ topic (ds' : List Definition),
          ds'.filter (fun d => d.source = topic) = ds.filter (fun d => d.source = topic) →
          (load engine workspace? { definitions := ds' }).map (fun s' => s'.get? topic) =
            .ok (s.get? topic))
      ∧ ∀ ds' : List Definition, ds.Perm ds' → Definition.ToldApart ds →
          load engine workspace? { definitions := ds' } = .ok s := by
  refine ⟨build engine (Store.activeIn workspace? ds), rfl, ?_, ?_, ?_, ?_, ?_⟩
  · exact fun topic t => get?_build_activeIn_iff
  · exact fun topic => get?_build_activeIn_eq_none_iff
  · exact Keyed.nodup_names _
  · intro topic ds' hsame
    show Except.ok ((build engine (Store.activeIn workspace? ds')).get? topic) = _
    rw [get?_build, get?_build, ← Definition.find?_usableFor_filter, hsame,
      Definition.find?_usableFor_filter]
  · intro ds' hperm hapart
    show Except.ok (build engine (Store.activeIn workspace? ds')) = _
    congr 1
    apply Keyed.ext_get?
    intro topic
    rw [get?_build, get?_build, Definition.find?_usableFor_perm hperm hapart]

end Snapshot

end Reshape

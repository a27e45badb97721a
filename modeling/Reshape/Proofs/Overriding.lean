/-
# Values that go over others

A source sets values at paths, one after the other, and a later one goes over an earlier one.  What
a value holds for a setting is looked up under two names, that of a section and that of the setting
in it (`at?`).  Setting a value at its path puts it there (`at?_setAt_names`), and setting one at a
path apart from it (`Apart`) leaves it there (`at?_setAt_of_apart`).

Two values that agree on all but one setting (`AgreeBut`) agree on all but that whatever is set at
paths apart from it (`agreeBut_withEntries`).  So it does not matter to the other settings at which
point the one is set (`inserted`).
-/
import Mathlib.Tactic
import Reshape.Settings.Loading

namespace Reshape.Settings.Value

open Text (lower)

/-! ## Looking up -/

/-- The value of an entry of a table; what is no table has none. -/
def entryOf? (k : String) (v : Value) : Option Value := find? k v.entries

/-- The value of a setting: the entry `k` of the section `s`. -/
def at? (s k : String) (v : Value) : Option Value := entryOf? k ((entryOf? s v).getD none)

/-- What has an entry is a table. -/
theorem exists_table_of_entryOf? {k : String} {v new : Value} (h : entryOf? k v = some new) :
    ∃ es, v = table es := by
  cases v with
  | table es => exact ⟨es, rfl⟩
  | _ => cases h

/-- What has a value for a setting is a table of a table. -/
theorem exists_tables_of_at? {s k : String} {v new : Value} (h : at? s k v = some new) :
    ∃ es fs, v = table es ∧ find? s es = some (table fs) ∧ find? k fs = some new := by
  cases hs : entryOf? s v with
  | none =>
    rw [at?, hs] at h
    cases h
  | some t =>
    rw [at?, hs] at h
    obtain ⟨es, rfl⟩ := exists_table_of_entryOf? hs
    obtain ⟨fs, rfl⟩ := exists_table_of_entryOf? h
    exact ⟨es, fs, rfl, hs, h⟩

theorem find?_alterEntry (f : Option Value → Value) (k k' : String) (es : List (String × Value)) :
    find? k' (alterEntry f k es) = if k' = k then some (f (find? k es)) else find? k' es := by
  induction es with
  | nil =>
    by_cases h : k' = k
    · simp [alterEntry, find?, h]
    · simp [alterEntry, find?, h, Ne.symm h]
  | cons e es ih =>
    obtain ⟨n, v⟩ := e
    by_cases hn : n = k
    · subst hn
      by_cases h : k' = n
      · simp [alterEntry, find?, h]
      · simp [alterEntry, find?, h, Ne.symm h]
    · by_cases hk : n = k'
      · subst hk
        simp [alterEntry, find?, hn]
      · simp [alterEntry, find?, hn, hk, ih]

/-! ## Setting -/

/-- What a new value makes of an old one: a table goes into it, and anything else goes over it. -/
def combined (new : Value) (old? : Option Value) : Value :=
  match new with
  | table es => putAll (old?.getD (table [])) es
  | v => v

/-- What a value set at a path makes of an old one. -/
def changed (path : List Step) (new : Value) (old? : Option Value) : Value :=
  match path with
  | [] => combined new old?
  | step :: rest => setAt (old?.getD none) (step :: rest) new

theorem put_eq (v : Value) (k : String) (new : Value) :
    v.put k new = table (alterEntry (combined new) (lower k) v.entries) := by
  cases new <;> rfl

theorem setAt_name (v new : Value) (k : String) (path : List Step) :
    setAt v (.name k :: path) new =
      table (alterEntry (changed path new) (lower k) v.entries) := by
  cases path with
  | nil => exact put_eq v k new
  | cons step rest => rfl

theorem entryOf?_setAt (v new : Value) (n k : String) (path : List Step) :
    entryOf? n (setAt v (.name k :: path) new) =
      if n = lower k then some (changed path new (entryOf? (lower k) v)) else entryOf? n v := by
  rw [setAt_name]
  exact find?_alterEntry _ _ _ _

section Setting

variable {s k : String} {v w new : Value} {path : List Step}

/-- A setting in another section is left as it is. -/
theorem at?_setAt_of_ne {n : String} (h : lower n ≠ s) :
    at? s k (setAt v (.name n :: path) new) = at? s k v := by
  rw [at?, entryOf?_setAt, if_neg (Ne.symm h)]
  rfl

theorem at?_setAt (n m : String) : at? s k (setAt v (.name n :: .name m :: path) new) =
    if s = lower n ∧ k = lower m then some (changed path new (at? s k v)) else at? s k v := by
  by_cases hs : s = lower n
  · subst hs
    rw [at?, entryOf?_setAt, if_pos rfl]
    show entryOf? k (setAt ((entryOf? (lower n) v).getD none) (.name m :: path) new) = _
    rw [entryOf?_setAt]
    by_cases hk : k = lower m
    · subst hk
      rw [if_pos rfl, if_pos ⟨rfl, rfl⟩]
      rfl
    · rw [if_neg hk, if_neg (fun h => hk h.2)]
      rfl
  · rw [at?_setAt_of_ne (Ne.symm hs), if_neg (fun h => hs h.1)]

/-- A value that is no table is found where it was set. -/
theorem at?_setAt_names {n m : String} (hs : lower n = s) (hk : lower m = k)
    (hnew : ∀ es, new ≠ table es) :
    at? s k (setAt v [.name n, .name m] new) = some new := by
  rw [at?_setAt, if_pos ⟨hs.symm, hk.symm⟩]
  cases new with
  | table es => exact absurd rfl (hnew es)
  | _ => rfl

/-! ## Paths apart from a setting -/

/-- The path leads past the setting `k` of the section `s`: to another section or to a setting with
another name. -/
inductive Apart (s k : String) : List Step → Prop
  | otherSection {n : String} {rest : List Step} (h : lower n ≠ s) : Apart s k (.name n :: rest)
  | otherSetting {n m : String} {rest : List Step} (h : lower m ≠ k) :
      Apart s k (.name n :: .name m :: rest)

theorem at?_setAt_of_apart (h : Apart s k path) : at? s k (setAt v path new) = at? s k v := by
  cases h with
  | otherSection hn => exact at?_setAt_of_ne hn
  | otherSetting hm => rw [at?_setAt, if_neg (fun heq => hm heq.2.symm)]

/-! ## Values that agree -/

/-- The values agree on all but the setting `k` of the section `s`. -/
structure AgreeBut (s k : String) (v w : Value) : Prop where
  sections : ∀ n, n ≠ s → entryOf? n v = entryOf? n w
  settings : ∀ m, m ≠ k → at? s m v = at? s m w

theorem AgreeBut.refl (v : Value) : AgreeBut s k v v := ⟨fun _ _ => rfl, fun _ _ => rfl⟩

theorem AgreeBut.symm (h : AgreeBut s k v w) : AgreeBut s k w v :=
  ⟨fun n hn => (h.sections n hn).symm, fun m hm => (h.settings m hm).symm⟩

theorem AgreeBut.trans {u : Value} (h : AgreeBut s k u v) (h' : AgreeBut s k v w) :
    AgreeBut s k u w :=
  ⟨fun n hn => (h.sections n hn).trans (h'.sections n hn),
    fun m hm => (h.settings m hm).trans (h'.settings m hm)⟩

/-- A value set at the path of the setting changes nothing else. -/
theorem agreeBut_setAt_names {n m : String} (hs : lower n = s) (hk : lower m = k) :
    AgreeBut s k (setAt v [.name n, .name m] new) v where
  sections := by
    intro n' hn'
    rw [entryOf?_setAt, if_neg (fun heq => hn' (heq.trans hs))]
  settings := by
    intro m' hm'
    rw [at?_setAt, if_neg (fun heq => hm' (heq.2.trans hk))]

theorem AgreeBut.setAt_of_ne {n : String} (h : AgreeBut s k v w) (hn : lower n ≠ s) :
    AgreeBut s k (v.setAt (.name n :: path) new) (w.setAt (.name n :: path) new) where
  sections := by
    intro n' hn'
    rw [entryOf?_setAt, entryOf?_setAt, h.sections _ hn, h.sections n' hn']
  settings := by
    intro m hm
    rw [at?_setAt_of_ne hn, at?_setAt_of_ne hn]
    exact h.settings m hm

/-- **Values that agree go on to agree** when the same is set in both, apart from the setting. -/
theorem AgreeBut.setAt (h : AgreeBut s k v w) (hpath : Apart s k path) :
    AgreeBut s k (v.setAt path new) (w.setAt path new) := by
  cases hpath with
  | otherSection hn => exact h.setAt_of_ne hn
  | @otherSetting n m rest hm =>
    by_cases hn : lower n = s
    · constructor
      · intro n' hn'
        have hne : n' ≠ lower n := fun heq => hn' (heq.trans hn)
        rw [entryOf?_setAt, entryOf?_setAt, if_neg hne, if_neg hne, h.sections n' hn']
      · intro m' hm'
        rw [at?_setAt, at?_setAt, h.settings m' hm']
    · exact h.setAt_of_ne hn

end Setting

/-! ## Sources -/

section Sources

variable {s k : String} {v w : Value} {es fs gs : List (String × Value)}

theorem withEntries_append (v : Value) (es fs : List (String × Value)) :
    v.withEntries (es ++ fs) = (v.withEntries es).withEntries fs :=
  List.foldl_append

theorem withEntries_cons (v new : Value) (name : String) (es : List (String × Value)) :
    v.withEntries ((name, new) :: es) =
      (v.setAt (Step.pathOf (lower name)) new).withEntries es := rfl

/-- The entries are set at paths apart from the setting `k` of the section `s`. -/
def Spares (s k : String) (es : List (String × Value)) : Prop :=
  ∀ e ∈ es, Apart s k (Step.pathOf (lower e.1))

theorem Spares.append (h : Spares s k es) (h' : Spares s k fs) : Spares s k (es ++ fs) := by
  intro e he
  rcases List.mem_append.1 he with hes | hfs
  · exact h e hes
  · exact h' e hfs

theorem at?_withEntries (h : Spares s k es) : at? s k (v.withEntries es) = at? s k v := by
  induction es generalizing v with
  | nil => rfl
  | cons e es ih =>
    obtain ⟨hhead, htail⟩ := List.forall_mem_cons.1 h
    obtain ⟨name, new⟩ := e
    rw [withEntries_cons, ih htail, at?_setAt_of_apart hhead]

theorem agreeBut_withEntries (h : AgreeBut s k v w) (hes : Spares s k es) :
    AgreeBut s k (v.withEntries es) (w.withEntries es) := by
  induction es generalizing v w with
  | nil => exact h
  | cons e es ih =>
    obtain ⟨hhead, htail⟩ := List.forall_mem_cons.1 hes
    obtain ⟨name, new⟩ := e
    rw [withEntries_cons, withEntries_cons]
    exact ih (h.setAt hhead) htail

/-- **It does not matter when a setting is set** if what is set later is apart from it: the values
agree on all other settings, and each has what it was given. -/
theorem inserted {name n m : String} {new new' : Value} (v : Value) (es : List (String × Value))
    (hname : Step.pathOf (lower name) = [.name n, .name m]) (hs : lower n = s) (hk : lower m = k)
    (hnew : ∀ es, new ≠ table es) (hnew' : ∀ es, new' ≠ table es)
    (hfs : Spares s k fs) (hgs : Spares s k gs) :
    AgreeBut s k (v.withEntries (es ++ (name, new) :: (fs ++ gs)))
        (v.withEntries (es ++ (fs ++ (name, new') :: gs)))
      ∧ at? s k (v.withEntries (es ++ (name, new) :: (fs ++ gs))) = some new
      ∧ at? s k (v.withEntries (es ++ (fs ++ (name, new') :: gs))) = some new' := by
  simp only [withEntries_append, withEntries_cons, hname]
  refine ⟨?_, ?_, ?_⟩
  · refine agreeBut_withEntries ?_ hgs
    exact (agreeBut_withEntries (agreeBut_setAt_names hs hk) hfs).trans
      (agreeBut_setAt_names hs hk).symm
  · rw [at?_withEntries hgs, at?_withEntries hfs, at?_setAt_names hs hk hnew]
  · rw [at?_withEntries hgs, at?_setAt_names hs hk hnew']

end Sources

end Reshape.Settings.Value

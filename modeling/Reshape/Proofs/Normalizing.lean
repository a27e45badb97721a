/-
# Normal settings

Settings are normal if none of their texts begins or ends with a blank character, no broker and no
optional text is blank, and the address of the store does not end with a slash (`IsNormal`).
Normalizing makes every text so but one (`isTidy_normalized`).  The address is trimmed before the
slashes at its end are taken off, so blanks that stand before these slashes are left at its end.

Settings are left as they are exactly if they are normal (`normalized_eq_self_iff`), so these blanks
are the only reason why settings can change when they are normalized again.  Then the blanks go, and
slashes before them too, and after some repetitions nothing changes any more
(`exists_iterate_isNormal`).
-/
import Mathlib.Data.List.DropRight
import Mathlib.Logic.Function.Iterate
import Reshape.Proofs.Trimming
import Reshape.Settings.Loading

namespace Reshape

open Text (IsTrim isBlank isBlankText nonBlank? trimmed)

/-! ## Texts that are not blank -/

/-- A trimmed text with a character is not blank. -/
theorem Text.IsTrim.isBlankText_eq_false {s : String} (h : IsTrim s.toList) (hne : s ≠ "") :
    isBlankText s = false := by
  obtain ⟨c, cs, hs⟩ : ∃ c cs, s.toList = c :: cs :=
    List.exists_cons_of_ne_nil fun hnil => hne (String.toList_eq_nil_iff.1 hnil)
  have hc : isBlank c = false := h.head c (by rw [hs]; rfl)
  rw [isBlankText, hs, List.all_cons, hc, Bool.false_and]

theorem Text.isTrim_trimmed (s : String) : IsTrim (trimmed s).toList := by
  rw [trimmed, String.toList_ofList]
  exact isTrim_trim s.toList

theorem Text.isTrim_of_nonBlank? {s t : String} (h : nonBlank? s = some t) :
    IsTrim t.toList ∧ isBlankText t = false := by
  obtain ⟨rfl, hne⟩ := nonBlank?_eq_some_iff.1 h
  exact ⟨isTrim_trimmed s, (isTrim_trimmed s).isBlankText_eq_false hne⟩

theorem Text.nonBlank?_of_isTrim {s : String} (h : IsTrim s.toList) (hs : isBlankText s = false) :
    nonBlank? s = some s := by
  refine nonBlank?_eq_some_iff.2 ⟨trimmed_of_isTrim h, ?_⟩
  rintro rfl
  cases hs

theorem unblanked_some (s : String) : unblanked (some s) = nonBlank? s := by
  rw [unblanked, Option.bind_some]

theorem unblanked_unblanked (s? : Option String) : unblanked (unblanked s?) = unblanked s? := by
  cases h : unblanked s? with
  | none => rfl
  | some t =>
    obtain ⟨s, -, hs⟩ := Option.bind_eq_some_iff.1 h
    rw [unblanked_some, Text.nonBlank?_of_nonBlank? hs]

theorem filterMap_nonBlank?_twice (ss : List String) :
    (ss.filterMap nonBlank?).filterMap nonBlank? = ss.filterMap nonBlank? := by
  rw [List.filterMap_filterMap]
  refine List.filterMap_congr fun s _ => ?_
  cases h : nonBlank? s with
  | none => rfl
  | some t => rw [Option.bind_some, Text.nonBlank?_of_nonBlank? h]

/-! ## Addresses -/

/-- What an address is normalized to. -/
def normalAddress (s : String) : String := withoutSlashes (trimmed s)

theorem toList_withoutSlashes (s : String) :
    (withoutSlashes s).toList = s.toList.rdropWhile (· == '/') := by
  rw [withoutSlashes, String.toList_ofList]
  rfl

theorem withoutSlashes_last (s : String) : (withoutSlashes s).toList.getLast? ≠ some '/' := by
  intro h
  rw [toList_withoutSlashes] at h
  obtain ⟨hne, hlast⟩ := List.mem_getLast?_eq_getLast h
  refine List.rdropWhile_last_not (· == '/') s.toList hne ?_
  rw [← hlast]
  rfl

theorem withoutSlashes_of_last {s : String} (h : s.toList.getLast? ≠ some '/') :
    withoutSlashes s = s := by
  refine String.toList_inj.1 ?_
  rw [toList_withoutSlashes, List.rdropWhile_eq_self_iff]
  intro hne hlast
  exact h (by rw [List.getLast?_eq_some_getLast hne, beq_iff_eq.1 hlast])

theorem normalAddress_head (s : String) :
    ∀ c ∈ (normalAddress s).toList.head?, isBlank c = false := by
  intro c hc
  obtain ⟨slashes, hslashes⟩ := List.rdropWhile_prefix (· == '/') (trimmed s).toList
  refine (Text.isTrim_trimmed s).head c ?_
  rw [normalAddress, toList_withoutSlashes] at hc
  rw [← hslashes, List.head?_append, Option.mem_def.1 hc]
  rfl

/-- Nothing but the ends of an address is taken off. -/
theorem isInfix_normalAddress (s : String) : (normalAddress s).toList <:+: s.toList := by
  have hslashes : (normalAddress s).toList <+: (trimmed s).toList := by
    rw [normalAddress, toList_withoutSlashes]
    exact List.rdropWhile_prefix _ _
  have hend : (trimmed s).toList <+: Text.trimStart s.toList := by
    rw [trimmed, String.toList_ofList, Text.trim, Text.trimEnd_eq_rdropWhile]
    exact List.rdropWhile_prefix _ _
  exact (hslashes.trans hend).isInfix.trans (List.dropWhile_suffix _).isInfix

/-- All slashes at the end of the trimmed address are taken off, and nothing else. -/
theorem exists_slashes_behind_normalAddress (s : String) : ∃ n, trimmed s =
    normalAddress s ++ String.ofList (List.replicate n '/') := by
  obtain ⟨slashes, hslashes⟩ : ∃ cs, cs = (trimmed s).toList.rtakeWhile (· == '/') := ⟨_, rfl⟩
  have hall : ∀ c ∈ slashes, c = '/' := by
    intro c hc
    rw [hslashes] at hc
    have hslash := List.mem_rtakeWhile_imp hc
    exact beq_iff_eq.1 hslash
  have hcut : (normalAddress s).toList ++ slashes = (trimmed s).toList := by
    rw [hslashes, normalAddress, toList_withoutSlashes]
    exact List.rdropWhile_append_rtakeWhile
  refine ⟨slashes.length, String.toList_inj.1 ?_⟩
  rw [String.toList_append, String.toList_ofList, ← List.eq_replicate_of_mem hall, hcut]

/-- **An address is left as it is exactly if it is trimmed and does not end with a slash.** -/
theorem normalAddress_eq_self_iff {s : String} :
    normalAddress s = s ↔ IsTrim s.toList ∧ s.toList.getLast? ≠ some '/' := by
  constructor
  · intro heq
    -- what is trimmed is at most as long as the text, and what is left of it is all of the text
    have hstart : s.toList <+: (trimmed s).toList := by
      have hslashes := List.rdropWhile_prefix (· == '/') (trimmed s).toList
      rwa [← toList_withoutSlashes, ← normalAddress, heq] at hslashes
    have hlength : (trimmed s).toList.length ≤ s.toList.length := by
      rw [trimmed, String.toList_ofList, Text.trim, Text.trimEnd_eq_rdropWhile]
      exact (List.rdropWhile_prefix _ _).length_le.trans (List.dropWhile_suffix _).length_le
    refine ⟨?_, heq ▸ withoutSlashes_last (trimmed s)⟩
    rw [hstart.eq_of_length_le hlength]
    exact Text.isTrim_trimmed s
  · rintro ⟨htrim, hlast⟩
    rw [normalAddress, Text.trimmed_of_isTrim htrim, withoutSlashes_of_last hlast]

/-- Repeating it, an address changes until it is normal. -/
theorem exists_iterate_normalAddress (s : String) :
    ∃ k, normalAddress (normalAddress^[k] s) = normalAddress^[k] s := by
  -- on the length, which gets smaller whenever the address changes
  induction h : s.toList.length using Nat.strong_induction_on generalizing s with
  | _ n ih =>
    by_cases hlength : (normalAddress s).toList.length = s.toList.length
    · exact ⟨0, String.toList_inj.1 ((isInfix_normalAddress s).eq_of_length hlength)⟩
    · have hlt : (normalAddress s).toList.length < n :=
        h ▸ lt_of_le_of_ne (isInfix_normalAddress s).length_le hlength
      obtain ⟨k, hk⟩ := ih _ hlt (normalAddress s) rfl
      exact ⟨k + 1, hk⟩

namespace Settings

/-! ## Normal settings -/

/-- The optional texts that are set. -/
def optionalTexts (s : Settings) : List String :=
  [s.broker.saslUsername?, s.broker.saslPassword?, s.broker.saslMechanism?,
    s.broker.securityProtocol?, s.broker.caLocation?, s.worker.workspace?,
    s.worker.deadLetterTopic?].filterMap id

/-- All texts but the address of the store. -/
def namingTexts (s : Settings) : List String :=
  s.broker.clientId :: s.broker.groupId :: s.store.database ::
    (s.broker.brokers ++ s.optionalTexts)

/-- The settings are as they should be, but that the address may end with blanks. -/
structure IsTidy (s : Settings) : Prop where
  trimmed : ∀ t ∈ s.namingTexts, IsTrim t.toList
  filled : ∀ t ∈ s.broker.brokers ++ s.optionalTexts, isBlankText t = false
  head : ∀ c ∈ s.store.uri.toList.head?, isBlank c = false
  slash : s.store.uri.toList.getLast? ≠ some '/'

/-- No text begins or ends with a blank, no broker and no optional text is blank, and the address
does not end with a slash. -/
structure IsNormal (s : Settings) : Prop extends s.IsTidy where
  address : IsTrim s.store.uri.toList

variable {s : Settings}

/-- A text that is set after normalizing was set to a text that is not blank. -/
theorem exists_of_mem_normalized {t : String}
    (h : t ∈ s.normalized.broker.brokers ++ s.normalized.optionalTexts) :
    ∃ u, nonBlank? u = some t := by
  rcases List.mem_append.1 h with hbroker | hoptional
  · obtain ⟨u, -, hu⟩ := List.mem_filterMap.1 hbroker
    exact ⟨u, hu⟩
  · obtain ⟨t?, hmem, ht⟩ := List.mem_filterMap.1 hoptional
    obtain ⟨s?, rfl⟩ : ∃ s?, t? = unblanked s? := by
      simp only [List.mem_cons, List.not_mem_nil, or_false] at hmem
      rcases hmem with rfl | rfl | rfl | rfl | rfl | rfl | rfl <;> exact ⟨_, rfl⟩
    obtain ⟨u, -, hu⟩ := Option.bind_eq_some_iff.1 ht
    exact ⟨u, hu⟩

/-- **Normalizing makes every text what it should be**, but for blanks at the end of the
address. -/
theorem isTidy_normalized (s : Settings) : s.normalized.IsTidy where
  trimmed := by
    intro t ht
    simp only [namingTexts, List.mem_cons] at ht
    rcases ht with rfl | rfl | rfl | ht
    · exact Text.isTrim_trimmed _
    · exact Text.isTrim_trimmed _
    · exact Text.isTrim_trimmed _
    · obtain ⟨u, hu⟩ := exists_of_mem_normalized ht
      exact (Text.isTrim_of_nonBlank? hu).1
  filled := by
    intro t ht
    obtain ⟨u, hu⟩ := exists_of_mem_normalized ht
    exact (Text.isTrim_of_nonBlank? hu).2
  head := normalAddress_head s.store.uri
  slash := withoutSlashes_last _

/-- **Settings are left as they are exactly if they are normal.** -/
theorem normalized_eq_self_iff : s.normalized = s ↔ s.IsNormal := by
  constructor
  · intro h
    have htidy := isTidy_normalized s
    have haddress : s.normalized.store.uri = normalAddress s.store.uri := rfl
    rw [h] at htidy haddress
    exact ⟨htidy, (normalAddress_eq_self_iff.1 haddress.symm).1⟩
  · intro h
    have htrimmed : ∀ t ∈ s.namingTexts, Text.trimmed t = t := fun t ht =>
      Text.trimmed_of_isTrim (h.trimmed t ht)
    have hset : ∀ t ∈ s.broker.brokers ++ s.optionalTexts, nonBlank? t = some t := fun t ht =>
      Text.nonBlank?_of_isTrim (h.trimmed t (by simp [namingTexts, List.mem_append.1 ht]))
        (h.filled t ht)
    have hoptional : ∀ t? : Option String, (∀ t ∈ t?, t ∈ s.optionalTexts) → unblanked t? = t? := by
      intro t? hmem
      cases t? with
      | none => rfl
      | some t => rw [unblanked_some, hset t (List.mem_append_right _ (hmem t rfl))]
    have hbroker : s.broker.normalized = s.broker := by
      have hbrokers : s.broker.brokers.filterMap nonBlank? = s.broker.brokers := by
        rw [List.filterMap_congr fun t ht => hset t (List.mem_append_left _ ht)]
        exact List.filterMap_some
      rw [BrokerSettings.normalized, hbrokers, htrimmed s.broker.clientId (by simp [namingTexts]),
        htrimmed s.broker.groupId (by simp [namingTexts]),
        hoptional s.broker.saslUsername? (by simp +contextual [optionalTexts]),
        hoptional s.broker.saslPassword? (by simp +contextual [optionalTexts]),
        hoptional s.broker.saslMechanism? (by simp +contextual [optionalTexts]),
        hoptional s.broker.securityProtocol? (by simp +contextual [optionalTexts]),
        hoptional s.broker.caLocation? (by simp +contextual [optionalTexts])]
    have hstore : s.store.normalized = s.store := by
      have huri : normalAddress s.store.uri = s.store.uri :=
        normalAddress_eq_self_iff.2 ⟨h.address, h.slash⟩
      rw [StoreSettings.normalized, ← normalAddress, huri,
        htrimmed s.store.database (by simp [namingTexts])]
    have hworker : s.worker.normalized = s.worker := by
      rw [WorkerSettings.normalized,
        hoptional s.worker.workspace? (by simp +contextual [optionalTexts]),
        hoptional s.worker.deadLetterTopic? (by simp +contextual [optionalTexts])]
    rw [normalized, hbroker, hstore, hworker]

/-! ## Normalizing again and again -/

/-- The settings with another address of the store. -/
def withAddress (s : Settings) (uri : String) : Settings :=
  { s with store := { s.store with uri := uri } }

/-- Normalizing again changes nothing but the address, whatever that is now. -/
theorem normalized_withAddress (s : Settings) (uri : String) :
    (s.normalized.withAddress uri).normalized = s.normalized.withAddress (normalAddress uri) := by
  have hbroker : s.broker.normalized.normalized = s.broker.normalized := by
    simp only [BrokerSettings.normalized, filterMap_nonBlank?_twice, Text.trimmed_trimmed,
      unblanked_unblanked]
  have hworker : s.worker.normalized.normalized = s.worker.normalized := by
    simp only [WorkerSettings.normalized, unblanked_unblanked]
  have hstore : StoreSettings.normalized ⟨uri, s.store.normalized.database⟩ =
      ⟨normalAddress uri, s.store.normalized.database⟩ :=
    congrArg (StoreSettings.mk _) (Text.trimmed_trimmed s.store.database)
  show (⟨s.broker.normalized.normalized,
    StoreSettings.normalized ⟨uri, s.store.normalized.database⟩,
    s.worker.normalized.normalized⟩ : Settings) = _
  rw [hbroker, hworker, hstore]
  rfl

/-- Repeated, normalizing changes nothing but the address from the second time on. -/
theorem iterate_normalized (s : Settings) (k : ℕ) : normalized^[k] s.normalized =
    s.normalized.withAddress (normalAddress^[k] s.normalized.store.uri) := by
  induction k with
  | zero => rfl
  | succ k ih =>
    rw [Function.iterate_succ_apply', Function.iterate_succ_apply', ih, normalized_withAddress]

/-- **Normalizing comes to a fixed point** if it is repeated, and that is normal. -/
theorem exists_iterate_isNormal (s : Settings) :
    ∃ k, (normalized^[k + 1] s).IsNormal ∧
      normalized (normalized^[k + 1] s) = normalized^[k + 1] s := by
  obtain ⟨k, hk⟩ := exists_iterate_normalAddress s.normalized.store.uri
  have hfixed : normalized (normalized^[k + 1] s) = normalized^[k + 1] s := by
    rw [Function.iterate_succ_apply, iterate_normalized, normalized_withAddress, hk]
  exact ⟨k, normalized_eq_self_iff.1 hfixed, hfixed⟩

/-- Settings are loaded only if they are the normal form of some settings and have no fault. -/
theorem exists_of_load {around : Surroundings} {path? : Option String}
    (h : load around path? = .ok s) : ∃ raw : Settings, s = raw.normalized ∧ s.fault? = none := by
  simp only [load, bind, Except.bind] at h
  cases hmerged : merged around path? with
  | error f =>
    rw [hmerged] at h
    cases h
  | ok v =>
    simp only [hmerged] at h
    split at h
    · cases h
    · rename_i raw hraw
      split at h
      · cases h
      · rename_i hfault
        cases h
        exact ⟨raw, rfl, hfault⟩

/-- Tidy settings are normal if no blank ends the address. -/
theorem IsTidy.isNormal_iff (h : s.IsTidy) :
    s.IsNormal ↔ ∀ c ∈ s.store.uri.toList.getLast?, isBlank c = false :=
  ⟨fun hnormal => hnormal.address.last, fun hlast => ⟨h, ⟨h.head, hlast⟩⟩⟩

/-- **Normalizing takes the blanks off both ends of every text and all slashes off the end of the
address, and repeated, it comes to a fixed point.**  Normalized settings have trimmed texts
and no blank brokers or optional texts, and their address starts with no blank and ends with no
slash; it is what is left of the trimmed address before the slashes at its end.  Normalizing again
changes nothing exactly if no blank stood before these slashes, and after some repetitions it
changes nothing any more.  Only settings of this form that have no fault are loaded. -/
theorem normalized_but_for_blanks (s : Settings) :
    s.normalized.IsTidy
      ∧ (∃ n, Text.trimmed s.store.uri =
          s.normalized.store.uri ++ String.ofList (List.replicate n '/'))
      ∧ (s.normalized.normalized = s.normalized
          ↔ ∀ c ∈ s.normalized.store.uri.toList.getLast?, isBlank c = false)
      ∧ (s.normalized = s ↔ s.IsNormal)
      ∧ (∃ k, (normalized^[k + 1] s).IsNormal
          ∧ normalized (normalized^[k + 1] s) = normalized^[k + 1] s)
      ∧ ∀ around path?, load around path? = .ok s →
          s.IsTidy ∧ s.fault? = none
            ∧ (s.normalized = s ↔ ∀ c ∈ s.store.uri.toList.getLast?, isBlank c = false) := by
  have htidy : s.normalized.IsTidy := isTidy_normalized s
  refine ⟨htidy, exists_slashes_behind_normalAddress s.store.uri,
    normalized_eq_self_iff.trans htidy.isNormal_iff, normalized_eq_self_iff,
    exists_iterate_isNormal s, fun around path? h => ?_⟩
  obtain ⟨raw, rfl, hfault⟩ := exists_of_load h
  have hraw : raw.normalized.IsTidy := isTidy_normalized raw
  exact ⟨hraw, hfault, normalized_eq_self_iff.trans hraw.isNormal_iff⟩

/-- The standard settings with an address from a variable. -/
def addressed (uri : String) : Settings := { store := { uri := uri } }

theorem doubled_slashes_are_taken_off :
    load ⟨[("MONGO_URI", " mongodb://db:27017// ")], []⟩ none = .ok (addressed "mongodb://db:27017")
      ∧ (addressed "mongodb://db:27017").IsTidy
      ∧ (addressed "mongodb://db:27017").normalized = addressed "mongodb://db:27017" := by
  have hload : load ⟨[("MONGO_URI", " mongodb://db:27017// ")], []⟩ none =
      .ok (addressed "mongodb://db:27017") := by decide +kernel
  obtain ⟨-, -, -, -, -, hloaded⟩ := normalized_but_for_blanks (addressed "mongodb://db:27017")
  obtain ⟨htidy, -, hfixed⟩ := hloaded _ _ hload
  have hlast : (addressed "mongodb://db:27017").store.uri.toList.getLast? = some '7' := by
    decide +kernel
  refine ⟨hload, htidy, hfixed.2 fun c hc => ?_⟩
  cases hlast.symm.trans hc
  decide

/-- A blank before the slash stays at the end of the address.  The settings are loaded like this,
though they change when they are normalized again. -/
theorem blank_before_slash_stays :
    (addressed "mongodb://db:27017 /").normalized = addressed "mongodb://db:27017 "
      ∧ load ⟨[("MONGO_URI", "mongodb://db:27017 /")], []⟩ none =
          .ok (addressed "mongodb://db:27017 ")
      ∧ ¬ IsTrim (addressed "mongodb://db:27017 ").store.uri.toList
      ∧ (addressed "mongodb://db:27017 ").normalized = addressed "mongodb://db:27017" := by
  have hlast : (addressed "mongodb://db:27017 ").store.uri.toList.getLast? = some ' ' := by
    decide +kernel
  refine ⟨by decide +kernel, by decide +kernel, fun h => ?_, by decide +kernel⟩
  exact absurd (h.last ' ' hlast) (by decide)

end Settings

end Reshape

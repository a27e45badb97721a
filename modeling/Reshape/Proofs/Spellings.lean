/-
# Two spellings of a variable

A setting that is a text can be given by a plain variable, such as `WORKSPACE_ID`, and by one with
the prefix, such as `TRANSFORM_WORKER__WORKER__WORKSPACE_ID` (`TextSetting`).  Both give one entry
among those of all sources, the plain variable at a later point, where no entry for the setting
follows it.  If none follows the other one either, then the values that come of the entries agree
on all other settings, so reading them gives settings that differ in one text
(`settings?_of_agreeBut`).

Normalizing and checking settings keep to this difference (`accepted_withText`).  That the check
does not see it rests on what texts are read back as: never as nothing, and never as something that
is normalized to it (`readBack_cases`).  So loading with the one spelling is loading with the other,
with the text read back put in for the text (`load_spelled`).

## Main statement

* `spellings_agree_on_texts_read_back`: the two spellings of a setting agree exactly on the texts
  that are read back as they are.
-/
import Reshape.Proofs.Overriding
import Reshape.Proofs.Scalars

namespace Reshape.Settings

open Text (IsSolid lower nonBlank? isBlankText)
open Value (Apart AgreeBut Spares at? find? readBack)

/-! ## Settings that are texts -/

/-- The settings that are texts and have a plain variable. -/
inductive TextSetting
  | clientId
  | groupId
  | workspace
  | deadLetterTopic
  | address
  | database
  deriving DecidableEq, Repr

namespace TextSetting

/-- The name of the section of the setting. -/
def sectionName : TextSetting → String
  | clientId | groupId => "kafka"
  | workspace | deadLetterTopic => "worker"
  | address | database => "mongodb"

/-- The name of the setting in its section. -/
def key : TextSetting → String
  | clientId => "client_id"
  | groupId => "group_id"
  | workspace => "workspace_id"
  | deadLetterTopic => "dlq_topic"
  | address => "uri"
  | database => "database"

/-- The path to the setting. -/
def path : TextSetting → String
  | clientId => "kafka.client_id"
  | groupId => "kafka.group_id"
  | workspace => "worker.workspace_id"
  | deadLetterTopic => "worker.dlq_topic"
  | address => "mongodb.uri"
  | database => "mongodb.database"

/-- The plain variable for the setting. -/
def plainName : TextSetting → String
  | clientId => "KAFKA_CLIENT_ID"
  | groupId => "KAFKA_GROUP_ID"
  | workspace => "WORKSPACE_ID"
  | deadLetterTopic => "DLQ_TOPIC"
  | address => "MONGO_URI"
  | database => "MONGO_DB"

/-- The variable with the prefix for the setting. -/
def prefixedName : TextSetting → String
  | clientId => "TRANSFORM_WORKER__KAFKA__CLIENT_ID"
  | groupId => "TRANSFORM_WORKER__KAFKA__GROUP_ID"
  | workspace => "TRANSFORM_WORKER__WORKER__WORKSPACE_ID"
  | deadLetterTopic => "TRANSFORM_WORKER__WORKER__DLQ_TOPIC"
  | address => "TRANSFORM_WORKER__MONGODB__URI"
  | database => "TRANSFORM_WORKER__MONGODB__DATABASE"

/-- The text of the setting, if it is set. -/
def get? (s : Settings) : TextSetting → Option String
  | clientId => some s.broker.clientId
  | groupId => some s.broker.groupId
  | workspace => s.worker.workspace?
  | deadLetterTopic => s.worker.deadLetterTopic?
  | address => some s.store.uri
  | database => some s.store.database

/-- The settings with another text for one of them. -/
def withText (s : Settings) (t : String) : TextSetting → Settings
  | clientId => { s with broker := { s.broker with clientId := t } }
  | groupId => { s with broker := { s.broker with groupId := t } }
  | workspace => { s with worker := { s.worker with workspace? := some t } }
  | deadLetterTopic => { s with worker := { s.worker with deadLetterTopic? := some t } }
  | address => { s with store := { s.store with uri := t } }
  | database => { s with store := { s.store with database := t } }

/-- What a text of the setting is normalized to. -/
def normal (t : String) : TextSetting → String
  | address => normalAddress t
  | _ => Text.trimmed t

variable (x : TextSetting)

/-- What is computed from the names of a setting. -/
theorem computed_names : pathOfVariable? x.prefixedName = some x.path ∧
    Step.pathOf (lower x.path) = [.name x.sectionName, .name x.key] ∧
    lower x.sectionName = x.sectionName ∧ lower x.key = x.key := by
  cases x <;> decide +kernel

theorem pathOfVariable?_prefixedName : pathOfVariable? x.prefixedName = some x.path :=
  (computed_names x).1

theorem pathOf_path : Step.pathOf (lower x.path) = [.name x.sectionName, .name x.key] :=
  (computed_names x).2.1

theorem lower_sectionName : lower x.sectionName = x.sectionName := (computed_names x).2.2.1

theorem lower_key : lower x.key = x.key := (computed_names x).2.2.2

variable {x}

theorem eq_of_key_eq {y : TextSetting} (h : y.key = x.key) : y = x := by
  cases x <;> cases y <;> first | rfl | exact absurd h (by decide)

theorem get?_withText (s : Settings) (t : String) : x.get? (x.withText s t) = some t := by
  cases x <;> rfl

theorem withText_withText (s : Settings) (t u : String) :
    x.withText (x.withText s u) t = x.withText s t := by
  cases x <;> rfl

/-- Normalizing a text that is not blank normalizes the setting that it is given to. -/
theorem normalized_withText (s : Settings) {t : String} (h : isBlankText t = false) :
    (x.withText s t).normalized = x.withText s.normalized (x.normal t) := by
  have hset : unblanked (some t) = some (Text.trimmed t) := by
    rw [unblanked_some, Text.nonBlank?_of_isBlankText_eq_false h]
  cases x with
  | workspace | deadLetterTopic =>
    simp only [withText, normalized, WorkerSettings.normalized, hset, normal]
  | _ => rfl

/-- Whether settings have a fault depends only on whether the text is empty. -/
theorem fault?_withText (s : Settings) {t u : String} (h : t.isEmpty = u.isEmpty) :
    (x.withText s t).fault? = (x.withText s u).fault? := by
  cases x with
  | workspace | deadLetterTopic => rfl
  | _ =>
    cases hu : u.isEmpty with
    | true => simp only [withText, fault?, h, hu, if_true]
    | false =>
      simp only [withText, fault?, h, hu, Bool.false_eq_true, if_false]
      rfl

theorem normal_trimmed (t : String) : x.normal (Text.trimmed t) = x.normal t := by
  cases x <;> simp only [normal, normalAddress, Text.trimmed_trimmed]

/-- A text without blanks and slashes is normal for all settings. -/
theorem normal_of_isSolid {t : String} (h : IsSolid t.toList) : x.normal t = t := by
  cases x with
  | address => exact normalAddress_of_isSolid h
  | _ => exact Text.trimmed_of_isSolid h

end TextSetting

/-! ## Reading settings from tables -/

namespace Value

open Kind (fieldOr)

theorem settings?_table (es : List (String × Value)) : settings? (table es) = do
    let broker ← fieldOr {} kind.broker? (find? "kafka" es)
    let store ← fieldOr {} kind.store? (find? "mongodb" es)
    let worker ← fieldOr {} kind.worker? (find? "worker" es)
    return ⟨broker, store, worker⟩ := rfl

theorem broker?_table (es : List (String × Value)) : kind.broker? (table es) = do
    let brokers ← fieldOr ["broker:9092"] kind.texts? (find? "brokers" es)
    let clientId ← fieldOr "worker-jsonata" text? (find? "client_id" es)
    let groupId ← fieldOr "worker-jsonata" text? (find? "group_id" es)
    let username ← fieldOr Option.none kind.unlessNull? (find? "sasl_username" es)
    let password ← fieldOr Option.none kind.unlessNull? (find? "sasl_password" es)
    let mechanism ← fieldOr Option.none kind.unlessNull? (find? "sasl_mechanism" es)
    let protocol ← fieldOr Option.none kind.unlessNull? (find? "security_protocol" es)
    let ca ← fieldOr Option.none kind.unlessNull? (find? "ssl_ca_location" es)
    return ⟨brokers, clientId, groupId, username, password, mechanism, protocol, ca⟩ := rfl

theorem store?_table (es : List (String × Value)) : kind.store? (table es) = do
    let uri ← fieldOr "mongodb://mongodb:27017" text? (find? "uri" es)
    let database ← fieldOr "control-api" text? (find? "database" es)
    return ⟨uri, database⟩ := rfl

theorem worker?_table (es : List (String × Value)) : kind.worker? (table es) = do
    let workspace ← fieldOr Option.none kind.unlessNull? (find? "workspace_id" es)
    let deadLetterTopic ← fieldOr Option.none kind.unlessNull? (find? "dlq_topic" es)
    let refresh ← fieldOr 60000 word? (find? "refresh_interval_ms" es)
    return ⟨workspace, deadLetterTopic, refresh⟩ := rfl

theorem unlessNull?_of_text? {v : Value} {t : String} (h : v.text? = some t) :
    kind.unlessNull? v = some (some t) := by
  cases v with
  | none => cases h
  | _ => exact congrArg (Option.map some) h

/-- **Values that agree on all but one setting are read as settings that differ in nothing but its
text.** -/
theorem settings?_of_agreeBut {x : TextSetting} {v w a b : Value} {t u : String}
    (h : AgreeBut x.sectionName x.key v w)
    (hv : at? x.sectionName x.key v = some a) (ha : a.text? = some t)
    (hw : at? x.sectionName x.key w = some b) (hb : b.text? = some u) :
    v.settings? = w.settings?.map (x.withText · t) := by
  obtain ⟨es, fs, rfl, hes, hfs⟩ := exists_tables_of_at? hv
  obtain ⟨es', fs', rfl, hes', hfs'⟩ := exists_tables_of_at? hw
  have hsections : ∀ n, n ≠ x.sectionName → find? n es = find? n es' := h.sections
  have hsettings : ∀ m, m ≠ x.key → find? m fs = find? m fs' := by
    intro m hm
    have hat := h.settings m hm
    simp only [at?, entryOf?, entries, hes, hes'] at hat
    exact hat
  have hset := unlessNull?_of_text? ha
  have hset' := unlessNull?_of_text? hb
  rw [settings?_table, settings?_table]
  -- each section but one is read the same, and of that one each entry but one
  cases x <;> simp only [TextSetting.sectionName, TextSetting.key, ne_eq] at * <;>
    simp only [hsections, hsettings, hes, hes', hfs, hfs', ha, hb, hset, hset', fieldOr,
      broker?_table, store?_table, worker?_table, TextSetting.withText, Option.bind_eq_bind,
      Option.pure_def, Option.bind_some, Option.map_bind, Option.bind_assoc, Function.comp_def,
      Option.map_some, String.reduceEq, not_false_eq_true]

end Value

/-! ## The entries that variables give -/

section Entries

variable {x : TextSetting} {name v : String} {pre post : List (String × String)}
  {files : List (String × Text.Bytes)}

/-- No plain variable and not the one that names a file has the prefix. -/
theorem pathOfVariable?_plain : ∀ m ∈ "TRANSFORM_WORKER_CONFIG" :: "KAFKA_BROKERS" ::
    plainVariables.map Prod.fst, pathOfVariable? m = none := by
  decide +kernel

/-- The plain variable of a setting is one of several. -/
theorem exists_plainVariables (x : TextSetting) : ∃ before after : List (String × String),
    plainVariables = before ++ (x.plainName, x.path) :: after ∧
      ∀ e ∈ before ++ after, e.1 ≠ x.plainName := by
  refine ⟨plainVariables.takeWhile (·.1 ≠ x.plainName),
    (plainVariables.dropWhile (·.1 ≠ x.plainName)).tail, ?_⟩
  cases x <;> decide

theorem mem_plainVariables {e : String × String} (h : e ∈ plainVariables) :
    (∃ y : TextSetting, e.1 = y.plainName ∧ e.2 = y.path) ∨
      e.2 = "worker.refresh_interval_ms" := by
  simp only [plainVariables, List.mem_cons, List.not_mem_nil, or_false] at h
  rcases h with rfl | rfl | rfl | rfl | rfl | rfl | rfl
  · exact .inl ⟨.clientId, rfl, rfl⟩
  · exact .inl ⟨.groupId, rfl, rfl⟩
  · exact .inl ⟨.workspace, rfl, rfl⟩
  · exact .inl ⟨.deadLetterTopic, rfl, rfl⟩
  · exact .inr rfl
  · exact .inl ⟨.address, rfl, rfl⟩
  · exact .inl ⟨.database, rfl, rfl⟩

/-- A path that ends with another name is apart from the setting. -/
theorem apart_of_key_ne {path : List Step} {n m : String} (hpath : path = [.name n, .name m])
    (hm : lower m ≠ x.key) : Apart x.sectionName x.key path := by
  rw [hpath]
  exact .otherSetting hm

/-- What is computed from the names that plain variables have for other settings. -/
theorem computed_other_names :
    (Step.pathOf (lower "worker.refresh_interval_ms") =
        [.name "worker", .name "refresh_interval_ms"] ∧
      lower "refresh_interval_ms" = "refresh_interval_ms") ∧
    Step.pathOf (lower "kafka.brokers") = [.name "kafka", .name "brokers"] ∧
      lower "brokers" = "brokers" := by
  decide +kernel

theorem apart_of_mem_plainVariables {e : String × String} (h : e ∈ plainVariables)
    (hne : e.1 ≠ x.plainName) : Apart x.sectionName x.key (Step.pathOf (lower e.2)) := by
  obtain ⟨y, hname, hpath⟩ | hpath := mem_plainVariables h
  · rw [hpath]
    refine apart_of_key_ne y.pathOf_path ?_
    rw [y.lower_key]
    exact fun hkey => hne (by rw [hname, TextSetting.eq_of_key_eq hkey])
  · obtain ⟨⟨hnames, hlower⟩, -⟩ := computed_other_names
    rw [hpath]
    refine apart_of_key_ne hnames ?_
    rw [hlower]
    cases x <;> decide

theorem apart_brokers : Apart x.sectionName x.key (Step.pathOf (lower "kafka.brokers")) := by
  obtain ⟨-, hnames, hlower⟩ := computed_other_names
  refine apart_of_key_ne hnames ?_
  rw [hlower]
  cases x <;> decide

/-! ### Variables -/

/-- A variable says nothing about variables with other names. -/
theorem value?_insert_of_ne {m : String} (h : m ≠ name) :
    Surroundings.value? ⟨pre ++ (name, v) :: post, files⟩ m =
      Surroundings.value? ⟨pre ++ post, files⟩ m := by
  have hname : (m == name) = false := beq_false_of_ne h
  have hlookup : (pre ++ (name, v) :: post).lookup m = (pre ++ post).lookup m := by
    simp only [List.lookup_append, List.lookup_cons, hname]
  rw [Surroundings.value?, Surroundings.value?, hlookup]

theorem lookup_eq_none_of_forall_ne {env : List (String × String)} (h : ∀ e ∈ env, e.1 ≠ name) :
    env.lookup name = none :=
  List.lookup_eq_none_iff.2 fun e he => bne_iff_ne.2 (h e he).symm

theorem value?_insert_self (h : ∀ e ∈ pre, e.1 ≠ name) :
    Surroundings.value? ⟨pre ++ (name, v) :: post, files⟩ name = nonBlank? v := by
  have hlookup : (pre ++ (name, v) :: post).lookup name = some v := by
    rw [List.lookup_append, lookup_eq_none_of_forall_ne h, Option.none_or, List.lookup_cons_self]
  rw [Surroundings.value?, hlookup, Option.bind_some]

theorem value?_of_forall_ne {env : List (String × String)} (h : ∀ e ∈ env, e.1 ≠ name) :
    Surroundings.value? ⟨env, files⟩ name = none := by
  rw [Surroundings.value?, lookup_eq_none_of_forall_ne h, Option.bind_none]

/-! ### Variables with the prefix -/

theorem variableValue_path : variableValue x.path v = Value.ofVariable v := by
  have hpath : x.path ≠ "kafka.brokers" := by cases x <;> decide
  unfold variableValue
  split
  · rename_i s hs
    rw [if_neg hpath, hs]
  · rfl

theorem prefixed_append (env env' : List (String × String)) :
    Surroundings.prefixed ⟨env ++ env', files⟩ =
      Surroundings.prefixed ⟨env, files⟩ ++ Surroundings.prefixed ⟨env', files⟩ :=
  List.filterMap_append

theorem prefixed_cons_of_some {path : String} (h : pathOfVariable? name = some path) :
    Surroundings.prefixed ⟨(name, v) :: post, files⟩ =
      (path, variableValue path v) :: Surroundings.prefixed ⟨post, files⟩ := by
  simp [Surroundings.prefixed, h]

theorem prefixed_cons_of_none (h : pathOfVariable? name = none) :
    Surroundings.prefixed ⟨(name, v) :: post, files⟩ = Surroundings.prefixed ⟨post, files⟩ := by
  simp [Surroundings.prefixed, h]

/-- Variables for settings apart from one give entries apart from it. -/
theorem spares_prefixed (h : ∀ e ∈ post, ∀ path, pathOfVariable? e.1 = some path →
    Apart x.sectionName x.key (Step.pathOf (lower path))) :
    Spares x.sectionName x.key (Surroundings.prefixed ⟨post, files⟩) := by
  intro e he
  obtain ⟨⟨n, t⟩, hmem, hentry⟩ := List.mem_filterMap.1 he
  obtain ⟨path, hpath, rfl⟩ := Option.map_eq_some_iff.1 hentry
  exact h (n, t) hmem path hpath

/-! ### Plain variables -/

/-- The entries of the plain variables, given what each of them says. -/
def plainEntries (said : String → Option String) (names : List (String × String)) :
    List (String × Value) :=
  names.filterMap fun (name, path) => (said name).map fun text => (path, .text text)

/-- The entry for the brokers, given what their plain variable says. -/
def brokerEntries (said : String → Option String) : List (String × Value) :=
  ((said "KAFKA_BROKERS").map fun text => ("kafka.brokers", commaList text)).toList

theorem plain_eq (s : Surroundings) :
    s.plain = brokerEntries s.value? ++ plainEntries s.value? plainVariables := rfl

theorem plainEntries_congr {said said' : String → Option String} {names : List (String × String)}
    (h : ∀ e ∈ names, said e.1 = said' e.1) :
    plainEntries said names = plainEntries said' names := by
  refine List.filterMap_congr fun e he => ?_
  show (said e.1).map _ = (said' e.1).map _
  rw [h e he]

theorem spares_plainEntries (said : String → Option String) {names : List (String × String)}
    (h : ∀ e ∈ names, Apart x.sectionName x.key (Step.pathOf (lower e.2))) :
    Spares x.sectionName x.key (plainEntries said names) := by
  intro e he
  obtain ⟨⟨n, path⟩, hmem, hentry⟩ := List.mem_filterMap.1 he
  obtain ⟨text, -, rfl⟩ := Option.map_eq_some_iff.1 hentry
  exact h (n, path) hmem

theorem spares_brokerEntries (said : String → Option String) :
    Spares x.sectionName x.key (brokerEntries said) := by
  intro e he
  obtain ⟨text, -, rfl⟩ := Option.map_eq_some_iff.1 (Option.mem_toList.1 he)
  exact apart_brokers

/-- **The plain variable of a setting puts its entry among entries apart from it**, and without it
these are left. -/
theorem exists_plain {s s' : Surroundings} {t : String}
    (hothers : ∀ m ∈ "KAFKA_BROKERS" :: plainVariables.map Prod.fst, m ≠ x.plainName →
      s.value? m = s'.value? m)
    (hsilent : s.value? x.plainName = none) (hgiven : s'.value? x.plainName = some t) :
    ∃ es fs, s.plain = es ++ fs ∧ s'.plain = es ++ (x.path, .text t) :: fs ∧
      Spares x.sectionName x.key es ∧ Spares x.sectionName x.key fs := by
  obtain ⟨before, after, hsplit, hne⟩ := exists_plainVariables x
  have hbrokers : brokerEntries s.value? = brokerEntries s'.value? := by
    rw [brokerEntries, brokerEntries,
      hothers "KAFKA_BROKERS" List.mem_cons_self (by cases x <;> decide)]
  have hmem : ∀ e ∈ before ++ after, e ∈ plainVariables := by
    intro e he
    rw [hsplit]
    simp only [List.mem_append, List.mem_cons] at he ⊢
    tauto
  have hsame : ∀ e ∈ before ++ after, s.value? e.1 = s'.value? e.1 := fun e he =>
    hothers e.1 (List.mem_cons_of_mem _ (List.mem_map_of_mem (hmem e he))) (hne e he)
  have hapart : ∀ e ∈ before ++ after, Apart x.sectionName x.key (Step.pathOf (lower e.2)) :=
    fun e he => apart_of_mem_plainVariables (hmem e he) (hne e he)
  rw [List.forall_mem_append] at hsame hapart
  refine ⟨brokerEntries s'.value? ++ plainEntries s'.value? before,
    plainEntries s'.value? after, ?_, ?_,
    (spares_brokerEntries _).append (spares_plainEntries _ hapart.1),
    spares_plainEntries _ hapart.2⟩
  · rw [plain_eq, hsplit, hbrokers, List.append_assoc, ← plainEntries_congr hsame.1,
      ← plainEntries_congr hsame.2]
    simp [plainEntries, hsilent]
  · rw [plain_eq, hsplit, List.append_assoc]
    simp [plainEntries, hgiven]

end Entries

/-! ## Loading -/

/-- What files and the standard settings come to, before any variable. -/
def fromFiles (s : Surroundings) (path? : Option String) : Except LoadFault Value := do
  let v ← withStandardFile s (.table [])
  let v ← match path? with
    | some path => withFile s path v
    | none => .ok v
  match s.value? "TRANSFORM_WORKER_CONFIG" with
  | some path => withFile s path v
  | none => .ok v

theorem merged_eq (s : Surroundings) (path? : Option String) : merged s path? =
    (fun v => v.withEntries (s.prefixed ++ s.plain)) <$> fromFiles s path? := by
  rw [merged, fromFiles]
  cases path? <;> cases s.value? "TRANSFORM_WORKER_CONFIG" <;>
    simp only [Value.withEntries_append, map_eq_pure_bind, bind_assoc]

section Files

variable (env env' : List (String × String)) {files : List (String × Text.Bytes)}

theorem file?_congr (path : String) :
    Surroundings.file? ⟨env, files⟩ path = Surroundings.file? ⟨env', files⟩ path := rfl

variable {env env'}

/-- Of the variables only one says something about files. -/
theorem fromFiles_congr (h : Surroundings.value? ⟨env, files⟩ "TRANSFORM_WORKER_CONFIG" =
      Surroundings.value? ⟨env', files⟩ "TRANSFORM_WORKER_CONFIG") (path? : Option String) :
    fromFiles ⟨env, files⟩ path? = fromFiles ⟨env', files⟩ path? := by
  have hstandard : withStandardFile ⟨env, files⟩ = withStandardFile ⟨env', files⟩ := by
    funext v
    rw [withStandardFile, withStandardFile, file?_congr env env']
  have hfile : withFile ⟨env, files⟩ = withFile ⟨env', files⟩ := by
    funext path v
    rw [withFile, withFile, file?_congr env env']
  rw [fromFiles, fromFiles, h, hstandard, hfile]

end Files

/-- The settings read, normalized and checked. -/
def accepted (settings? : Option Settings) : Except LoadFault Settings :=
  match settings? with
  | none => .error .unreadable
  | some settings =>
    match settings.normalized.fault? with
    | some f => .error (.invalid f)
    | none => .ok settings.normalized

theorem load_eq (s : Surroundings) (path? : Option String) :
    load s path? = (merged s path?).bind fun v => accepted v.settings? := rfl

/-! ## Two spellings -/

section Loads

variable {x : TextSetting} {name v t u : String} {pre post : List (String × String)}

/-- Whether settings are accepted does not depend on the text of one that is not blank, but for
whether it is normalized to nothing. -/
theorem accepted_withText (raw? : Option Settings) (ht : isBlankText t = false)
    (hu : isBlankText u = false) (h : (x.normal t).isEmpty = (x.normal u).isEmpty) :
    accepted (raw?.map (x.withText · t)) =
      (accepted (raw?.map (x.withText · u))).map (x.withText · (x.normal t)) := by
  cases raw? with
  | none => rfl
  | some raw =>
    simp only [Option.map_some, accepted, TextSetting.normalized_withText raw ht,
      TextSetting.normalized_withText raw hu, TextSetting.fault?_withText _ h]
    cases (x.withText raw.normalized (x.normal u)).fault? with
    | some f => rfl
    | none => simp only [Except.map, TextSetting.withText_withText]

/-- What a text is read back as is as good as the text for being accepted, and is normalized to the
same only if it is the same. -/
theorem readBack_cases (x : TextSetting) (hv : isBlankText v = false) :
    (Value.ofVariable v).text? = some (readBack v) ∧ isBlankText (readBack v) = false
      ∧ (x.normal (readBack v)).isEmpty = (x.normal v).isEmpty
      ∧ (x.normal (readBack v) = x.normal v ↔ readBack v = v) := by
  obtain htext | ⟨t, ht, hsolid, hsolid', hne⟩ := Value.isSolid_or_text v
  · have hback : readBack v = v := by rw [readBack, htext]; rfl
    rw [hback, htext]
    exact ⟨rfl, hv, rfl, iff_of_true rfl rfl⟩
  · have hback : readBack v = t := by rw [readBack, ht]; rfl
    have hnonempty : v ≠ "" := by
      rintro rfl
      cases hv
    have hblank : isBlankText t = false :=
      (Text.isTrim_of_no_blanks fun c hc => (hsolid' c hc).1).isBlankText_eq_false hne
    rw [hback, TextSetting.normal_of_isSolid hsolid, TextSetting.normal_of_isSolid hsolid',
      Bool.eq_false_iff.2 (mt String.isEmpty_iff.1 hne),
      Bool.eq_false_iff.2 (mt String.isEmpty_iff.1 hnonempty)]
    exact ⟨ht, hblank, rfl, Iff.rfl⟩

theorem pathOfVariable?_plainName (x : TextSetting) : pathOfVariable? x.plainName = none := by
  have hmem : x.plainName ∈ plainVariables.map Prod.fst := by cases x <;> decide
  exact pathOfVariable?_plain x.plainName (List.mem_cons_of_mem _ (List.mem_cons_of_mem _ hmem))

theorem ne_of_pathOfVariable? {m path : String} (hname : pathOfVariable? name = some path)
    (hm : pathOfVariable? m = none) : m ≠ name := by
  rintro rfl
  rw [hm] at hname
  cases hname

/-- With the one spelling a variable without the prefix says what it says with the other one. -/
theorem value?_spelled {m : String} {files : List (String × Text.Bytes)}
    (hname : pathOfVariable? name = some x.path) (hm : pathOfVariable? m = none)
    (hne : m ≠ x.plainName) :
    Surroundings.value? ⟨pre ++ (name, v) :: post, files⟩ m =
      Surroundings.value? ⟨pre ++ (x.plainName, v) :: post, files⟩ m := by
  rw [value?_insert_of_ne (ne_of_pathOfVariable? hname hm), value?_insert_of_ne hne]

theorem fromFiles_spelled {files : List (String × Text.Bytes)} {path? : Option String}
    (hname : pathOfVariable? name = some x.path) :
    fromFiles ⟨pre ++ (name, v) :: post, files⟩ path? =
      fromFiles ⟨pre ++ (x.plainName, v) :: post, files⟩ path? := by
  refine fromFiles_congr (value?_spelled hname ?_ ?_) path?
  · exact pathOfVariable?_plain _ List.mem_cons_self
  · cases x <;> decide

/-- **Each spelling puts one entry among the same entries of all sources**, and what follows is
apart from the setting. -/
theorem exists_entries (hname : pathOfVariable? name = some x.path) (hv : isBlankText v = false)
    (hplain : ∀ e ∈ pre ++ post, e.1 ≠ x.plainName)
    (hpost : ∀ e ∈ post, ∀ path, pathOfVariable? e.1 = some path →
      Apart x.sectionName x.key (Step.pathOf (lower path)))
    (files : List (String × Text.Bytes)) :
    ∃ es fs gs, Spares x.sectionName x.key fs ∧ Spares x.sectionName x.key gs
      ∧ Surroundings.prefixed ⟨pre ++ (name, v) :: post, files⟩ ++
          Surroundings.plain ⟨pre ++ (name, v) :: post, files⟩ =
        es ++ (x.path, Value.ofVariable v) :: (fs ++ gs)
      ∧ Surroundings.prefixed ⟨pre ++ (x.plainName, v) :: post, files⟩ ++
          Surroundings.plain ⟨pre ++ (x.plainName, v) :: post, files⟩ =
        es ++ (fs ++ (x.path, .text (Text.trimmed v)) :: gs) := by
  have hunprefixed := pathOfVariable?_plainName x
  have hsilent : Surroundings.value? ⟨pre ++ (name, v) :: post, files⟩ x.plainName = none := by
    rw [value?_insert_of_ne (ne_of_pathOfVariable? hname hunprefixed), value?_of_forall_ne hplain]
  have hgiven : Surroundings.value? ⟨pre ++ (x.plainName, v) :: post, files⟩ x.plainName =
      some (Text.trimmed v) := by
    rw [value?_insert_self (fun e he => hplain e (List.mem_append_left _ he)),
      Text.nonBlank?_of_isBlankText_eq_false hv]
  obtain ⟨es, fs, hes, hfs, hspares, hspares'⟩ := exists_plain (fun m hm =>
    value?_spelled hname (pathOfVariable?_plain m (List.mem_cons_of_mem _ hm))) hsilent hgiven
  have hlater : Spares x.sectionName x.key (Surroundings.prefixed ⟨post, files⟩) :=
    spares_prefixed hpost
  refine ⟨Surroundings.prefixed ⟨pre, files⟩, Surroundings.prefixed ⟨post, files⟩ ++ es, fs,
    hlater.append hspares, hspares', ?_, ?_⟩
  · rw [prefixed_append, prefixed_cons_of_some hname, variableValue_path, hes]
    simp only [List.append_assoc, List.cons_append]
  · rw [prefixed_append, prefixed_cons_of_none hunprefixed, hfs]
    simp only [List.append_assoc]

/-- **A variable with the prefix does what the plain one does, to the text that its value is read
back as.** -/
theorem load_spelled (hname : pathOfVariable? name = some x.path) (hv : isBlankText v = false)
    (hplain : ∀ e ∈ pre ++ post, e.1 ≠ x.plainName)
    (hpost : ∀ e ∈ post, ∀ path, pathOfVariable? e.1 = some path →
      Apart x.sectionName x.key (Step.pathOf (lower path)))
    (files : List (String × Text.Bytes)) (path? : Option String) :
    load ⟨pre ++ (name, v) :: post, files⟩ path? =
        (load ⟨pre ++ (x.plainName, v) :: post, files⟩ path?).map
          (x.withText · (x.normal (readBack v)))
      ∧ load ⟨pre ++ (x.plainName, v) :: post, files⟩ path? =
          (load ⟨pre ++ (x.plainName, v) :: post, files⟩ path?).map
            (x.withText · (x.normal v)) := by
  obtain ⟨hback, hblank, hempty, -⟩ := readBack_cases x hv
  have hblank' : isBlankText (Text.trimmed v) = false :=
    (Text.isTrim_of_nonBlank? (Text.nonBlank?_of_isBlankText_eq_false hv)).2
  obtain ⟨es, fs, gs, hfs, hgs, hentries, hentries'⟩ :=
    exists_entries hname hv hplain hpost files
  rw [load_eq, load_eq, merged_eq, merged_eq, fromFiles_spelled hname, hentries, hentries']
  cases fromFiles ⟨pre ++ (x.plainName, v) :: post, files⟩ path? with
  | error f => exact ⟨rfl, rfl⟩
  | ok base =>
    have hnew : ∀ ds, Value.ofVariable v ≠ .table ds := fun ds hds => by
      rw [hds] at hback
      cases hback
    have hnew' : ∀ ds, Value.text (Text.trimmed v) ≠ .table ds := fun ds hds => by cases hds
    obtain ⟨hagree, hat, hat'⟩ := Value.inserted base es x.pathOf_path x.lower_sectionName
      x.lower_key hnew hnew' hfs hgs
    have hread := Value.settings?_of_agreeBut hagree hat hback hat' rfl
    have hread' := Value.settings?_of_agreeBut (.refl _) hat' rfl hat' rfl
    have haccepted := congrArg accepted hread
    have haccepted' := congrArg accepted hread'
    rw [accepted_withText _ hblank' hblank' rfl, ← hread', TextSetting.normal_trimmed]
      at haccepted'
    rw [accepted_withText _ hblank hblank' (hempty.trans (by rw [TextSetting.normal_trimmed])),
      ← hread'] at haccepted
    exact ⟨haccepted, haccepted'⟩

/-- **The two spellings of a text setting agree on the texts that are read back as they are.**  Let
a text that is not blank be given under a name with the prefix in one run and under the plain name
in another, with all other variables and files the same and no other variable for the setting that
goes over it.

The plain name gives the setting its text, normalized.  The name with the prefix gives the same
settings and faults but for the text, which is read back from the value that the variable stands
for; so the two agree exactly on the texts that this leaves as they are, which all texts are that
stand for no truth value and no number. -/
theorem spellings_agree_on_texts_read_back (x : TextSetting)
    (hname : pathOfVariable? name = some x.path) (hv : isBlankText v = false)
    (hplain : ∀ e ∈ pre ++ post, e.1 ≠ x.plainName)
    (hpost : ∀ e ∈ post, ∀ path, pathOfVariable? e.1 = some path →
      Apart x.sectionName x.key (Step.pathOf (lower path)))
    (files : List (String × Text.Bytes)) (path? : Option String) :
    pathOfVariable? x.prefixedName = some x.path
      ∧ (∀ c, load ⟨pre ++ (x.plainName, v) :: post, files⟩ path? = .ok c →
          x.get? c = some (x.normal v))
      ∧ load ⟨pre ++ (name, v) :: post, files⟩ path? =
          (load ⟨pre ++ (x.plainName, v) :: post, files⟩ path?).map
            (x.withText · (x.normal (readBack v)))
      ∧ (load ⟨pre ++ (name, v) :: post, files⟩ path? =
            load ⟨pre ++ (x.plainName, v) :: post, files⟩ path? ↔
          readBack v = v ∨ ∃ f, load ⟨pre ++ (x.plainName, v) :: post, files⟩ path? = .error f)
      ∧ (Value.ofVariable v = .text v → readBack v = v) := by
  obtain ⟨hprefixed, hflat⟩ := load_spelled hname hv hplain hpost files path?
  obtain ⟨-, -, -, hsame⟩ := readBack_cases x hv
  have htext : Value.ofVariable v = .text v → readBack v = v := fun h => by
    rw [readBack, h]
    rfl
  rw [hprefixed]
  generalize load ⟨pre ++ (x.plainName, v) :: post, files⟩ path? = plain at hflat ⊢
  refine ⟨x.pathOfVariable?_prefixedName, ?_, rfl, ?_, htext⟩
  · rintro c rfl
    rw [Except.ok.inj hflat]
    exact TextSetting.get?_withText c _
  · cases plain with
    | error f => exact iff_of_true rfl (.inr ⟨f, rfl⟩)
    | ok c =>
      constructor
      · intro h
        have hget := congrArg x.get? (Except.ok.inj (h.trans hflat))
        rw [TextSetting.get?_withText, TextSetting.get?_withText] at hget
        exact .inl (hsame.1 (Option.some.inj hget))
      · rintro (h | ⟨f, hf⟩)
        · rw [h, ← hflat]
        · cases hf

end Loads

theorem workspace_names_agree :
    load ⟨[("KAFKA_GROUP_ID", "g"), ("TRANSFORM_WORKER__WORKER__WORKSPACE_ID", " ws-1"),
        ("TRANSFORM_WORKER__WORKER__DLQ_TOPIC", "dead")], []⟩ none =
      .ok { broker := { groupId := "g" },
            worker := { workspace? := some "ws-1", deadLetterTopic? := some "dead" } } := by
  have hname : pathOfVariable? "TRANSFORM_WORKER__WORKER__WORKSPACE_ID" =
      some (TextSetting.path .workspace) := by decide +kernel
  have hblank : isBlankText " ws-1" = false := by decide +kernel
  have hplain : ∀ e ∈ [("KAFKA_GROUP_ID", "g")] ++
      [("TRANSFORM_WORKER__WORKER__DLQ_TOPIC", "dead")],
      e.1 ≠ TextSetting.plainName .workspace := by decide
  have hapart : ∀ e ∈ [("TRANSFORM_WORKER__WORKER__DLQ_TOPIC", "dead")], ∀ path,
      pathOfVariable? e.1 = some path → Apart "worker" "workspace_id"
        (Step.pathOf (lower path)) := by
    have hother : pathOfVariable? "TRANSFORM_WORKER__WORKER__DLQ_TOPIC" =
        some (TextSetting.path .deadLetterTopic) := by decide +kernel
    intro e he path hpath
    rw [List.mem_singleton.1 he, hother] at hpath
    rw [← Option.some.inj hpath]
    exact apart_of_key_ne (x := .workspace) (TextSetting.pathOf_path _) (by decide +kernel)
  obtain ⟨-, -, -, hagree, -⟩ :=
    spellings_agree_on_texts_read_back .workspace hname hblank hplain hapart [] none
  have hkept : readBack " ws-1" = " ws-1" := by decide +kernel
  refine (hagree.2 (.inl hkept)).trans ?_
  decide +kernel

/-- A workspace whose name is a number with zeros in front is given by its plain variable and lost
with the other one, which gives the number. -/
theorem zeros_of_a_workspace_are_lost :
    load ⟨[("WORKSPACE_ID", "007")], []⟩ none = .ok { worker := { workspace? := some "007" } }
      ∧ load ⟨[("TRANSFORM_WORKER__WORKER__WORKSPACE_ID", "007")], []⟩ none =
          .ok { worker := { workspace? := some "7" } }
      ∧ load ⟨[("TRANSFORM_WORKER__WORKER__WORKSPACE_ID", "007")], []⟩ none ≠
          load ⟨[("WORKSPACE_ID", "007")], []⟩ none := by
  decide +kernel

end Reshape.Settings

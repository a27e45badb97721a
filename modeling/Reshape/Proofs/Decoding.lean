/-
# Decoding stored documents

A document holds a definition if each of its values has the type that belongs to its key
(`Document.Holds`).  Documents are decoded one by one: one that holds a definition gives it, and
one that holds none is left out, whatever the others are (`Decoded`).

A version is an integer in one of three forms (`Datum.IsInteger`).  A word has its value, but a
double may be an integer that no word has, and is then taken for the last word on its side
(`Word.StandsFor`).
-/
import Mathlib.Tactic
import Reshape.Document
import Reshape.Proofs.Integers

namespace Reshape

open Magnitude (one)

/-! ## Words for integers -/

namespace Word

/-- The word has the value `n`, or is the last one on the side on which `n` is beyond the
words. -/
inductive StandsFor : Int64 → ℤ → Prop
  | same (w : Int64) : StandsFor w w.toInt
  | least {n : ℤ} (h : n < minInt64) : StandsFor (.ofInt minInt64) n
  | greatest {n : ℤ} (h : maxInt64 < n) : StandsFor (.ofInt maxInt64) n

/-- The integer has a word of its own. -/
def Fits (n : ℤ) : Prop := minInt64 ≤ n ∧ n ≤ maxInt64

theorem fits_toInt (w : Int64) : Fits w.toInt := by
  have hlo := w.le_toInt
  have hhi := w.toInt_lt
  unfold Fits minInt64 maxInt64
  omega

theorem toInt_ofInt {n : ℤ} (h : Fits n) : (Int64.ofInt n).toInt = n := by
  unfold Fits minInt64 maxInt64 at h
  exact Int64.toInt_ofInt_of_le (by omega) (by omega)

theorem clampInt64_of_fits {n : ℤ} (h : Fits n) : Binary64.clampInt64 n = n := by
  rw [Binary64.clampInt64, Binary64.clamp, if_neg (not_lt.2 h.1), if_neg (not_lt.2 h.2)]

/-- The word that stands for an integer is the nearest one. -/
theorem standsFor_iff {w : Int64} {n : ℤ} :
    StandsFor w n ↔ w = .ofInt (Binary64.clampInt64 n) := by
  constructor
  · rintro (_ | h | h)
    · rw [clampInt64_of_fits (fits_toInt w), Int64.ofInt_toInt]
    · rw [Binary64.clampInt64, Binary64.clamp, if_pos h]
    · have hlo : ¬ n < minInt64 := by
        unfold minInt64 maxInt64 at *
        omega
      rw [Binary64.clampInt64, Binary64.clamp, if_neg hlo, if_pos h]
  · rintro rfl
    rcases Int.lt_or_le n minInt64 with hlo | hlo
    · rw [Binary64.clampInt64, Binary64.clamp, if_pos hlo]
      exact .least hlo
    · rcases Int.lt_or_le maxInt64 n with hhi | hhi
      · rw [Binary64.clampInt64, Binary64.clamp, if_neg (not_lt.2 hlo), if_pos hhi]
        exact .greatest hhi
      · rw [clampInt64_of_fits ⟨hlo, hhi⟩]
        have hsame := StandsFor.same (Int64.ofInt n)
        rwa [toInt_ofInt ⟨hlo, hhi⟩] at hsame

/-- The word has the value exactly if one has. -/
theorem StandsFor.toInt_eq_iff {w : Int64} {n : ℤ} (h : StandsFor w n) :
    w.toInt = n ↔ Fits n := by
  constructor
  · rintro rfl
    exact fits_toInt w
  · intro hn
    rw [standsFor_iff.1 h, clampInt64_of_fits hn, toInt_ofInt hn]

end Word

/-! ## Values -/

/-- A finite double is an integer if it has no places, and then it is its whole part. -/
theorem Finite.signed_eq_iff {d : Finite} {n : ℤ} :
    d.signed = n * one ↔ d.isWhole = true ∧ d.truncInt = n := by
  have hone : (one : ℤ) ≠ 0 := Int.natCast_ne_zero.2 Magnitude.one_pos.ne'
  have hwhole : d.isWhole = true ↔ (one : ℤ) ∣ d.signed := by
    rw [isWhole, beq_iff_eq, ← Nat.dvd_iff_mod_eq_zero, signed, ← Int.natCast_dvd_natCast]
    split
    · exact Int.dvd_neg.symm
    · exact Iff.rfl
  rw [hwhole, truncInt]
  constructor
  · intro h
    rw [h]
    exact ⟨Int.dvd_mul_left _ _, Int.mul_tdiv_cancel _ hone⟩
  · rintro ⟨hdvd, rfl⟩
    exact (Int.tdiv_mul_cancel hdvd).symm

namespace Datum

/-- The value is the integer `n`: a word of either size, or a double without places. -/
inductive IsInteger : Datum → ℤ → Prop
  | int32 (w : Int32) : IsInteger (.int32 w) w.toInt
  | int64 (w : Int64) : IsInteger (.int64 w) w.toInt
  | double {x : Binary64} {n : ℤ} (h : x.IsInt n) : IsInteger (.double x) n

/-- The value names the status: as a text, or as the key of a document with one entry. -/
inductive Names : Datum → Status → Prop
  | text (s : Status) : Names (.text s.name) s
  | entry (s : Status) (v : Datum) : Names (.document [(s.name, v)]) s

/-- **A value gives a version exactly if it is an integer**, and the version is the word that
stands for it. -/
theorem version?_eq_some_iff {v : Datum} {w : Int64} :
    v.version? = some w ↔ ∃ n, v.IsInteger n ∧ Word.StandsFor w n := by
  cases v with
  | int32 k =>
    have hfits : Word.Fits k.toInt := by
      have hlo := k.le_toInt
      have hhi := k.toInt_lt
      unfold Word.Fits Word.minInt64 Word.maxInt64
      omega
    constructor
    · intro h
      obtain rfl : Int64.ofInt k.toInt = w := Option.some.inj h
      refine ⟨_, .int32 k, Word.standsFor_iff.2 ?_⟩
      rw [Word.clampInt64_of_fits hfits]
    · rintro ⟨n, ⟨⟩, hw⟩
      rw [Word.standsFor_iff.1 hw, Word.clampInt64_of_fits hfits]
      rfl
  | int64 k =>
    constructor
    · intro h
      obtain rfl : k = w := Option.some.inj h
      exact ⟨_, .int64 k, .same k⟩
    · rintro ⟨n, ⟨⟩, hw⟩
      rw [Word.standsFor_iff.1 hw, Word.clampInt64_of_fits (Word.fits_toInt k), Int64.ofInt_toInt]
      rfl
  | double x =>
    cases x with
    | finite d =>
      have hversion : (double (.finite d)).version? =
          if d.isWhole then some (.ofInt (Binary64.clampInt64 d.truncInt)) else none := rfl
      rw [hversion, Option.ite_none_right_eq_some]
      constructor
      · rintro ⟨hwhole, h⟩
        exact ⟨d.truncInt, .double ⟨d, rfl, Finite.signed_eq_iff.2 ⟨hwhole, rfl⟩⟩,
          Word.standsFor_iff.2 (Option.some.inj h).symm⟩
      · rintro ⟨n, hint, hw⟩
        obtain ⟨e, he, hn⟩ : (Binary64.finite d).IsInt n := by
          cases hint
          assumption
        obtain rfl : d = e := Binary64.finite.inj he
        obtain ⟨hwhole, rfl⟩ := Finite.signed_eq_iff.1 hn
        exact ⟨hwhole, congrArg some (Word.standsFor_iff.1 hw).symm⟩
    | infinite s | nan =>
      refine iff_of_false (by rintro ⟨⟩) ?_
      rintro ⟨n, hint, -⟩
      cases hint with
      | double h =>
        obtain ⟨e, he, -⟩ := h
        cases he
  | null | bool b | text s | list items | document entries | date | identifier =>
    refine iff_of_false (by rintro ⟨⟩) ?_
    rintro ⟨n, hint, -⟩
    cases hint

/-- A value is one integer at most. -/
theorem IsInteger.unique {v : Datum} {n m : ℤ} (hn : v.IsInteger n) (hm : v.IsInteger m) :
    n = m := by
  cases hn with
  | int32 w | int64 w =>
    cases hm
    rfl
  | double hx =>
    obtain ⟨d, rfl, hd⟩ := hx
    obtain ⟨e, he, hm⟩ : (Binary64.finite d).IsInt m := by
      cases hm
      assumption
    obtain rfl : d = e := Binary64.finite.inj he
    rw [← (Finite.signed_eq_iff.1 hd).2, ← (Finite.signed_eq_iff.1 hm).2]

end Datum

/-- A status has one name. -/
theorem Status.ofName?_eq_some_iff {k : String} {s : Status} : ofName? k = some s ↔ k = s.name := by
  constructor
  · intro h
    unfold ofName? at h
    split at h <;> cases h <;> rfl
  · rintro rfl
    exact ofName?_name s

namespace Datum

theorem status?_eq_some_iff {v : Datum} {s : Status} : v.status? = some s ↔ v.Names s := by
  constructor
  · intro h
    unfold status? at h
    split at h
    · rw [Status.ofName?_eq_some_iff.1 h]
      exact .text s
    · rw [Status.ofName?_eq_some_iff.1 h]
      exact .entry s _
    · cases h
  · rintro (_ | _)
    · exact Status.ofName?_name s
    · exact Status.ofName?_name s

theorem text?_eq_some_iff {v : Datum} {s : String} : v.text? = some s ↔ v = .text s := by
  cases v <;> simp [text?]

end Datum

/-! ## Documents -/

namespace Document

/-- The document holds the definition: the texts of the definition are there, the version is an
integer that its word stands for, a status is named or missing, and everything else that is there
and not null has its type. -/
structure Holds (d : Document) (e : Definition) : Prop where
  id : d.get? "_id" = some (.text e.id)
  workspace : d.get? "workspaceId" = some (.text e.workspace)
  source : d.get? "sourceTopic" = some (.text e.source)
  target : d.get? "targetTopic" = some (.text e.target)
  expression : d.get? "expression" = some (.text e.expression)
  version : ∃ v n, d.get? "version" = some v ∧ v.IsInteger n ∧ Word.StandsFor e.version n
  status : d.get? "status" = none ∧ e.status = .draft ∨
    ∃ v, d.get? "status" = some v ∧ v.Names e.status
  texts : ∀ k ∈ optionalTexts, ∀ v, d.get? k = some v → v = .null ∨ ∃ s, v = .text s
  words : ∀ k ∈ optionalWords, ∀ v, d.get? k = some v →
    v = .null ∨ (∃ w, v = .int32 w) ∨ ∃ w, v = .int64 w
  dates : ∀ k ∈ optionalDates, ∀ v, d.get? k = some v → v = .null ∨ v = .date

variable {d : Document} {e : Definition}

theorem text?_eq_some_iff {k s : String} : d.text? k = some s ↔ d.get? k = some (.text s) := by
  rw [text?, Option.bind_eq_some_iff]
  simp only [Datum.text?_eq_some_iff, exists_eq_right]

/-- A value may be missing or null, and else it has to pass. -/
theorem allows_iff {k : String} {passes : Datum → Bool} :
    d.allows k passes = true ↔ ∀ v, d.get? k = some v → v = .null ∨ passes v = true := by
  unfold allows
  split
  · rename_i h
    exact iff_of_true rfl fun v hv => by rw [h] at hv; cases hv
  · rename_i h
    exact iff_of_true rfl fun v hv => by rw [h] at hv; cases hv; exact Or.inl rfl
  · rename_i v hnull h
    rw [h]
    constructor
    · rintro hpass w ⟨⟩
      exact Or.inr hpass
    · intro hall
      exact (hall v rfl).resolve_left hnull

theorem restPasses_iff : d.restPasses = true ↔
    (∀ k ∈ optionalTexts, ∀ v, d.get? k = some v → v = .null ∨ ∃ s, v = .text s) ∧
    (∀ k ∈ optionalWords, ∀ v, d.get? k = some v →
      v = .null ∨ (∃ w, v = .int32 w) ∨ ∃ w, v = .int64 w) ∧
    ∀ k ∈ optionalDates, ∀ v, d.get? k = some v → v = .null ∨ v = .date := by
  have htext : ∀ v : Datum, v.text?.isSome = true ↔ ∃ s, v = .text s := by
    intro v
    rw [Option.isSome_iff_exists]
    simp only [Datum.text?_eq_some_iff]
  have hword : ∀ v : Datum, v.word?.isSome = true ↔ (∃ w, v = .int32 w) ∨ ∃ w, v = .int64 w := by
    intro v
    cases v <;> simp [Datum.word?]
  have hdate : ∀ v : Datum, v.isDate = true ↔ v = .date := by
    intro v
    cases v <;> simp [Datum.isDate]
  rw [restPasses, Bool.and_eq_true, Bool.and_eq_true, and_assoc]
  simp only [List.all_eq_true, allows_iff, htext, hword, hdate]

/-- A missing status is that of a draft, and one that is there has to be named. -/
theorem status_eq_some_iff {s : Status} :
    (match d.get? "status" with | none => some .draft | some v => v.status?) = some s ↔
      d.get? "status" = none ∧ s = .draft ∨ ∃ v, d.get? "status" = some v ∧ v.Names s := by
  cases d.get? "status" with
  | none => simp [eq_comm]
  | some v => simp [Datum.status?_eq_some_iff]

/-- A document gives a definition if it gives each part of it. -/
theorem definition?_eq_some_iff_parts : d.definition? = some e ↔
    d.restPasses = true ∧ d.text? "_id" = some e.id ∧ d.text? "workspaceId" = some e.workspace ∧
    d.text? "sourceTopic" = some e.source ∧ d.text? "targetTopic" = some e.target ∧
    (d.get? "version").bind Datum.version? = some e.version ∧
    d.text? "expression" = some e.expression ∧
    (match d.get? "status" with | none => some .draft | some v => v.status?) = some e.status := by
  obtain ⟨id, workspace, source, target, version, expression, status⟩ := e
  cases hrest : d.restPasses with
  | false => simp [definition?, hrest]
  | true =>
    simp only [definition?, hrest, Bool.not_true, Bool.false_eq_true, if_false,
      Option.bind_eq_bind, Option.bind_eq_some_iff, true_and]
    constructor
    · rintro ⟨_, hid, _, hworkspace, _, hsource, _, htarget, v, hv, _, hversion, _, hexpression, h⟩
      cases hs : d.get? "status" with
      | none =>
        rw [hs] at h
        cases h
        exact ⟨hid, hworkspace, hsource, htarget, ⟨v, hv, hversion⟩, hexpression, rfl⟩
      | some u =>
        rw [hs] at h
        obtain ⟨s, hu, h⟩ := Option.bind_eq_some_iff.1 h
        cases h
        exact ⟨hid, hworkspace, hsource, htarget, ⟨v, hv, hversion⟩, hexpression, hu⟩
    · rintro ⟨hid, hworkspace, hsource, htarget, ⟨v, hv, hversion⟩, hexpression, h⟩
      refine ⟨_, hid, _, hworkspace, _, hsource, _, htarget, v, hv, _, hversion, _, hexpression, ?_⟩
      cases hs : d.get? "status" with
      | none =>
        rw [hs] at h
        cases h
        rfl
      | some u =>
        rw [hs] at h
        exact Option.bind_eq_some_iff.2 ⟨_, h, rfl⟩

/-- **A document is decoded as the definition that it holds.** -/
theorem definition?_eq_some_iff : d.definition? = some e ↔ d.Holds e := by
  rw [definition?_eq_some_iff_parts, restPasses_iff, status_eq_some_iff, Option.bind_eq_some_iff]
  simp only [text?_eq_some_iff, Datum.version?_eq_some_iff]
  constructor
  · rintro ⟨⟨htexts, hwords, hdates⟩, hid, hworkspace, hsource, htarget, ⟨v, hv, n, hversion⟩,
      hexpression, hstatus⟩
    exact ⟨hid, hworkspace, hsource, htarget, hexpression, ⟨v, n, hv, hversion⟩, hstatus, htexts,
      hwords, hdates⟩
  · intro h
    obtain ⟨v, n, hv, hversion⟩ := h.version
    exact ⟨⟨h.texts, h.words, h.dates⟩, h.id, h.workspace, h.source, h.target, ⟨v, hv, n, hversion⟩,
      h.expression, h.status⟩

/-- What documents are decoded to, one by one. -/
inductive Decoded : List Document → List Definition → Prop
  | nil : Decoded [] []
  | kept {d : Document} {e : Definition} {ds : List Document} {es : List Definition}
      (h : d.Holds e) (rest : Decoded ds es) : Decoded (d :: ds) (e :: es)
  | skipped {d : Document} {ds : List Document} {es : List Definition}
      (h : ∀ e, ¬ d.Holds e) (rest : Decoded ds es) : Decoded (d :: ds) es

theorem decoded_iff {ds : List Document} {es : List Definition} :
    Decoded ds es ↔ definitions ds = es := by
  constructor
  · intro h
    induction h with
    | nil => rfl
    | kept h _ ih => rw [definitions, List.filterMap_cons_some (definition?_eq_some_iff.2 h),
        ← definitions, ih]
    | @skipped d _ _ h _ ih =>
      have hnone : d.definition? = none :=
        Option.eq_none_iff_forall_ne_some.2 fun e he => h e (definition?_eq_some_iff.1 he)
      rw [definitions, List.filterMap_cons_none hnone, ← definitions, ih]
  · rintro rfl
    induction ds with
    | nil => exact .nil
    | cons d ds ih =>
      rw [definitions]
      cases hd : d.definition? with
      | none =>
        rw [List.filterMap_cons_none hd]
        refine .skipped (fun e he => ?_) ih
        rw [definition?_eq_some_iff.2 he] at hd
        cases hd
      | some e =>
        rw [List.filterMap_cons_some hd]
        exact .kept (definition?_eq_some_iff.1 hd) ih

/-- **Documents are decoded one by one.**  The definitions are, in order, those that the documents
hold, and documents that hold none are left out.  The version of a definition has the value of the
stored one exactly if a word has: a double without places beyond the words is altered, not
refused. -/
theorem documents_are_decoded_one_by_one (ds : List Document) :
    (∀ es, Decoded ds es ↔ definitions ds = es) ∧
    ∀ (d : Document) (e : Definition), d.Holds e →
      ∀ (v : Datum) (n : ℤ), d.get? "version" = some v → v.IsInteger n →
        (e.version.toInt = n ↔ Word.Fits n) := by
  refine ⟨fun es => decoded_iff, fun d e h v n hv hn => ?_⟩
  obtain ⟨u, m, hu, hm, hstands⟩ := h.version
  obtain rfl : u = v := Option.some.inj (hu.symm.trans hv)
  obtain rfl : m = n := hm.unique hn
  exact hstands.toInt_eq_iff

/-- A document with the texts of a definition and a version. -/
def versioned (v : Datum) : Document :=
  [("_id", .text "t1"), ("workspaceId", .text "ws-1"), ("version", v), ("expression", .text "$"),
   ("sourceTopic", .text "orders.raw"), ("targetTopic", .text "orders.out")]

/-- Of three documents the one with the double 3 for a version is decoded, and those with 2.5 and
with infinity are left out. -/
theorem whole_double_is_a_version :
    let x := (Binary64.ofInt 5).div (.ofInt 2)
    ∃ e, definitions [versioned (.double x), versioned (.double (.ofInt 3)),
        versioned (.double (.infinite false))] = [e] ∧ e.version.toInt = 3 := by
  intro x
  have he : (versioned (.double (.ofInt 3))).Holds
      ⟨"t1", "ws-1", "orders.raw", "orders.out", 3, "$", .draft⟩ :=
    definition?_eq_some_iff.1 (by decide +kernel)
  have hthree : (Binary64.ofInt 3).IsInt 3 := Binary64.isInt_ofInt (by decide +kernel)
  have hnone : ∀ v, (versioned v).definition? = none → ∀ e, ¬ (versioned v).Holds e := by
    intro v hv e he
    rw [definition?_eq_some_iff.2 he] at hv
    cases hv
  obtain ⟨hdecode, hversion⟩ := documents_are_decoded_one_by_one
    [versioned (.double x), versioned (.double (.ofInt 3)), versioned (.double (.infinite false))]
  refine ⟨_, (hdecode [_]).1 (.skipped (hnone _ (by decide +kernel)) (.kept he
    (.skipped (hnone _ (by decide +kernel)) .nil))), ?_⟩
  exact (hversion _ _ he _ 3 rfl (.double hthree)).2 ⟨by decide, by decide⟩

/-- The double 2⁶³ is an integer that no word has, and as a version it is decoded as 2⁶³ - 1. -/
theorem version_beyond_the_words_is_altered :
    (Binary64.ofInt (2 ^ 63)).IsInt (2 ^ 63) ∧ ¬ Word.Fits (2 ^ 63) ∧
      ∃ e, definitions [versioned (.double (.ofInt (2 ^ 63)))] = [e] ∧
        e.version.toInt = 2 ^ 63 - 1 := by
  refine ⟨Binary64.isInt_ofInt (by decide +kernel), fun h => absurd h.2 (by decide),
    ⟨"t1", "ws-1", "orders.raw", "orders.out", 9223372036854775807, "$", .draft⟩, ?_, by decide⟩
  decide +kernel

end Document

end Reshape

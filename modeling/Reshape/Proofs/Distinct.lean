/-
# Equality, and items without repetition

The comparison of documents looks for the members of the one document in the other and compares
numbers as doubles; on well-formed documents this is an equivalence, since it decides whether
they are alike (`equals_iff_alike`).

Of an array those items stay that equal none before them (`firsts`).  It is enough to compare an
item with those kept before it: whatever was left out equals one of them, so that by
transitivity an item equals one before it exactly if it equals one that was kept
(`distinctFrom_eq_firsts`).
-/
import Mathlib.Tactic
import Reshape.Expression.Library
import Reshape.Proofs.Likeness
import Reshape.Proofs.Nearness

namespace Reshape

/-- The numbers have the same nearest double. -/
def Number.SameDouble (x y : Number) : Prop := x.double.value = y.double.value

theorem Number.sameDouble_equivalence : Equivalence Number.SameDouble where
  refl _ := rfl
  symm h := Eq.symm h
  trans h h' := Eq.trans h h'

namespace Expression

open Json (Alike)
open Library (distinctFrom)

/-! ## Equality -/

/-- Of these documents `=` is true. -/
def Equals (v w : Json) : Prop :=
  Operator.equal.apply (some v) (some w) = .ok (some (.bool true))

section

variable {u v w : Json}

theorem equals_iff_same : Equals v w ↔ same v w = true := by
  simp [Equals, Operator.apply]

instance (v w : Json) : Decidable (Equals v w) := decidable_of_iff _ equals_iff_same.symm

/-- **Documents are equal if they are alike up to the nearest doubles.** -/
theorem equals_iff_alike (hv : v.WellFormed) (hw : w.WellFormed) :
    Equals v w ↔ Alike Number.SameDouble v w := by
  rw [equals_iff_same, same_iff_alike hv hw]
  exact ⟨fun h => h.imp fun _ _ => Number.sameNumber_iff.1,
    fun h => h.imp fun _ _ => Number.sameNumber_iff.2⟩

theorem alike_equivalence : Equivalence (Alike Number.SameDouble) :=
  Json.equivalence_alike Number.sameDouble_equivalence

theorem Equals.refl (hv : v.WellFormed) : Equals v v :=
  (equals_iff_alike hv hv).2 (alike_equivalence.refl v)

theorem Equals.symm (hv : v.WellFormed) (hw : w.WellFormed) (h : Equals v w) : Equals w v :=
  (equals_iff_alike hw hv).2 (alike_equivalence.symm ((equals_iff_alike hv hw).1 h))

theorem Equals.trans (hu : u.WellFormed) (hv : v.WellFormed) (hw : w.WellFormed)
    (h : Equals u v) (h' : Equals v w) : Equals u w := by
  rw [equals_iff_alike hu hv] at h
  rw [equals_iff_alike hv hw] at h'
  exact (equals_iff_alike hu hw).2 (alike_equivalence.trans h h')

end

/-! ## First occurrences -/

/-- The items that equal none before them. -/
def firsts (items : List Json) : List Json :=
  (items.zipIdx.filter fun (p : Json × Nat) =>
    decide (∀ u ∈ items.take p.2, ¬ Equals u p.1)).map Prod.fst

/-- What is at the end stays if it equals nothing before it. -/
theorem firsts_concat (items : List Json) (v : Json) :
    firsts (items ++ [v]) = firsts items ++ if ∃ u ∈ items, Equals u v then [] else [v] := by
  have hbefore : ∀ p ∈ items.zipIdx, (items ++ [v]).take p.2 = items.take p.2 := by
    intro p hp
    have hlt : p.2 < items.length := (List.mem_zipIdx' (x := p.1) (i := p.2) hp).1
    exact List.take_append_of_le_length hlt.le
  rw [firsts, firsts, List.zipIdx_append, List.filter_append, List.map_append]
  congr 2
  · refine List.filter_congr fun p hp => ?_
    rw [hbefore p hp]
  · have htake : (items ++ [v]).take items.length = items := List.take_left
    have hiff : (∀ u ∈ items, ¬ Equals u v) ↔ ¬ ∃ u ∈ items, Equals u v := by
      simp only [not_exists, not_and]
    rw [Nat.zero_add, List.zipIdx_singleton, List.filter_singleton, htake]
    by_cases h : ∃ u ∈ items, Equals u v
    · simp [hiff, h]
    · simp [hiff, h]

variable {seen items : List Json} {v w : Json}

/-- What is at the end stays if it equals nothing that stayed before it. -/
theorem distinctFrom_concat (seen items : List Json) (v : Json) :
    distinctFrom seen (items ++ [v]) = distinctFrom seen items ++
      if ∃ u ∈ seen ++ distinctFrom seen items, Equals u v then [] else [v] := by
  induction items generalizing seen with
  | nil =>
    simp only [List.nil_append, distinctFrom, List.append_nil, List.any_eq_true, equals_iff_same]
  | cons x rest ih =>
    rw [List.cons_append, distinctFrom, distinctFrom]
    split
    · exact ih seen
    · rw [ih]
      have hmem : ∀ u, u ∈ x :: seen ++ distinctFrom (x :: seen) rest ↔
          u ∈ seen ++ x :: distinctFrom (x :: seen) rest := by
        intro u
        simp only [List.cons_append, List.mem_cons, List.mem_append]
        tauto
      simp only [hmem]
      rfl

theorem distinctFrom_sublist (seen items : List Json) :
    (distinctFrom seen items).Sublist items := by
  induction items generalizing seen with
  | nil => exact .slnil
  | cons x rest ih =>
    rw [distinctFrom]
    split
    · exact (ih seen).cons x
    · exact (ih (x :: seen)).cons_cons x

/-- What stays equals nothing seen before. -/
theorem not_equals_of_mem_distinctFrom (hv : v ∈ distinctFrom seen items) :
    ∀ u ∈ seen, ¬ Equals u v := by
  induction items generalizing seen with
  | nil => cases hv
  | cons x rest ih =>
    rw [distinctFrom] at hv
    split at hv
    · exact ih hv
    · rename_i hx
      rcases List.mem_cons.1 hv with rfl | hv
      · intro u hu hequal
        exact hx (List.any_eq_true.2 ⟨u, hu, equals_iff_same.1 hequal⟩)
      · exact fun u hu => ih hv u (List.mem_cons_of_mem x hu)

/-- What stays equals nothing that stays before it. -/
theorem pairwise_distinctFrom (seen items : List Json) :
    (distinctFrom seen items).Pairwise fun v w => ¬ Equals v w := by
  induction items generalizing seen with
  | nil => exact .nil
  | cons x rest ih =>
    rw [distinctFrom]
    split
    · exact ih seen
    · refine .cons (fun w hw => ?_) (ih (x :: seen))
      exact not_equals_of_mem_distinctFrom hw x List.mem_cons_self

/-- Every item equals one that stays, or one seen before. -/
theorem exists_equals_of_mem (seen : List Json) (hitems : ∀ v ∈ items, v.WellFormed) (hv : v ∈ items) :
    ∃ u ∈ seen ++ distinctFrom seen items, Equals u v := by
  induction items generalizing seen with
  | nil => cases hv
  | cons x rest ih =>
    obtain ⟨hx, hrest⟩ := List.forall_mem_cons.1 hitems
    rw [distinctFrom]
    split
    · rename_i hseen
      rcases List.mem_cons.1 hv with rfl | hv
      · obtain ⟨u, hu, hsame⟩ := List.any_eq_true.1 hseen
        exact ⟨u, List.mem_append_left _ hu, equals_iff_same.2 hsame⟩
      · exact ih seen hrest hv
    · rcases List.mem_cons.1 hv with rfl | hv
      · exact ⟨v, List.mem_append_right _ List.mem_cons_self, .refl hx⟩
      · obtain ⟨u, hu, hequal⟩ := ih (x :: seen) hrest hv
        refine ⟨u, ?_, hequal⟩
        simp only [List.cons_append, List.mem_cons, List.mem_append] at hu ⊢
        tauto

/-- Items that are not equal to one another stay, all of them. -/
theorem distinctFrom_eq_self (hitems : items.Pairwise fun v w => ¬ Equals v w)
    (hseen : ∀ v ∈ items, ∀ u ∈ seen, ¬ Equals u v) : distinctFrom seen items = items := by
  induction items generalizing seen with
  | nil => rfl
  | cons x rest ih =>
    obtain ⟨hx, hrest⟩ := List.pairwise_cons.1 hitems
    obtain ⟨hxseen, hrestseen⟩ := List.forall_mem_cons.1 hseen
    have hany : ¬ (seen.any fun u => same u x) = true := by
      intro hany
      obtain ⟨u, hu, hsame⟩ := List.any_eq_true.1 hany
      exact hxseen u hu (equals_iff_same.2 hsame)
    rw [distinctFrom, if_neg hany, ih hrest]
    intro v hv u hu
    rcases List.mem_cons.1 hu with rfl | hu
    · exact hx v hv
    · exact hrestseen v hv u hu

/-- **What stays of an array are the first occurrences.** -/
theorem distinctFrom_eq_firsts (hitems : ∀ v ∈ items, v.WellFormed) :
    distinctFrom [] items = firsts items := by
  induction items using List.reverseRecOn with
  | nil => rfl
  | append_singleton items v ih =>
    have hbefore : ∀ u ∈ items, u.WellFormed := fun u hu =>
      hitems u (List.mem_append_left _ hu)
    have hv := hitems v (List.mem_append_right _ (List.mem_singleton_self v))
    rw [distinctFrom_concat, firsts_concat, ih hbefore, List.nil_append]
    congr 2
    rw [← ih hbefore]
    refine propext ⟨?_, ?_⟩
    · rintro ⟨u, hu, hequal⟩
      exact ⟨u, (distinctFrom_sublist [] items).subset hu, hequal⟩
    · rintro ⟨u, hu, hequal⟩
      -- the item that `v` equals was kept or equals one that was
      obtain ⟨w, hw, hwu⟩ := exists_equals_of_mem [] hbefore hu
      rw [List.nil_append] at hw
      have hwell := hbefore w ((distinctFrom_sublist [] items).subset hw)
      exact ⟨w, hw, hwu.trans hwell (hbefore u hu) hv hequal⟩

/-! ## The built-in -/

/-- The items are those of an array without repetition: each item of the array equals exactly
one of them. -/
structure IsDistinctPart (kept items : List Json) : Prop where
  sublist : kept.Sublist items
  unequal : kept.Pairwise fun v w => ¬ Equals v w
  exactly_one : ∀ v ∈ items, ∃! w, w ∈ kept ∧ Equals w v

theorem apply_distinct (now : String) (items : List Json) :
    Library.apply .distinct now [some (.array items)] =
      .ok (some (.array (distinctFrom [] items))) := rfl

/-- In a row of which none equals one before it, equal items are the same. -/
theorem eq_of_equals (hwell : ∀ v ∈ items, v.WellFormed)
    (hitems : items.Pairwise fun v w => ¬ Equals v w) (hv : v ∈ items) (hw : w ∈ items)
    (h : Equals v w) : v = w := by
  induction items with
  | nil => cases hv
  | cons x rest ih =>
    obtain ⟨hx, hrest⟩ := List.pairwise_cons.1 hitems
    rcases List.mem_cons.1 hv with rfl | hv'
    · rcases List.mem_cons.1 hw with rfl | hw'
      · rfl
      · exact absurd h (hx w hw')
    · rcases List.mem_cons.1 hw with rfl | hw'
      · exact absurd (h.symm (hwell v hv) (hwell w hw)) (hx v hv')
      · exact ih (fun u hu => hwell u (List.mem_cons_of_mem x hu)) hrest hv' hw'

theorem isDistinctPart_firsts (hitems : ∀ v ∈ items, v.WellFormed) :
    IsDistinctPart (firsts items) items := by
  rw [← distinctFrom_eq_firsts hitems]
  have hsublist := distinctFrom_sublist [] items
  have hkept : ∀ v ∈ distinctFrom [] items, v.WellFormed := fun v hv =>
    hitems v (hsublist.subset hv)
  refine ⟨hsublist, pairwise_distinctFrom [] items, fun v hv => ?_⟩
  obtain ⟨w, hw, hequal⟩ := exists_equals_of_mem [] hitems hv
  rw [List.nil_append] at hw
  refine ⟨w, ⟨hw, hequal⟩, fun u hu => ?_⟩
  have hwv := hequal.symm (hkept w hw) (hitems v hv)
  exact eq_of_equals hkept (pairwise_distinctFrom [] items) hu.1 hw
    (hu.2.trans (hkept u hu.1) (hitems v hv) (hkept w hw) hwv)

/-- **Equality is an equivalence, and `$distinct` keeps the first of each class.**  Documents are
equal exactly if they are alike, whatever the order of members, and numbers if they have the
same nearest double, whatever their form.  Of every array `$distinct` keeps the items that equal
none before them; each item equals exactly one of these, and to do it again changes nothing. -/
theorem equality_classes_have_first_items :
    Equivalence (fun v w : {v : Json // v.WellFormed} => Equals v w) ∧
      (∀ v w : Json, v.WellFormed → w.WellFormed →
        (Equals v w ↔ Alike Number.SameDouble v w)) ∧
      (∀ ms ns : Members, (Json.object ms).WellFormed → ms.Perm ns →
        Equals (.object ms) (.object ns)) ∧
      (∀ x y : Number, Equals (.number x) (.number y) ↔ x.double.value = y.double.value) ∧
      ∀ (now : String) (items : List Json), (Json.array items).WellFormed →
        Library.apply .distinct now [some (.array items)] =
          .ok (some (.array (firsts items))) ∧
        IsDistinctPart (firsts items) items ∧
        Library.apply .distinct now [some (.array (firsts items))] =
          .ok (some (.array (firsts items))) := by
  refine ⟨⟨fun v => .refl v.2, fun {v w} h => h.symm v.2 w.2,
    fun {u v w} h h' => h.trans u.2 v.2 w.2 h'⟩, fun v w => equals_iff_alike, ?_, ?_, ?_⟩
  · intro ms ns hms hperm
    obtain ⟨hnames, hvalues⟩ := Json.wellFormed_object.1 hms
    have hns : (Json.object ns).WellFormed :=
      Json.wellFormed_object.2 ⟨(hperm.map Prod.fst).nodup hnames, fun m hm =>
        hvalues m (hperm.symm.subset hm)⟩
    exact (equals_iff_alike hms hns).2
      (Json.alike_of_perm Number.sameDouble_equivalence.refl hnames hperm)
  · intro x y
    rw [equals_iff_same, same, Number.sameNumber_iff]
  · intro now items hitems
    have hitems := Json.wellFormed_array.1 hitems
    have hkept := isDistinctPart_firsts hitems
    refine ⟨?_, hkept, ?_⟩
    · rw [apply_distinct, distinctFrom_eq_firsts hitems]
    · rw [apply_distinct, distinctFrom_eq_self hkept.unequal (by simp)]

end Expression

end Reshape

/-
# Documents that are alike

Two documents are alike if they are the same but for the order in which members stand and for
their numbers, which are related by a given relation (`Json.Alike`).  If that is an equivalence,
so is being alike.  The comparison of documents decides whether they are alike in this sense,
where two numbers are related if they have the same nearest double (`same_iff_alike`): it looks
only for the members of the one document in the other, which is enough since names do not repeat.
-/
import Reshape.Expression.Value
import Reshape.Proofs.Documents

namespace Reshape

/-! ## Members by name -/

namespace Members

variable {k : String} {v : Json} {ms ns : Members}

theorem mem_of_get? (h : ms.get? k = some v) : (k, v) ∈ ms := by
  induction ms with
  | nil => cases h
  | cons m rest ih =>
    obtain ⟨n, w⟩ := m
    rw [get?] at h
    split at h
    · rename_i hn
      cases h
      rw [eq_of_beq hn]
      exact List.mem_cons_self
    · exact List.mem_cons_of_mem _ (ih h)

theorem mem_names_of_mem (h : (k, v) ∈ ms) : k ∈ ms.names :=
  List.mem_map_of_mem (f := Prod.fst) h

/-- A name is found exactly if a member has it. -/
theorem exists_get?_iff : (∃ v, ms.get? k = some v) ↔ k ∈ ms.names := by
  constructor
  · rintro ⟨v, hv⟩
    exact mem_names_of_mem (mem_of_get? hv)
  · intro h
    induction ms with
    | nil => cases h
    | cons m rest ih =>
      obtain ⟨n, w⟩ := m
      rw [get?]
      split
      · exact ⟨w, rfl⟩
      · rename_i hn
        rcases List.mem_cons.1 h with rfl | h
        · exact absurd (beq_self_eq_true _) hn
        · exact ih h

/-- If names do not repeat, every member is the one found under its name. -/
theorem get?_of_mem (hnodup : ms.names.Nodup) (h : (k, v) ∈ ms) : ms.get? k = some v := by
  induction ms with
  | nil => cases h
  | cons m rest ih =>
    obtain ⟨n, w⟩ := m
    obtain ⟨hn, hrest⟩ := List.nodup_cons.1 hnodup
    rw [get?]
    rcases List.mem_cons.1 h with heq | h
    · cases heq
      rw [if_pos (beq_self_eq_true _)]
    · have hne : (n == k) ≠ true := by
        intro hnk
        rw [eq_of_beq hnk] at hn
        exact hn (mem_names_of_mem h)
      rw [if_neg hne]
      exact ih hrest h

/-- As many members with names among those of the others have all of these names. -/
theorem names_iff_of_subset (hms : ms.names.Nodup) (hlength : ms.length = ns.length)
    (h : ∀ k ∈ ms.names, k ∈ ns.names) (k : String) : k ∈ ms.names ↔ k ∈ ns.names := by
  have hle : ns.names.length ≤ ms.names.length := by
    rw [names, names, List.length_map, List.length_map, hlength]
  exact ((hms.subperm h).perm_of_length_le hle).mem_iff

/-- Members with the same names are as many. -/
theorem length_eq_of_names_iff (hms : ms.names.Nodup) (hns : ns.names.Nodup)
    (h : ∀ k, k ∈ ms.names ↔ k ∈ ns.names) : ms.length = ns.length := by
  have hperm : ms.names.Perm ns.names := (List.perm_ext_iff_of_nodup hms hns).2 h
  have hlength := hperm.length_eq
  rwa [names, names, List.length_map, List.length_map] at hlength

end Members

/-! ## Alike documents -/

namespace Json

/-- The documents are the same but for the order of members, and for numbers, which are
related. -/
inductive Alike (R : Number → Number → Prop) : Json → Json → Prop
  | null : Alike R .null .null
  | bool (b : Bool) : Alike R (.bool b) (.bool b)
  | number {x y : Number} (h : R x y) : Alike R (.number x) (.number y)
  | string (s : String) : Alike R (.string s) (.string s)
  | array {xs ys : List Json} (hlength : xs.length = ys.length)
      (h : ∀ (i : Nat) (v w : Json), xs[i]? = some v → ys[i]? = some w → Alike R v w) :
      Alike R (.array xs) (.array ys)
  | object {ms ns : Members} (hnames : ∀ k, k ∈ ms.names ↔ k ∈ ns.names)
      (h : ∀ (k : String) (v w : Json), ms.get? k = some v → ns.get? k = some w → Alike R v w) :
      Alike R (.object ms) (.object ns)

namespace Alike

variable {R S : Number → Number → Prop} {u v w : Json}

theorem imp (h : Alike R v w) (hRS : ∀ x y, R x y → S x y) : Alike S v w := by
  induction h with
  | null => exact .null
  | bool b => exact .bool b
  | number h => exact .number (hRS _ _ h)
  | string s => exact .string s
  | array hlength _ ih => exact .array hlength ih
  | object hnames _ ih => exact .object hnames ih

theorem refl (hR : ∀ x, R x x) (v : Json) : Alike R v v := by
  induction v using Json.induction with
  | null => exact .null
  | bool b => exact .bool b
  | number x => exact .number (hR x)
  | string s => exact .string s
  | array xs ih =>
    refine .array rfl fun i v w hv hw => ?_
    rw [hv] at hw
    cases hw
    exact ih v (List.mem_of_getElem? hv)
  | object ms ih =>
    refine .object (fun _ => Iff.rfl) fun k v w hv hw => ?_
    rw [hv] at hw
    cases hw
    exact ih (k, v) (Members.mem_of_get? hv)

theorem symm (hR : ∀ x y, R x y → R y x) (h : Alike R v w) : Alike R w v := by
  induction h with
  | null => exact .null
  | bool b => exact .bool b
  | number h => exact .number (hR _ _ h)
  | string s => exact .string s
  | array hlength _ ih =>
    exact .array hlength.symm fun i w v hw hv => ih i v w hv hw
  | object hnames _ ih =>
    exact .object (fun k => (hnames k).symm) fun k w v hw hv => ih k v w hv hw

theorem trans (hR : ∀ x y z, R x y → R y z → R x z) (h : Alike R u v) (h' : Alike R v w) :
    Alike R u w := by
  induction h generalizing w with
  | null => exact h'
  | bool b => exact h'
  | number h =>
    cases h' with
    | number h' => exact .number (hR _ _ _ h h')
  | string s => exact h'
  | @array xs ys hlength _ ih =>
    cases h' with
    | array hlength' h' =>
      -- what stands between the two is at the same place
      refine .array (hlength.trans hlength') fun i x z hx hz => ?_
      have hi : i < ys.length := hlength ▸ (List.getElem?_eq_some_iff.1 hx).1
      exact ih i x ys[i] hx (List.getElem?_eq_getElem hi)
        (h' i ys[i] z (List.getElem?_eq_getElem hi) hz)
  | object hnames _ ih =>
    cases h' with
    | object hnames' h' =>
      -- and here it has the same name
      refine .object (fun k => (hnames k).trans (hnames' k)) fun k x z hx hz => ?_
      obtain ⟨y, hy⟩ := Members.exists_get?_iff.2 ((hnames k).1 (Members.exists_get?_iff.1 ⟨x, hx⟩))
      exact ih k x y hx hy (h' k y z hy hz)

end Alike

section Forms

variable {R : Number → Number → Prop}

theorem alike_bool_iff {a b : Bool} : Alike R (.bool a) (.bool b) ↔ a = b := by
  constructor
  · rintro ⟨⟩
    rfl
  · rintro rfl
    exact .bool a

theorem alike_number_iff {x y : Number} : Alike R (.number x) (.number y) ↔ R x y := by
  constructor
  · intro h
    cases h with
    | number h => exact h
  · exact .number

theorem alike_string_iff {s t : String} : Alike R (.string s) (.string t) ↔ s = t := by
  constructor
  · rintro ⟨⟩
    rfl
  · rintro rfl
    exact .string s

theorem alike_array_iff {xs ys : List Json} :
    Alike R (.array xs) (.array ys) ↔ xs.length = ys.length ∧
      ∀ (i : Nat) (v w : Json), xs[i]? = some v → ys[i]? = some w → Alike R v w := by
  constructor
  · intro h
    cases h with
    | array hlength h => exact ⟨hlength, h⟩
  · rintro ⟨hlength, h⟩
    exact .array hlength h

theorem alike_object_iff {ms ns : Members} :
    Alike R (.object ms) (.object ns) ↔ (∀ k, k ∈ ms.names ↔ k ∈ ns.names) ∧
      ∀ (k : String) (v w : Json), ms.get? k = some v → ns.get? k = some w → Alike R v w := by
  constructor
  · intro h
    cases h with
    | object hnames h => exact ⟨hnames, h⟩
  · rintro ⟨hnames, h⟩
    exact .object hnames h

end Forms

/-- Being alike is an equivalence if the relation of numbers is one. -/
theorem equivalence_alike {R : Number → Number → Prop} (hR : Equivalence R) :
    Equivalence (Alike R) where
  refl := Alike.refl hR.refl
  symm := Alike.symm fun _ _ => hR.symm
  trans := Alike.trans fun _ _ _ => hR.trans

/-- Members in another order make a document that is alike. -/
theorem alike_of_perm {R : Number → Number → Prop} (hR : ∀ x, R x x) {ms ns : Members}
    (hms : ms.names.Nodup) (h : ms.Perm ns) : Alike R (.object ms) (.object ns) := by
  have hnames : ms.names.Perm ns.names := h.map Prod.fst
  refine .object (fun k => hnames.mem_iff) fun k v w hv hw => ?_
  have hmem : (k, v) ∈ ns := h.subset (Members.mem_of_get? hv)
  rw [Members.get?_of_mem (hnames.nodup hms) hmem] at hw
  cases hw
  exact Alike.refl hR v

end Json

/-! ## The comparison of documents -/

namespace Expression

open Json (Alike)

theorem sameItems_iff {xs ys : List Json} :
    sameItems xs ys = true ↔ xs.length = ys.length ∧
      ∀ (i : Nat) (v w : Json), xs[i]? = some v → ys[i]? = some w → same v w = true := by
  induction xs generalizing ys with
  | nil =>
    cases ys with
    | nil => simp [sameItems]
    | cons y ys => simp [sameItems]
  | cons x xs ih =>
    cases ys with
    | nil => simp [sameItems]
    | cons y ys =>
      rw [sameItems, Bool.and_eq_true, ih, List.length_cons, List.length_cons,
        Nat.add_right_cancel_iff]
      constructor
      · rintro ⟨hfirst, hlength, hrest⟩
        refine ⟨hlength, fun i v w hv hw => ?_⟩
        cases i with
        | zero =>
          cases hv
          cases hw
          exact hfirst
        | succ i => exact hrest i v w hv hw
      · rintro ⟨hlength, h⟩
        exact ⟨h 0 x y rfl rfl, hlength, fun i => h (i + 1)⟩

theorem sameMembers_iff {ms ns : Members} :
    sameMembers ms ns = true ↔
      ∀ m ∈ ms, ∃ w, ns.get? m.1 = some w ∧ same m.2 w = true := by
  induction ms with
  | nil => simp [sameMembers]
  | cons m rest ih =>
    obtain ⟨k, v⟩ := m
    rw [sameMembers, Bool.and_eq_true, ih, List.forall_mem_cons]
    refine and_congr_left' ?_
    cases hget : Members.get? k ns with
    | none => simp
    | some w => simp

/-- **Looking for the members of the one object in the other is enough**, since no name is there
twice. -/
theorem same_object_iff {ms ns : Members} (hms : (Members.names ms).Nodup)
    (hns : (Members.names ns).Nodup) :
    same (.object ms) (.object ns) = true ↔
      (∀ k, k ∈ Members.names ms ↔ k ∈ Members.names ns) ∧
      ∀ (k : String) (v w : Json), Members.get? k ms = some v → Members.get? k ns = some w →
        same v w = true := by
  rw [same, Bool.and_eq_true, beq_iff_eq, sameMembers_iff]
  constructor
  · rintro ⟨hlength, h⟩
    have hsubset : ∀ k ∈ Members.names ms, k ∈ Members.names ns := by
      intro k hk
      obtain ⟨v, hv⟩ := Members.exists_get?_iff.2 hk
      obtain ⟨w, hw, -⟩ := h (k, v) (Members.mem_of_get? hv)
      exact Members.exists_get?_iff.1 ⟨w, hw⟩
    refine ⟨Members.names_iff_of_subset hms hlength hsubset, fun k v w hv hw => ?_⟩
    obtain ⟨w', hw', hsame⟩ := h (k, v) (Members.mem_of_get? hv)
    rw [hw] at hw'
    cases hw'
    exact hsame
  · rintro ⟨hnames, h⟩
    refine ⟨Members.length_eq_of_names_iff hms hns hnames, fun m hm => ?_⟩
    obtain ⟨k, v⟩ := m
    obtain ⟨w, hw⟩ := Members.exists_get?_iff.2 ((hnames k).1 (Members.mem_names_of_mem hm))
    exact ⟨w, hw, h k v w (Members.get?_of_mem hms hm) hw⟩

/-- **The comparison decides whether documents are alike**, where numbers are the same if the
comparison takes them for the same. -/
theorem same_iff_alike {v w : Json} (hv : v.WellFormed) (hw : w.WellFormed) :
    same v w = true ↔ Alike (fun x y => sameNumber x y = true) v w := by
  induction v using Json.induction generalizing w with
  | null =>
    cases w with
    | null => exact iff_of_true rfl .null
    | _ => exact ⟨nofun, nofun⟩
  | bool b =>
    cases w with
    | bool b' => rw [Json.alike_bool_iff, same, beq_iff_eq]
    | _ => exact ⟨nofun, nofun⟩
  | number x =>
    cases w with
    | number y => rw [Json.alike_number_iff, same]
    | _ => exact ⟨nofun, nofun⟩
  | string s =>
    cases w with
    | string t => rw [Json.alike_string_iff, same, beq_iff_eq]
    | _ => exact ⟨nofun, nofun⟩
  | array xs ih =>
    cases w with
    | array ys =>
      have hitem : ∀ (i : Nat) (v w : Json), xs[i]? = some v → ys[i]? = some w →
          (same v w = true ↔ Alike (fun x y => sameNumber x y = true) v w) := by
        intro i v w hi hi'
        have hmem : v ∈ xs := List.mem_of_getElem? hi
        exact ih v hmem (Json.wellFormed_array.1 hv v hmem)
          (Json.wellFormed_array.1 hw w (List.mem_of_getElem? hi'))
      rw [Json.alike_array_iff, same, sameItems_iff]
      refine and_congr_right fun _ => forall₃_congr fun i v w => ?_
      exact forall₂_congr fun hi hi' => hitem i v w hi hi'
    | _ => exact ⟨nofun, nofun⟩
  | object ms ih =>
    cases w with
    | object ns =>
      obtain ⟨hms, hvalues⟩ := Json.wellFormed_object.1 hv
      have hmember : ∀ (k : String) (v w : Json), Members.get? k ms = some v →
          Members.get? k ns = some w →
          (same v w = true ↔ Alike (fun x y => sameNumber x y = true) v w) := by
        intro k v w hk hk'
        have hmem : (k, v) ∈ ms := Members.mem_of_get? hk
        exact ih (k, v) hmem (hvalues (k, v) hmem) (hw.of_get? hk')
      rw [Json.alike_object_iff, same_object_iff hms (Json.wellFormed_object.1 hw).1]
      refine and_congr_right fun _ => forall₃_congr fun k v w => ?_
      exact forall₂_congr fun hk hk' => hmember k v w hk hk'
    | _ => exact ⟨nofun, nofun⟩

end Expression

end Reshape

/-
# What is published is read back

The result of one transform can be the input of another.  Whatever the expression, its result
on a document that was read is well formed, so the bytes published for it hold that document
again if its numbers are read back from their texts, and the identity `$` publishes the same
bytes.

Depth is the other limit.  Documents nested deeper than the reader goes are not read, while
nothing keeps an expression from building them: `[$]` adds a level to the deepest document
that is read.  What it publishes is refused by every transform, for its depth alone.
-/
import Reshape.Proofs.Members
import Reshape.Proofs.Publishing
import Reshape.Proofs.RoundTrips

namespace Reshape.Processing

open Expression (Program Tree)
open Json.Reader (maxLevels)
open Text (Bytes Utf8.encode)

/-! ## What results hold -/

theorem wellFormed_of_holds {value : Bytes} {v : Json} (h : Holds value v) : v.WellFormed := by
  cases h with
  | nothing => trivial
  | text hs hv => exact Json.wellFormed_of_read hv

/-- A document that was read is well formed, and so is what a compiled text makes of it. -/
theorem wellFormed_of_apply {source : String} {p : Program} (hp : Program.compile source = .ok p)
    {now : String} {value : Bytes} {v : Json} (h : apply p now value = .ok v) :
    v.WellFormed := by
  obtain ⟨input, hinput, hrun⟩ := apply_eq_ok_iff.1 h
  cases ht : Expression.compileTree source with
  | error f =>
    rw [Program.compile, ht] at hp
    cases hp
  | ok t =>
    rw [Program.compile, ht] at hp
    cases hp
    have hresult : Expression.result now t input = .ok v := by
      cases hw : Expression.result now t input with
      | error e =>
        simp only [Program.ofTree, hw] at hrun
        cases hrun
      | ok w =>
        simp only [Program.ofTree, hw] at hrun
        cases hrun
        rfl
    exact Expression.wellFormed_result ht (wellFormed_of_holds hinput) hresult

theorem text_ne_empty (v : Json) : v.text ≠ "" := by
  obtain ⟨c, s, hs, -⟩ := Json.exists_cons_write v
  intro hempty
  have hlist := congrArg String.toList hempty
  rw [Json.text, String.toList_ofList, hs] at hlist
  cases hlist

/-- The text of a document that is not nested too deep holds it, if its numbers are read
back. -/
theorem holds_text {v : Json} (hv : v.WellFormed) (hn : v.AllNumbers Number.IsReadBack)
    (h : v.depth ≤ maxLevels) : Holds (Utf8.encode v.text) v := by
  refine .text (text_ne_empty v) ?_
  rw [Json.text, String.toList_ofList]
  exact Json.read_write hv hn h

/-- The text of a document that is nested too deep is refused for that. -/
theorem decode_text_deep {v : Json} (hv : v.WellFormed) (hn : v.AllNumbers Number.IsReadBack)
    (h : maxLevels < v.depth) :
    ∃ place, decode (Utf8.encode v.text) = .error (.notJson .nestedTooDeep place) := by
  obtain ⟨f, hf, hcause⟩ := Json.read_write_deep hv hn h
  refine ⟨f.place v.text.toList, ?_⟩
  rw [decode_encode (text_ne_empty v), Json.text, String.toList_ofList, hf, ← hcause]
  rfl

/-! ## Chains of transforms -/

theorem apply_context (now : String) {value : Bytes} {v : Json} (h : Holds value v) :
    apply (.ofTree .context) now value = .ok v := by
  rw [apply_of_holds h]
  rfl

/-- **What a transform publishes, another one reads back**, if its numbers are read back from
their texts.  If the document is not nested deeper than the reader goes, every program is run on
exactly the document published, and the identity `$` publishes it unchanged.  If it is, no program
is run. -/
theorem published_document_is_read_back {source : String} {p : Program}
    (hp : Program.compile source = .ok p) {now : String} {value : Bytes} {v : Json}
    (h : apply p now value = .ok v) (hn : v.AllNumbers Number.IsReadBack) :
    (v.depth ≤ maxLevels →
      (∀ (q : Program) (now' : String), apply q now' (Utf8.encode v.text) =
        (q.run now' v).mapError .ofProgram)
      ∧ ∃ q, Program.compile "$" = .ok q ∧ ∀ now', apply q now' (Utf8.encode v.text) = .ok v)
    ∧ (maxLevels < v.depth → ∀ (q : Program) (now' : String),
      ∃ place, apply q now' (Utf8.encode v.text) = .error (.notJson .nestedTooDeep place)) := by
  have hv := wellFormed_of_apply hp h
  refine ⟨fun hdepth => ?_, fun hdepth q now' => ?_⟩
  · have hholds := holds_text hv hn hdepth
    refine ⟨fun q now' => apply_of_holds hholds, ⟨.ofTree .context, rfl, fun now' => ?_⟩⟩
    exact apply_context now' hholds
  · obtain ⟨place, hplace⟩ := decode_text_deep hv hn hdepth
    refine ⟨place, ?_⟩
    rw [apply, hplace]
    rfl

/-! ## Beyond the deepest document -/

/-- A document inside so many arrays. -/
def nested (v : Json) : Nat → Json
  | 0 => v
  | n + 1 => .array [nested v n]

theorem wellFormed_nested {v : Json} (hv : v.WellFormed) (n : Nat) : (nested v n).WellFormed := by
  induction n with
  | zero => exact hv
  | succ n ih => exact Json.wellFormed_array.2 (List.forall_mem_singleton.2 ih)

theorem allNumbers_nested {P : Number → Prop} {v : Json} (hv : v.AllNumbers P) (n : Nat) :
    (nested v n).AllNumbers P := by
  induction n with
  | zero => exact hv
  | succ n ih => exact .array (List.forall_mem_singleton.2 ih)

theorem depth_nested {v : Json} (hv : v.IsScalar) (n : Nat) : (nested v n).depth = n := by
  induction n with
  | zero => exact hv.depth_eq
  | succ n ih => rw [nested, Json.depth, Json.depthItems, Json.depthItems, ih, Nat.max_zero]

/-- The expression that puts its input into an array. -/
theorem apply_wrapping (now : String) {value : Bytes} {v : Json} (h : Holds value v) :
    apply (.ofTree (.array [.context])) now value = .ok (.array [v]) := by
  rw [apply_of_holds h]
  rfl

/-- The number 0.5. -/
def half : Number := .real ⟨false, Nat.pow 2 1073, by decide +kernel⟩

theorem isReadBack_half : half.IsReadBack := by
  have hshort : Decimal.shortest (Nat.pow 2 1073) = ⟨5, -1⟩ := by decide +kernel
  refine Number.isReadBack_real ?_
  rw [hshort]
  exact ⟨by decide, fun h => absurd h (by decide), by decide⟩

/-- The result of `[$]` on 0.5 is read back. -/
theorem wrapped_half_is_read_back : ∃ p, Program.compile "[$]" = .ok p
    ∧ apply p "" (Utf8.encode (Json.number half).text) = .ok (.array [.number half])
    ∧ (Json.array [.number half]).AllNumbers Number.IsReadBack
    ∧ (Json.array [.number half]).depth ≤ maxLevels
    ∧ ∃ q, Program.compile "$" = .ok q
      ∧ ∀ now, apply q now (Utf8.encode (Json.array [.number half]).text) =
        .ok (.array [.number half]) := by
  have hnumber : (Json.number half).AllNumbers Number.IsReadBack := .number isReadBack_half
  have hnumbers : (Json.array [.number half]).AllNumbers Number.IsReadBack :=
    .array (List.forall_mem_singleton.2 hnumber)
  have hcompile : Program.compile "[$]" = .ok (.ofTree (.array [.context])) := rfl
  have happly := apply_wrapping "" (holds_text (v := .number half) trivial hnumber (by decide))
  have hdepth : (Json.array [.number half]).depth ≤ maxLevels :=
    (depth_nested (v := .number half) trivial 1).le.trans (by decide)
  have hback := published_document_is_read_back hcompile happly hnumbers
  exact ⟨_, hcompile, happly, hnumbers, hdepth, (hback.1 hdepth).2⟩

/-- `[$]` turns the deepest document that is read into one that is not: its result is
published, and `$` does not take it back, although it has no number. -/
theorem wrapped_deepest_document_is_refused : ∃ p q value v, Program.compile "[$]" = .ok p
    ∧ Program.compile "$" = .ok q ∧ apply p "" value = .ok v ∧ v.AllNumbers (fun _ => False)
    ∧ ∀ now, ∃ place, apply q now (Utf8.encode v.text) =
      .error (.notJson .nestedTooDeep place) := by
  have hnone : ∀ {P : Number → Prop} (n : Nat), (nested .null n).AllNumbers P :=
    allNumbers_nested .null
  have hwell : ∀ n, (nested .null n).WellFormed := wellFormed_nested trivial
  have hdepth : ∀ n, (nested .null n).depth = n := depth_nested trivial
  have hholds := holds_text (hwell maxLevels) (hnone maxLevels) (hdepth maxLevels).le
  have hdeep : maxLevels < (nested .null (maxLevels + 1)).depth := by
    rw [hdepth]
    exact Nat.lt_succ_self _
  refine ⟨.ofTree (.array [.context]), .ofTree .context, _, nested .null (maxLevels + 1), rfl, rfl,
    apply_wrapping "" hholds, hnone _, fun now => ?_⟩
  obtain ⟨place, hplace⟩ := decode_text_deep (hwell (maxLevels + 1)) (hnone _) hdeep
  refine ⟨place, ?_⟩
  rw [apply, hplace]
  rfl

end Reshape.Processing

/-
# Documents are expressions

The compact text of a document compiles to a tree of constructors and literals (`Tree.ofJson`),
and that tree is evaluated to the document, whatever the input is.

An array is parsed with one level less for its items, and a number behind a minus sign takes a
level of its own, so a document needs two levels more than it is deep.
-/
import Reshape.Expression.Program
import Reshape.Proofs.Lexing
import Reshape.Proofs.Rounding
import Reshape.Proofs.Taking

namespace Reshape.Expression

open Json (write)

/-! ## Trees of documents -/

namespace Tree

/-- The tree of a number without sign. -/
def whole (n : Nat) : Tree := .literal (Parser.numberLiteral (Decimal.toBinary64 false ⟨n, 0⟩))

/-- The tree of an integer: a minus sign is an operator. -/
def integer (n : Int) : Tree := if n < 0 then .negate (whole n.natAbs) else whole n.natAbs

mutual

/-- The tree that the text of a document is parsed into. -/
def ofJson : Json → Tree
  | .null => .literal .null
  | .bool b => .literal (.bool b)
  | .number n => integer (n.whole?.getD 0)
  | .string s => .literal (.string s)
  | .array items => .array (ofItems items)
  | .object members => .object (ofMembers members)

/-- The trees of the items of an array. -/
def ofItems : List Json → List Tree
  | [] => []
  | v :: rest => ofJson v :: ofItems rest

/-- The trees of the names and the values of members. -/
def ofMembers : List (String × Json) → List (Tree × Tree)
  | [] => []
  | (k, v) :: rest => (.literal (.string k), ofJson v) :: ofMembers rest

end

theorem ofItems_eq (items : List Json) : ofItems items = items.map ofJson := by
  induction items with
  | nil => rfl
  | cons v rest ih => rw [ofItems, ih, List.map_cons]

theorem ofMembers_eq (members : Members) :
    ofMembers members = members.map fun m => (.literal (.string m.1), ofJson m.2) := by
  induction members with
  | nil => rfl
  | cons m rest ih => rw [ofMembers, ih, List.map_cons]

end Tree

/-! ## Parsing a document -/

namespace Token

theorem rowItems_eq (items : List Json) :
    rowItems items =
      items.flatMap (fun v => .symbol .comma :: row v) ++ [.symbol .closeBracket] := by
  induction items with
  | nil => rfl
  | cons v rest ih => rw [rowItems, ih, List.flatMap_cons, List.append_assoc, List.cons_append]

/-- The tokens of a member. -/
def rowMember (m : String × Json) : List Token := .string m.1 :: .symbol .colon :: row m.2

theorem rowMembers_eq (members : Members) :
    rowMembers members =
      members.flatMap (fun m => .symbol .comma :: rowMember m) ++ [.symbol .closeBrace] := by
  induction members with
  | nil => rfl
  | cons m rest ih =>
    rw [rowMembers, ih, List.flatMap_cons, List.append_assoc, rowMember]
    rfl

/-- No document starts with a closing bracket. -/
theorem exists_cons_row (v : Json) :
    ∃ t ts, row v = t :: ts ∧ t ≠ .symbol .closeBracket := by
  cases v with
  | null => exact ⟨_, _, rfl, by simp⟩
  | bool b => exact ⟨_, _, rfl, by simp⟩
  | number n =>
    rw [row, integer]
    split
    · exact ⟨_, _, rfl, by simp⟩
    · exact ⟨_, _, rfl, by simp [whole]⟩
  | string s => exact ⟨_, _, rfl, by simp⟩
  | array items => cases items <;> exact ⟨_, _, rfl, by simp⟩
  | object members => cases members <;> exact ⟨_, _, rfl, by simp⟩

end Token

namespace Parser

variable {t : Token} {ts : List Token} {levels power : Nat}

/-- A document is parsed with so many levels, whatever follows that is no operator. -/
def Parses (levels : Nat) (v : Json) : Prop :=
  ∀ power t ts, Token.power t = 0 →
    Takes (below levels levels power) (Token.row v ++ t :: ts) (.ofJson v) (t :: ts)

theorem parses_null : Parses (levels + 1) .null :=
  fun _ _ _ ht => takes_below (takes_take (List.cons_ne_nil _ _) fun _ => takes_pure) (by omega)

theorem parses_bool (b : Bool) : Parses (levels + 1) (.bool b) := by
  intro power t ts ht
  cases b <;>
  exact takes_below (takes_take (List.cons_ne_nil _ _) fun _ => takes_pure) (by omega)

theorem takes_string (s : String) (ht : t.power = 0) :
    Takes (below (levels + 1) (levels + 1) power) (.string s :: t :: ts)
      (.literal (.string s)) (t :: ts) :=
  takes_below (takes_take (List.cons_ne_nil _ _) fun _ => takes_pure) (by omega)

theorem takes_whole (n : Nat) (ht : t.power = 0) :
    Takes (below (levels + 1) (levels + 1) power) (Token.whole n :: t :: ts) (Tree.whole n)
      (t :: ts) :=
  takes_below (takes_take (List.cons_ne_nil _ _) fun _ => takes_pure) (by omega)

theorem parses_number (n : Number) : Parses (levels + 2) (.number n) := by
  intro power t ts ht
  rw [Token.row, Token.integer, Tree.ofJson, Tree.integer]
  split
  · refine takes_below (takes_take (List.cons_ne_nil _ _) fun _ => ?_) (by omega)
    exact (takes_whole _ ht).bind takes_pure
  · exact takes_whole _ ht

theorem parses_array {items : List Json} (hitems : ∀ v ∈ items, Parses levels v) :
    Parses (levels + 1) (.array items) := by
  intro power t ts ht
  refine takes_below ?_ (by omega)
  cases items with
  | nil =>
    refine takes_take (List.cons_ne_nil _ _) fun _ => ?_
    exact (takes_items_nil (List.cons_ne_nil _ _)).bind takes_pure
  | cons v items =>
    rw [Token.row, Token.rowItems_eq, List.cons_append, List.append_assoc, List.append_assoc]
    refine takes_take (by simp) fun _ => ?_
    have hitem : ∀ w ∈ v :: items, ∀ o ts, o = .comma ∨ o = .closeBracket →
        Takes (below levels levels 0) (Token.row w ++ .symbol o :: ts) (.ofJson w)
          (.symbol o :: ts) := by
      intro w hw o ts ho
      exact hitems w hw 0 _ ts (by rcases ho with rfl | rfl <;> rfl)
    refine (takes_items Token.row Tree.ofJson (by decide) hitem (Token.exists_cons_row v)
      (List.cons_ne_nil t ts)).bind ?_
    rw [Tree.ofJson, Tree.ofItems_eq]
    exact takes_pure

theorem parses_object {members : Members} (hmembers : ∀ m ∈ members, Parses (levels + 1) m.2) :
    Parses (levels + 2) (.object members) := by
  intro power t ts ht
  refine takes_below ?_ (by omega)
  cases members with
  | nil =>
    refine takes_take (List.cons_ne_nil _ _) fun _ => ?_
    exact (takes_items_nil (List.cons_ne_nil _ _)).bind takes_pure
  | cons m members =>
    obtain ⟨k, v⟩ := m
    have hentry : ∀ m ∈ (k, v) :: members, ∀ o ts, o = .comma ∨ o = .closeBrace →
        Takes (entry (below (levels + 1) (levels + 1))) (Token.rowMember m ++ .symbol o :: ts)
          (.literal (.string m.1), .ofJson m.2) (.symbol o :: ts) := by
      intro m hm o ts ho
      have hpower : Token.power (.symbol o) = 0 := by rcases ho with rfl | rfl <;> rfl
      refine (takes_string m.1 rfl).bind ((takes_expect ?_).bind ?_)
      · simp
      · exact (hmembers m hm 0 _ ts hpower).bind takes_pure
    rw [Token.row, Token.rowMembers_eq]
    show Takes _ (.symbol .openBrace :: (Token.rowMember (k, v) ++ _) ++ t :: ts) _ _
    rw [List.cons_append, List.append_assoc, List.append_assoc]
    refine takes_take (by simp [Token.rowMember]) fun _ => ?_
    refine (takes_items Token.rowMember _ (by decide) hentry ⟨_, _, rfl, by simp⟩
      (List.cons_ne_nil t ts)).bind ?_
    rw [Tree.ofJson, Tree.ofMembers_eq]
    exact takes_pure

/-- **A document is parsed with two levels more than it is deep.** -/
theorem parses_of_depth (v : Json) {levels : Nat} (h : v.depth + 2 ≤ levels) :
    Parses levels v := by
  induction v using Json.induction generalizing levels with
  | null =>
    obtain ⟨k, rfl⟩ : ∃ k, levels = k + 1 := ⟨levels - 1, by omega⟩
    exact parses_null
  | bool b =>
    obtain ⟨k, rfl⟩ : ∃ k, levels = k + 1 := ⟨levels - 1, by omega⟩
    exact parses_bool b
  | number n =>
    obtain ⟨k, rfl⟩ : ∃ k, levels = k + 2 := ⟨levels - 2, by omega⟩
    exact parses_number n
  | string s =>
    obtain ⟨k, rfl⟩ : ∃ k, levels = k + 1 := ⟨levels - 1, by omega⟩
    exact fun power t ts ht => takes_string s ht
  | array items ih =>
    obtain ⟨k, rfl⟩ : ∃ k, levels = k + 1 := ⟨levels - 1, by omega⟩
    rw [Json.depth] at h
    refine parses_array fun v hv => ih v hv ?_
    have hdepth := Json.depthItems_le_iff.1 le_rfl v hv
    omega
  | object members ih =>
    rw [Json.depth] at h
    obtain ⟨k, rfl⟩ : ∃ k, levels = k + 2 := ⟨levels - 2, by omega⟩
    refine parses_object fun m hm => ih m hm ?_
    have hdepth := Json.depthMembers_le_iff.1 le_rfl m hm
    omega

end Parser

/-! ## Arities -/

namespace Tree

/-- There is no call in the tree of a document. -/
theorem arityFault?_ofJson (v : Json) : (ofJson v).arityFault? = none := by
  induction v using Json.induction with
  | null | bool b | string s => rfl
  | number n =>
    rw [ofJson, integer]
    split <;> rfl
  | array items ih =>
    rw [ofJson, arityFault?, ofItems_eq]
    induction items with
    | nil => rfl
    | cons v items ihs =>
      rw [List.map_cons, arityFaultList?, ih v List.mem_cons_self, Option.none_or]
      exact ihs fun w hw => ih w (List.mem_cons_of_mem v hw)
  | object members ih =>
    rw [ofJson, arityFault?, ofMembers_eq]
    induction members with
    | nil => rfl
    | cons m members ihs =>
      rw [List.map_cons, arityFaultEntries?, ih m List.mem_cons_self, Option.none_or, arityFault?,
        Option.none_or]
      exact ihs fun w hw => ih w (List.mem_cons_of_mem m hw)

end Tree

/-- **The text of a document compiles to the tree of the document.** -/
theorem compileTree_text {v : Json} (hv : v.Exact) (hd : v.depth + 2 ≤ maxNesting) :
    compileTree v.text = .ok (.ofJson v) := by
  obtain ⟨ls, hls, htokens⟩ := tokens_text hv
  exact compileTree_of_takes hls htokens (Parser.parses_of_depth v hd 0 .done [] rfl)
    (Tree.arityFault?_ofJson v)

/-! ## Evaluating a document -/

open Magnitude (one)

/-- A whole number below 2⁵³ is the result of its double. -/
theorem ofResult?_whole {k : Nat} (hk : k < Number.exactLimit) (negative : Bool) :
    Number.ofResult? (.finite ⟨negative, k * one, Binary64.representable_whole hk⟩) =
      some (.whole (if negative then -(k : Int) else k) (Number.fits64_of_lt hk negative)) := by
  have hpart : k * one / one = k := Nat.mul_div_cancel k Magnitude.one_pos
  have hcond : (⟨negative, k * one, Binary64.representable_whole hk⟩ : Finite).wholePart <
      Number.exactLimit ∧
      (⟨negative, k * one, Binary64.representable_whole hk⟩ : Finite).isWhole = true := by
    refine ⟨?_, ?_⟩
    · rw [Finite.wholePart, hpart]
      exact hk
    · rw [Finite.isWhole, Nat.mul_mod_left]
      rfl
  rw [Number.ofResult?, dif_pos hcond]
  congr 2
  rw [Finite.wholePart, hpart]

/-- The literal of a row of digits is their number. -/
theorem whole_eq {k : Nat} (hk : k < Number.exactLimit) (h : Fits64 k) :
    Tree.whole k = .literal (.number (.whole k h)) := by
  rw [Tree.whole, Decimal.toBinary64_whole hk, Parser.numberLiteral, ofResult?_whole hk]
  rfl

theorem negated_whole {k : Nat} (hk : k < Number.exactLimit) (h : Fits64 k)
    (h' : Fits64 (-k)) :
    negated (some (.number (.whole k h))) = .ok (some (.number (.whole (-k) h'))) := by
  have hfinite : Binary64.ofInt k = .finite ⟨false, k * one, Binary64.representable_whole hk⟩ := by
    rw [Binary64.ofInt_eq_finite (n := (k : Int)) hk]
    congr 2
  have hneg : (Number.whole k h).toBinary64.neg =
      .finite ⟨true, k * one, Binary64.representable_whole hk⟩ := by
    rw [Number.toBinary64, hfinite]
    rfl
  rw [negated, hneg, numberResult, ofResult?_whole hk]
  rfl

variable {setting : Setting} {depth : Nat} {context : Value} {scope : Scope} {frames : Frames}

/-- The tree is evaluated to the document, and no frame is changed. -/
def Gives (setting : Setting) (depth : Nat) (t : Tree) (v : Json) : Prop :=
  ∀ context scope frames, (eval setting depth t context scope).run frames = .ok (some v, frames)

theorem gives_literal (v : Json) : Gives setting (depth + 1) (.literal v) v :=
  fun _ _ _ => rfl

theorem gives_negate {t : Tree} {v w : Json} (ht : Gives setting depth t v)
    (hw : negated (some v) = .ok (some w)) : Gives setting (depth + 1) (.negate t) w := by
  intro context scope frames
  have hnode : eval setting (depth + 1) (.negate t) context scope =
      eval setting depth t context scope >>= fun a => liftM (negated a) := rfl
  rw [hnode, run_bind_of_ok (ht context scope frames), hw]
  rfl

theorem gives_number {n : Number} (hn : ∃ k, n.whole? = some k ∧ k.natAbs < Number.exactLimit) :
    Gives setting (depth + 2) (.ofJson (.number n)) (.number n) := by
  obtain ⟨k, hk, hlt⟩ := hn
  cases n with
  | real x => cases hk
  | whole n h =>
    have hnk : n = k := Option.some.inj hk
    subst hnk
    rw [Tree.ofJson]
    show Gives setting (depth + 2) (.integer n) _
    rw [Tree.integer]
    rcases Int.lt_or_le n 0 with hneg | hpos
    · obtain ⟨k, rfl⟩ : ∃ k : Nat, n = -k := ⟨n.natAbs, by omega⟩
      rw [Int.natAbs_neg, Int.natAbs_natCast] at hlt
      rw [if_pos hneg, Int.natAbs_neg, Int.natAbs_natCast,
        whole_eq hlt (Number.fits64_of_lt hlt false)]
      exact gives_negate (gives_literal _) (negated_whole hlt _ h)
    · obtain ⟨k, rfl⟩ : ∃ k : Nat, n = k := ⟨n.natAbs, by omega⟩
      rw [Int.natAbs_natCast] at hlt
      rw [if_neg (Int.not_lt.2 hpos), Int.natAbs_natCast, whole_eq hlt h]
      exact gives_literal _

theorem definedItems_give {items : List Json}
    (hitems : ∀ v ∈ items, Gives setting depth (.ofJson v) v) (context : Value) (scope : Scope)
    (frames : Frames) :
    (Eval.definedItems (fun t => eval setting depth t context scope)
      (items.map Tree.ofJson)).run frames = .ok (items, frames) := by
  induction items with
  | nil => rfl
  | cons v items ih =>
    have hv := hitems v List.mem_cons_self context scope frames
    have hrest := ih fun w hw => hitems w (List.mem_cons_of_mem v hw)
    rw [List.map_cons, Eval.definedItems, run_bind_of_ok hv, run_bind_of_ok hrest]
    rfl

theorem constructedMembers_give (acc : Members) {members : Members}
    (hmembers : ∀ m ∈ members, Gives setting (depth + 1) (.ofJson m.2) m.2)
    (hnames : (Members.names (acc ++ members)).Nodup) (context : Value) (scope : Scope)
    (frames : Frames) :
    (Eval.constructedMembers (fun t => eval setting (depth + 1) t context scope) acc
      (Tree.ofMembers members)).run frames = .ok (acc ++ members, frames) := by
  induction members generalizing acc with
  | nil =>
    rw [List.append_nil]
    rfl
  | cons m members ih =>
    obtain ⟨k, v⟩ := m
    have hv := hmembers (k, v) List.mem_cons_self context scope frames
    have hk : k ∉ Members.names acc := by
      rw [Members.names, List.map_append, List.nodup_append] at hnames
      exact fun hmem => hnames.2.2 k hmem k (by simp) rfl
    have hname : (eval setting (depth + 1) (.literal (.string k)) context scope).run frames =
        .ok (some (.string k), frames) := rfl
    have hrest := ih (acc ++ [(k, v)]) (fun m hm => hmembers m (List.mem_cons_of_mem _ hm))
      (by simpa using hnames)
    rw [Tree.ofMembers, Eval.constructedMembers, run_bind_of_ok hname]
    show (eval setting (depth + 1) (.ofJson v) context scope >>= _).run frames = _
    rw [run_bind_of_ok hv]
    show (Eval.constructedMembers _ (acc.set k v) (Tree.ofMembers members) : Eval Members).run
      frames = _
    rw [Members.set_of_not_mem hk, hrest, List.append_assoc]
    rfl

/-- **The tree of a document is evaluated to the document.** -/
theorem gives_ofJson (v : Json) (hv : v.WellFormed) (he : v.Exact) {depth : Nat}
    (h : v.depth + 2 ≤ depth) : Gives setting depth (.ofJson v) v := by
  induction v using Json.induction generalizing depth with
  | null | bool b | string s =>
    obtain ⟨k, rfl⟩ : ∃ k, depth = k + 1 := ⟨depth - 1, by omega⟩
    exact gives_literal _
  | number n =>
    obtain ⟨k, rfl⟩ : ∃ k, depth = k + 2 := ⟨depth - 2, by omega⟩
    exact gives_number he
  | array items ih =>
    rw [Json.depth] at h
    obtain ⟨k, rfl⟩ : ∃ k, depth = k + 1 := ⟨depth - 1, by omega⟩
    intro context scope frames
    have hitems : ∀ v ∈ items, Gives setting k (.ofJson v) v := fun v hm => by
      have hdepth := Json.depthItems_le_iff.1 le_rfl v hm
      exact ih v hm (Json.wellFormedItems_iff.1 hv v hm) (Json.exactItems_iff.1 he v hm) (by omega)
    rw [Tree.ofJson, Tree.ofItems_eq]
    show (_ <$> Eval.definedItems _ _ : Eval Value).run frames = _
    rw [StateT.run_map, definedItems_give hitems]
    rfl
  | object members ih =>
    rw [Json.depth] at h
    obtain ⟨k, rfl⟩ : ∃ k, depth = k + 2 := ⟨depth - 2, by omega⟩
    intro context scope frames
    have hmembers : ∀ m ∈ members, Gives setting (k + 1) (.ofJson m.2) m.2 := fun m hm => by
      have hdepth := Json.depthMembers_le_iff.1 le_rfl m hm
      exact ih m hm (Json.wellFormedMembers_iff.1 hv.2 m hm) (Json.exactMembers_iff.1 he m hm)
        (by omega)
    rw [Tree.ofJson]
    show (_ <$> Eval.constructedMembers _ [] _ : Eval Value).run frames = _
    rw [StateT.run_map, constructedMembers_give [] hmembers hv.1]
    rfl

/-- **Documents are expressions.**  The compact text of a document that is at most 60 levels
deep and whose numbers are integers below 2⁵³ compiles, and on every input it is evaluated to
that document. -/
theorem documents_are_expressions {v : Json} (hv : v.WellFormed) (hd : v.depth ≤ 60)
    (he : v.Exact) :
    ∃ t, compileTree v.text = .ok t ∧
      ∀ now input, evaluate ⟨input, now, true⟩ maxDepth t = .ok (some v) ∧
        result now t input = .ok v ∧ (Program.ofTree t).run now input = .ok v := by
  have hlevels : v.depth + 2 ≤ maxNesting := by
    show v.depth + 2 ≤ 64
    omega
  refine ⟨.ofJson v, compileTree_text he hlevels, fun now input => ?_⟩
  have heval : evaluate ⟨input, now, true⟩ maxDepth (.ofJson v) = .ok (some v) := by
    have hdepth : v.depth + 2 ≤ maxDepth := by
      show v.depth + 2 ≤ 160
      omega
    rw [evaluate, gives_ofJson v hv he hdepth]
    rfl
  have hresult : result now (.ofJson v) input = .ok v := by
    rw [result, heval]
    rfl
  refine ⟨heval, hresult, ?_⟩
  show (result now (.ofJson v) input).mapError Program.Fault.failed = _
  rw [hresult]
  rfl

/-- A document with an empty name, a null, a negative number, escapes and an empty object. -/
def sampleDocument : Json :=
  .object [("", .array [.null, .number (.whole (-12) (by decide)), .string "\"\n\x01"]),
    ("a", .object [])]

theorem sampleDocument_is_an_expression :
    sampleDocument.WellFormed ∧ sampleDocument.depth ≤ 60 ∧ sampleDocument.Exact ∧
      ∃ t, compileTree sampleDocument.text = .ok t ∧
        ∀ now input, evaluate ⟨input, now, true⟩ maxDepth t = .ok (some sampleDocument) ∧
          result now t input = .ok sampleDocument ∧
          (Program.ofTree t).run now input = .ok sampleDocument := by
  have hv : sampleDocument.WellFormed := by
    simp [sampleDocument, Json.WellFormed, Json.WellFormedMembers, Json.WellFormedItems,
      Members.names]
  have hd : sampleDocument.depth ≤ 60 := by decide
  have he : sampleDocument.Exact := by
    simp [sampleDocument, Json.Exact, Json.ExactMembers, Json.ExactItems, Number.whole?,
      Number.exactLimit]
  exact ⟨hv, hd, he, documents_are_expressions hv hd he⟩

end Reshape.Expression

/-
# Field access

The member of a value with a name can be asked for directly, or as the step of a path that
starts with the value at hand.  A document that is an array is treated in two places then: the
look-up of a member goes through the items itself (`field`), and a path applies its step to
every item (`Eval.stepItems`).  Both flatten what the items yield and let a single result stand
for itself, so they agree on all documents, and so do all the steps that follow.

What a row of names yields is one look-up after the other (`walk`).  The direct form of a row
is a path too as soon as there are two names in it, and a bare look-up if there is only one, so
the two forms differ by one level of evaluation and by nothing else.
-/
import Mathlib.Tactic
import Reshape.Proofs.Quoting

namespace Reshape.Expression

/-! ## Rows of names -/

/-- What is found behind a row of names, one look-up after the other. -/
def walk (v : Value) (names : List String) : Value :=
  names.foldl (fun w name => w.bind (field name)) v

/-- Nothing is found behind what is undefined. -/
theorem walk_none (names : List String) : walk none names = none := by
  induction names with
  | nil => rfl
  | cons name names ih => exact ih

namespace Tree

/-- The steps of a path through members. -/
def steps (names : List String) : List Tree := names.map .field

/-- The tree of `a.b.c`. -/
def access (name : String) (names : List String) : Tree :=
  match names with
  | [] => .field name
  | _ :: _ => .path (.field name :: steps names)

/-- The tree of `$.a.b.c`. -/
def accessFromContext (names : List String) : Tree := .path (.context :: steps names)

end Tree

/-! ## Evaluation -/

section Evaluation

variable (setting : Setting) (depth : Nat) (scope : Scope)

/-- Looking up a member needs one level, and changes no frame. -/
theorem eval_field (name : String) (context : Value) :
    eval setting (depth + 1) (.field name) context scope = pure (context.bind (field name)) :=
  rfl

/-- A step of a path through an array collects what the look-up of the member collects. -/
theorem stepItems_field (name : String) (items : List Json) :
    Eval.stepItems (fun item => eval setting (depth + 1) (.field name) (some item) scope) items =
      pure (fieldItems name items) := by
  induction items with
  | nil => rfl
  | cons item items ih =>
    rw [Eval.stepItems, ih, eval_field, pure_bind, pure_bind]
    rfl

/-- The steps of a path through members are look-ups, one after the other. -/
theorem pathFrom_steps (names : List String) (current : Value) :
    Eval.pathFrom (eval setting (depth + 1)) scope current (Tree.steps names) =
      pure (walk current names) := by
  induction names generalizing current with
  | nil =>
    show Eval.pathFrom _ scope current [] = _
    rw [Eval.pathFrom]
    rfl
  | cons name names ih =>
    -- a value that is no array is looked up as it is
    have hone : ∀ v : Json,
        (do Eval.pathFrom (eval setting (depth + 1)) scope
              (← eval setting (depth + 1) (.field name) (some v) scope) (Tree.steps names)) =
          pure (walk (some v) (name :: names)) := by
      intro v
      rw [eval_field, pure_bind, ih]
      rfl
    rcases current with _ | (_ | _ | _ | _ | items | _)
    · rw [walk_none]
      rfl
    · exact hone _
    · exact hone _
    · exact hone _
    · exact hone _
    · show (do
        let vs ← Eval.stepItems (fun item =>
          eval setting (depth + 1) (.field name) (some item) scope) items
        Eval.pathFrom (eval setting (depth + 1)) scope (sequence vs) (Tree.steps names)) = _
      rw [stepItems_field, pure_bind, ih]
      rfl
    · exact hone _

/-- Both forms find what is behind the row of names, if there are two levels. -/
theorem eval_access (name : String) (names : List String) (context : Value) :
    eval setting (depth + 2) (.access name names) context scope =
      pure (walk context (name :: names)) := by
  cases names with
  | nil => rfl
  | cons second names =>
    show (do
      let v ← eval setting (depth + 1) (.field name) context scope
      Eval.pathFrom (eval setting (depth + 1)) scope v (Tree.steps (second :: names))) = _
    rw [eval_field, pure_bind, pathFrom_steps]
    rfl

theorem eval_accessFromContext (names : List String) (context : Value) :
    eval setting (depth + 2) (.accessFromContext names) context scope =
      pure (walk context names) := by
  show (do
    let v ← eval setting (depth + 1) .context context scope
    Eval.pathFrom (eval setting (depth + 1)) scope v (Tree.steps names)) = _
  have hcontext : eval setting (depth + 1) .context context scope = pure context := rfl
  rw [hcontext, pure_bind, pathFrom_steps]

end Evaluation

/-! ## Parsing -/

/-- The tokens of names with a dot before each of them. -/
def Token.dotted (names : List String) : List Token :=
  names.flatMap fun name => [.symbol .dot, .name name]

/-- The words that stand for a value and not for the member of that name. -/
def literalWords : List String := ["true", "false", "null"]

namespace Parser

variable {t : Token} {ts : List Token}

/-- A word that is no literal denotes a member where an operand is expected. -/
theorem nameOperand_of_not_literal {name : String} (h : name ∉ literalWords) :
    nameOperand name = .field name := by
  simp only [literalWords, List.mem_cons, List.not_mem_nil, or_false, not_or] at h
  simp [nameOperand, h]

/-- A path grows at its end. -/
theorem foldl_addStep_path (steps : List Tree) (names : List String) :
    names.foldl (fun left name => addStep left (.field name)) (.path steps) =
      .path (steps ++ Tree.steps names) := by
  induction names generalizing steps with
  | nil => simp [Tree.steps]
  | cons name names ih =>
    rw [List.foldl_cons, addStep, ih]
    simp [Tree.steps]

/-- The first step makes a path of an operand that is none. -/
theorem foldl_addStep {left : Tree} (hleft : ∀ steps, left ≠ .path steps) (name : String)
    (names : List String) :
    (name :: names).foldl (fun left name => addStep left (.field name)) left =
      .path (left :: Tree.steps (name :: names)) := by
  have hfirst : addStep left (.field name) = .path [left, .field name] := by
    unfold addStep
    split
    · exact absurd rfl (hleft _)
    · rfl
  rw [List.foldl_cons, hfirst, foldl_addStep_path]
  rfl

/-- A dot is applied, and then the operators behind it; it takes no level. -/
theorem takes_operationsFrom_dot {below : Nat → Nat → Parser Tree} {power steps levels : Nat}
    {left u v : Tree} {us us' : List Token} (hpower : power < stepPower)
    (hstep : Takes (operation (below levels) left) (.symbol .dot :: ts) u us)
    (hrest : Takes (operationsFrom below power steps levels u) us v us') :
    Takes (operationsFrom below power (steps + 1) levels left) (.symbol .dot :: ts) v us' := by
  intro s hs
  have hhere : s.here.token = .symbol .dot := (List.cons.inj hs).1
  have hrun : (operationsFrom below power (steps + 1) levels left).run s =
      (do
        let left ← operation (below levels) left
        operationsFrom below power steps levels left).run s := by
    show (if power < s.here.token.power then _ else pure left : Parser Tree).run s = _
    rw [hhere, if_pos (show power < Token.power (.symbol .dot) from hpower)]
    show (if (s.here.token == .symbol .dot) = true then _ else _ : Parser Tree).run s = _
    rw [hhere, if_pos (beq_self_eq_true _)]
  rw [hrun]
  exact hstep.bind hrest s hs

/-- Dots and names are taken as the steps of a path, however many there are. -/
theorem takes_dotted (n power : Nat) (ts : List Token) {names : List String}
    (hnames : ∀ name ∈ names, name ∉ literalWords) (hpower : power < stepPower)
    (ht : t.power ≤ power) {steps : Nat} (hsteps : names.length ≤ steps) (left : Tree) :
    Takes (operationsFrom (below (n + 1)) power steps (n + 1) left)
      (Token.dotted names ++ t :: ts)
      (names.foldl (fun left name => addStep left (.field name)) left) (t :: ts) := by
  induction names generalizing steps left with
  | nil => exact takes_operationsFrom _ ht steps (n + 1) left
  | cons name names ih =>
    obtain ⟨hname, hnames⟩ := List.forall_mem_cons.1 hnames
    obtain ⟨steps, rfl⟩ : ∃ k, steps = k + 1 := by
      rw [List.length_cons] at hsteps
      exact ⟨steps - 1, by omega⟩
    have hrest := ih hnames (Nat.le_of_succ_le_succ hsteps) (addStep left (.field name))
    -- behind the name comes a dot again, or the token behind the row
    obtain ⟨u, us, htokens, hu, hparen⟩ : ∃ u us, Token.dotted names ++ t :: ts = u :: us ∧
        u.power ≤ stepPower ∧ u ≠ .symbol .openParen := by
      cases names with
      | nil =>
        refine ⟨t, ts, rfl, by omega, ?_⟩
        rintro rfl
        exact absurd (ht.trans_lt hpower) (by decide)
      | cons next names => exact ⟨.symbol .dot, _, rfl, le_rfl, by decide⟩
    have hstep : Takes (below (n + 1) (n + 1) stepPower) (.name name :: u :: us) (.field name)
        (u :: us) := by
      rw [← nameOperand_of_not_literal hname]
      exact takes_below (takes_operand_name fun _ => hparen) hu
    show Takes _ (.symbol .dot :: .name name :: (Token.dotted names ++ t :: ts)) _ _
    rw [htokens] at hrest ⊢
    apply takes_operationsFrom_dot hpower (takes_take (List.cons_ne_nil _ _) fun p => ?_) hrest
    exact hstep.bind takes_pure

/-- An operand and the names behind it are taken together. -/
theorem takes_path (n : Nat) {names : List String}
    (hnames : ∀ name ∈ names, name ∉ literalWords) {u : Token} (first : Tree)
    (hoperand : ∀ v vs, v ≠ .symbol .openParen →
      Takes (operand (below (n + 1) (n + 1))) (u :: v :: vs) first (v :: vs)) :
    Takes (expression (n + 2) 0) (u :: Token.dotted names ++ [.done])
      (names.foldl (fun left name => addStep left (.field name)) first) [.done] := by
  have hlength : names.length ≤ (Token.dotted names ++ [Token.done]).length := by
    -- every name has a dot before it
    simp [Token.dotted, List.length_flatMap]
    omega
  have hdotted := takes_dotted (t := .done) n 0 [] hnames (by decide) le_rfl hlength first
  obtain ⟨v, vs, htokens, hv⟩ : ∃ v vs, Token.dotted names ++ [.done] = v :: vs ∧
      v ≠ .symbol .openParen := by
    cases names with
    | nil => exact ⟨.done, [], rfl, by decide⟩
    | cons next names => exact ⟨.symbol .dot, _, rfl, by decide⟩
  rw [expression, below, if_neg (by omega)]
  rw [List.cons_append, htokens]
  rw [htokens] at hdotted
  exact (hoperand v vs hv).bind (takes_left.bind hdotted)

end Parser

/-- No call is in a path through members. -/
theorem arityFaultList?_steps (names : List String) :
    Tree.arityFaultList? (Tree.steps names) = none := by
  induction names with
  | nil => rfl
  | cons name names ih => exact ih

/-- A row of names compiles to the direct form, or behind a dollar sign and a dot to the path
from the value at hand. -/
theorem compileTree_access {name : String} {names : List String}
    (hnames : ∀ n ∈ name :: names, n ∉ literalWords) {source : String} {ls : List Located}
    (hls : tokens source = .ok ls)
    (hrow : ls.map Located.token = .name name :: Token.dotted names ++ [.done]) :
    compileTree source = .ok (.access name names) := by
  obtain ⟨hname, hnames⟩ := List.forall_mem_cons.1 hnames
  have htakes := Parser.takes_path (u := .name name) 62 hnames (.field name) ?_
  · have htree : names.foldl (fun left n => Parser.addStep left (.field n)) (.field name) =
        .access name names := by
      cases names with
      | nil => rfl
      | cons second names => exact Parser.foldl_addStep (by simp) second names
    rw [htree] at htakes
    refine compileTree_of_takes hls hrow htakes ?_
    cases names with
    | nil => rfl
    | cons second names => exact arityFaultList?_steps (second :: names)
  · intro v vs hv
    rw [← Parser.nameOperand_of_not_literal hname]
    exact Parser.takes_operand_name fun _ => hv

theorem compileTree_accessFromContext {name : String} {names : List String}
    (hnames : ∀ n ∈ name :: names, n ∉ literalWords) {source : String} {ls : List Located}
    (hls : tokens source = .ok ls)
    (hrow : ls.map Located.token = .var "" :: Token.dotted (name :: names) ++ [.done]) :
    compileTree source = .ok (.accessFromContext (name :: names)) := by
  have htakes := Parser.takes_path (u := .var "") 62 hnames .context ?_
  · rw [Parser.foldl_addStep (by simp)] at htakes
    exact compileTree_of_takes hls hrow htakes (arityFaultList?_steps (name :: names))
  · intro v vs _
    exact Parser.takes_take (List.cons_ne_nil _ _) fun _ => Parser.takes_pure

/-- **Direct access is path access.**  On every value at hand, undefined or not, in every scope
and with any number of levels from two on, the direct form of a row of names and the path from
the value at hand come to what is found behind the names one after the other, and change no
frame; with fewer levels the path is nested too deep.  So both yield the same on every document.
They are the trees of the row as it is written and of the row behind a dollar sign and a dot,
unless a name in it is a word for a literal. -/
theorem direct_access_is_path_access (name : String) (names : List String) :
    (∀ setting depth scope context frames,
        (eval setting (depth + 2) (.access name names) context scope).run frames =
            .ok (walk context (name :: names), frames)
          ∧ (eval setting (depth + 2) (.accessFromContext (name :: names)) context scope).run
              frames = .ok (walk context (name :: names), frames))
      ∧ (∀ setting scope context frames, ∀ depth < 2,
        (eval setting depth (.accessFromContext (name :: names)) context scope).run frames =
          .error .nestedTooDeep)
      ∧ (∀ now input, result now (.access name names) input =
          result now (.accessFromContext (name :: names)) input)
      ∧ ((∀ n ∈ name :: names, n ∉ literalWords) →
        (∀ {source ls}, tokens source = .ok ls →
          ls.map Located.token = .name name :: Token.dotted names ++ [.done] →
            compileTree source = .ok (.access name names))
          ∧ ∀ {source ls}, tokens source = .ok ls →
            ls.map Located.token = .var "" :: Token.dotted (name :: names) ++ [.done] →
              compileTree source = .ok (.accessFromContext (name :: names))) := by
  refine ⟨?_, ?_, ?_, fun hnames => ?_⟩
  · intro setting depth scope context frames
    rw [eval_access, eval_accessFromContext]
    exact ⟨rfl, rfl⟩
  · intro setting scope context frames depth hdepth
    rcases depth with _ | _ | depth
    · rfl
    · rfl
    · omega
  · intro now input
    simp only [result, evaluate, maxDepth, eval_access, eval_accessFromContext]
  · exact ⟨compileTree_access hnames, compileTree_accessFromContext hnames⟩

/-- Prices in the items of orders: items without them, an item with an array of them, an array
in an array, and a value that has no members. -/
def sampleOrders : Json :=
  .array [.object [("items", .array [.object [("price", .number (.ofNat 1))], .object []])],
    .array [.object [("items", .object [("price",
      .array [.number (.ofNat 2), .number (.ofNat 3)])])]],
    .string "none"]

theorem prices_of_items_are_walked_to :
    (∀ n ∈ ["items", "price"], n ∉ literalWords)
      ∧ compileTree "items.price" = .ok (.access "items" ["price"])
      ∧ compileTree "$.items.price" = .ok (.accessFromContext ["items", "price"])
      ∧ walk (some sampleOrders) ["items", "price"] =
        some (.array [.number (.ofNat 1), .number (.ofNat 2), .number (.ofNat 3)])
      ∧ ∀ now, result now (.access "items" ["price"]) sampleOrders =
          result now (.accessFromContext ["items", "price"]) sampleOrders := by
  have hnames : ∀ n ∈ ["items", "price"], n ∉ literalWords := by decide
  obtain ⟨-, -, hsame, hcompile⟩ := direct_access_is_path_access "items" ["price"]
  obtain ⟨hdirect, hcontext⟩ := hcompile hnames
  have hdotted : tokens "items.price" =
      .ok [⟨.name "items", 0⟩, ⟨.symbol .dot, 5⟩, ⟨.name "price", 6⟩, ⟨.done, 11⟩] := by
    decide +kernel
  have hrooted : tokens "$.items.price" =
      .ok [⟨.var "", 0⟩, ⟨.symbol .dot, 1⟩, ⟨.name "items", 2⟩, ⟨.symbol .dot, 7⟩,
        ⟨.name "price", 8⟩, ⟨.done, 13⟩] := by
    decide +kernel
  exact ⟨hnames, hdirect hdotted rfl, hcontext hrooted rfl, rfl,
    fun now => hsame now sampleOrders⟩

end Reshape.Expression

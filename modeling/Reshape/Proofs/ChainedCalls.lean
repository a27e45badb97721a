/-
# Chained calls

Two texts, `(l) ~> $f(a)` and `$f((l), a)`, are one expression.  They are compared where they are
the whole text, and inside any nest of groups and functions, as in `($f := p; (l) ~> $f(a))` and
`function($f){(l) ~> $f(a)}`, so that the function can be one that was bound before.  What is read
before them is the same, so the parser comes to them with the same names bound; from there on the
two runs go abreast.
-/
import Reshape.Proofs.Lexing
import Reshape.Proofs.Pieces
import Reshape.Proofs.Preludes

namespace Reshape.Expression

open Text (Ends isNamePart)

/-! ## Texts put together -/

/-- The text is cut into this row of tokens, and every parenthesis in it has its partner. -/
structure Fills (text : String) (row : List Token) : Prop where
  cut : ∃ ls, tokens text = .ok ls ∧ ls.map Located.token = row ++ [.done]
  balanced : Balanced row

theorem Fills.of_tokens {text : String} {row : List Token}
    (h : (tokens text).toOption.map (·.map Located.token) = some (row ++ [.done]))
    (hrow : Balanced row) : Fills text row := by
  refine ⟨?_, hrow⟩
  cases hls : tokens text with
  | error f =>
    rw [hls] at h
    cases h
  | ok ls =>
    rw [hls] at h
    exact ⟨ls, rfl, Option.some.inj h⟩

namespace Lexer

variable {s rest : List Char} {ts : List Token}

theorem Lexes.blank (h : Lexes rest ts) : Lexes (' ' :: rest) ts := by
  intro steps offset hsteps
  obtain ⟨steps, rfl⟩ := Nat.exists_eq_add_one_of_ne_zero (Nat.ne_zero_of_lt hsteps)
  obtain ⟨ls, hls, htokens⟩ := h steps (offset + 1) (Nat.le_of_succ_le_succ hsteps)
  refine ⟨ls, ?_, htokens⟩
  have hl : lexeme offset ' ' ([] ++ rest) = .ok ⟨none, 1⟩ := rfl
  have hstep := tokensFrom_piece steps hl rfl
  rw [List.singleton_append] at hstep
  rw [hstep]
  have hsize : Text.Utf8.size [' '] = 1 := rfl
  rw [hsize, hls]
  rfl

/-- A text may be followed by what goes on with no token. -/
theorem Lexes.text {text : String} {row : List Token} (h : Fills text row)
    (hends : Ends joins rest) (hrest : Lexes rest ts) :
    Lexes (text.toList ++ rest) (row ++ ts) := by
  obtain ⟨ls, hls, hrow⟩ := h.cut
  obtain ⟨before, hpieces, rfl⟩ := exists_pieces hls
  rw [List.map_append] at hrow
  have hbefore : before.map Located.token = row := (List.append_inj' hrow rfl).1
  intro steps offset hsteps
  obtain ⟨ls, hls, htokens⟩ := hrest rest.length (offset + Text.Utf8.size text.toList)
    (Nat.le_refl _)
  have hplace := (hpieces.shift offset).replace hends
  rw [Nat.add_zero] at hplace
  rw [tokensFrom_eq_tokensAt hsteps, tokensAt_append hplace]
  refine ⟨before.map (Located.shift offset) ++ ls, ?_, ?_⟩
  · rw [tokensAt, hls]
    rfl
  · rw [List.map_append, map_token_shift, hbefore, htokens, List.append_assoc]

/-- A name behind its dollar sign. -/
theorem Lexes.var {f : String} (hempty : f ≠ "") (hf : ∀ c ∈ f.toList, isNamePart c = true)
    (hends : Ends isNamePart rest) (hrest : Lexes rest ts) :
    Lexes ('$' :: f.toList ++ rest) (.var f :: ts) := by
  refine Lexes.cons _ (fun offset => ?_) hrest
  have hname : variableName (f.toList ++ rest) = f.toList := by
    unfold variableName
    split
    · rename_i more hmore
      cases hlist : f.toList with
      | nil => exact absurd (String.toList_eq_nil_iff.1 hlist) hempty
      | cons c cs =>
        rw [hlist] at hmore hf
        rw [(List.cons.inj hmore).1] at hf
        exact absurd (hf '$' List.mem_cons_self) (by decide)
    · exact Text.takeWhile_append hf hends
  have hl : lexeme offset '$' (f.toList ++ rest) =
      .ok ⟨some (.var (String.ofList (variableName (f.toList ++ rest)))),
        (variableName (f.toList ++ rest)).length + 1⟩ := rfl
  rw [hl, hname, String.ofList_toList, List.length_cons]

end Lexer

namespace Parser

/-! ## Whole expressions -/

variable {α β : Type}

/-- Two expressions that reach the end mark are whole. -/
theorem abreast_whole {R : Tree → Tree → Prop} {s s' : ParseState}
    (h : Abreast (expression maxNesting 0) (expression maxNesting 0) s s' fun x y r r' =>
      R x y ∧ r.tokens = [.done] ∧ r'.tokens = [.done]) :
    Abreast whole whole s s' fun x y _ _ => R x y := by
  refine h.bind ?_
  rintro x y r r' ⟨hxy, hr, hr'⟩
  have hend : ∀ {r : ParseState} {x : Tree}, r.tokens = [.done] →
      (do
        if (← get).here.token != .done then failHere .unexpected
        return x : Parser Tree).run r = .ok (x, r) := by
    intro r x hr
    show (if (r.here.token != .done) = true then _ else _ : Parser Tree).run r = _
    rw [(List.cons.inj hr).1]
    rfl
  exact .of_ok (hend hr) (hend hr') hxy

end Parser

/-! ## Sources -/

/-- The state in which the parser starts on a text. -/
theorem exists_start {source : String} {ts : List Token} (h : Lexer.Lexes source.toList ts) :
    ∃ s : ParseState, Parser.InFront [] (ts ++ [.done]) s ∧
      parse source = (Parser.whole.run s).map Prod.fst := by
  obtain ⟨ls, hls, htokens⟩ := h source.toList.length 0 (Nat.le_refl _)
  have hended := Lexer.ended_tokensFrom hls
  have hparse : parse source = parseTokens ls := by
    have hsource : tokens source = .ok ls := hls
    rw [parse, hsource]
    rfl
  cases ls with
  | nil =>
    rw [List.map_nil] at htokens
    exact absurd htokens.symm (List.append_ne_nil_of_right_ne_nil _ (List.cons_ne_nil _ _))
  | cons here later => exact ⟨⟨here, later, []⟩, ⟨hended, rfl, htokens⟩, hparse⟩

theorem parallel_parse {R : Tree → Tree → Prop} {source source' : String} {s s' : ParseState}
    (hs : parse source = (Parser.whole.run s).map Prod.fst)
    (hs' : parse source' = (Parser.whole.run s').map Prod.fst)
    (h : Parser.Abreast Parser.whole Parser.whole s s' fun x y _ _ => R x y) :
    Parser.Parallel R (parse source) (parse source') := by
  rw [hs, hs']
  unfold Parser.Abreast at h
  generalize Parser.whole.run s = o at h
  generalize Parser.whole.run s' = o' at h
  cases h with
  | ok h => exact .ok h
  | error h => exact .error h
  | left h => exact .left h
  | right h => exact .right h

/-- What a text that parses is read to. -/
theorem exists_run_of_parse {source : String} {s : ParseState} {u : Tree}
    (hs : parse source = (Parser.whole.run s).map Prod.fst) (h : parse source = .ok u) :
    ∃ x, (Parser.expression maxNesting 0).run s = .ok x := by
  rw [hs] at h
  cases hrun : Parser.whole.run s with
  | error f =>
    rw [hrun] at h
    cases h
  | ok x =>
    obtain ⟨y, k, hy, -⟩ := exists_of_run_bind hrun
    exact ⟨(y, k), hy⟩

/-- Texts whose rows may stand for each other are parsed to the same but for places. -/
theorem parallel_parse_of_interchange {x₀ x x' : String} {e₀ e e' : List Token} {u : Tree}
    (h₀ : Lexer.Lexes x₀.toList e₀) (h : Lexer.Lexes x.toList e) (h' : Lexer.Lexes x'.toList e')
    (hrows : Parser.Interchange e₀ e e') (hknown : parse x₀ = .ok u) :
    Parser.Parallel Tree.Moved (parse x) (parse x') := by
  obtain ⟨k, hk, hkparse⟩ := exists_start h₀
  obtain ⟨s, hs, hparse⟩ := exists_start h
  obtain ⟨s', hs', hparse'⟩ := exists_start h'
  obtain ⟨y, hy⟩ := exists_run_of_parse hkparse hknown
  exact parallel_parse hparse hparse' (Parser.abreast_whole (hrows.abreast rfl hk hs hs' hy))

/-! ## The two texts -/

/-- What is written behind the function of a chain, and behind the operand in the call. -/
inductive ArgumentTexts : String → String → Prop
  | none : ArgumentTexts "" ")"
  | empty : ArgumentTexts "()" ")"
  | some {a : String} {row : List Token} (ha : Fills a row) (hne : row ≠ []) :
    ArgumentTexts ("(" ++ a ++ ")") (", " ++ a ++ ")")

/-- What stands before and behind the two: groups with a prelude and functions, one inside the
other, or nothing. -/
inductive Surroundings : String → String → Prop
  | none : Surroundings "" ""
  | group {p before after : String} {row : List Token} (hp : Fills p row)
    (h : Surroundings before after) : Surroundings ("(" ++ p ++ "; " ++ before) (after ++ ")")
  | function {p before after : String} {row : List Token} (hp : Fills p row)
    (h : Surroundings before after) :
    Surroundings ("function(" ++ p ++ ")\x7b" ++ before) (after ++ "\x7d")

/-- The chain `(l) ~> $f`, and what is behind it. -/
def chainText (l f behind : String) : String := "(" ++ l ++ ") ~> $" ++ f ++ behind

/-- The call `$f((l)`, and what is behind it. -/
def callText (l f behind : String) : String := "$" ++ f ++ "((" ++ l ++ ")" ++ behind

theorem toList_chainText (l f behind : String) : (chainText l f behind).toList =
    '(' :: (l.toList ++ ')' :: ' ' :: '~' :: '>' :: ' ' :: '$' :: (f.toList ++ behind.toList)) := by
  simp [chainText]

theorem toList_callText (l f behind : String) : (callText l f behind).toList =
    '$' :: (f.toList ++ '(' :: '(' :: (l.toList ++ ')' :: behind.toList)) := by
  simp [callText]

namespace Lexer

variable {rest : List Char} {ts us : List Token} {l f : String} {row : List Token}

theorem ends_of_not_joins {c : Char} (hc : joins c = false) (s : List Char) :
    Ends joins (c :: s) := by
  intro x hx
  cases hx
  exact hc

/-- What goes on with no token does not go on with a name. -/
theorem ends_name (h : Ends joins rest) : Ends isNamePart rest :=
  fun c hc => (not_joins_iff.1 (h c hc)).1

/-- The characters make up these tokens wherever no name goes on behind them. -/
structure Spans (cs : List Char) (row : List Token) : Prop where
  append : ∀ {rest : List Char} {ts : List Token}, Lexes rest ts → Ends isNamePart rest →
    Lexes (cs ++ rest) (row ++ ts)

theorem Spans.lexes {cs : List Char} (h : Spans cs row) : Lexes cs row := by
  have hcs := h.append lexes_nil fun c hc => by cases hc
  rwa [List.append_nil, List.append_nil] at hcs

theorem spans_var (hempty : f ≠ "") (hf : ∀ c ∈ f.toList, isNamePart c = true) :
    Spans ("$" ++ f).toList [.var f] := by
  refine ⟨fun hrest hends => ?_⟩
  have htext : ("$" ++ f).toList = '$' :: f.toList := by simp
  rw [htext]
  exact Lexes.var hempty hf hends hrest

theorem spans_chain {behind : String} {tb : List Token} (hl : Fills l row) (hempty : f ≠ "")
    (hf : ∀ c ∈ f.toList, isNamePart c = true) (hends : ∀ {rest : List Char},
      Ends isNamePart rest → Ends isNamePart (behind.toList ++ rest))
    (hbehind : Spans behind.toList tb) :
    Spans (chainText l f behind).toList (Parser.chainRow f row tb) := by
  refine ⟨fun hrest hrestEnds => ?_⟩
  have hclose := ends_of_not_joins (c := ')') (by decide)
  simp only [toList_chainText, Parser.chainRow, List.cons_append, List.append_assoc]
  refine Lexes.cons [] (fun _ => rfl) (Lexes.text hl (hclose _) ?_)
  refine Lexes.cons [] (fun _ => rfl) (Lexes.blank ?_)
  refine Lexes.cons ['>'] (fun _ => rfl) (Lexes.blank ?_)
  exact Lexes.var hempty hf (hends hrestEnds) (hbehind.append hrest hrestEnds)

theorem spans_call {behind : String} {tb : List Token} (hl : Fills l row) (hempty : f ≠ "")
    (hf : ∀ c ∈ f.toList, isNamePart c = true) (hbehind : Spans behind.toList tb) :
    Spans (callText l f behind).toList (Parser.callRow f row tb) := by
  refine ⟨fun hrest hrestEnds => ?_⟩
  have hopen := ends_of_not_joins (c := '(') (by decide)
  have hclose := ends_of_not_joins (c := ')') (by decide)
  simp only [toList_callText, Parser.callRow, List.cons_append, List.append_assoc]
  refine Lexes.var hempty hf (ends_name (hopen _)) ?_
  refine Lexes.cons [] (fun _ => rfl) (Lexes.cons [] (fun _ => rfl) (Lexes.text hl (hclose _) ?_))
  exact Lexes.cons [] (fun _ => rfl) (hbehind.append hrest hrestEnds)

/-- Text behind a prelude in a group. -/
theorem Spans.group {p : String} {cs : List Char} {prow : List Token} (hp : Fills p prow)
    (h : Spans cs row) : Spans ('(' :: (p.toList ++ ';' :: ' ' :: (cs ++ [')'])))
      (Parser.groupRow prow row) := by
  refine ⟨fun hrest _ => ?_⟩
  have hsemicolon := ends_of_not_joins (c := ';') (by decide)
  have hclose := ends_of_not_joins (c := ')') (by decide)
  simp only [Parser.groupRow, List.cons_append, List.append_assoc]
  refine Lexes.cons [] (fun _ => rfl) (Lexes.text hp (hsemicolon _) ?_)
  refine Lexes.cons [] (fun _ => rfl) (Lexes.blank (h.append ?_ (ends_name (hclose _))))
  exact Lexes.cons [] (fun _ => rfl) hrest

/-- Text that is the body of a function. -/
theorem Spans.function {p : String} {cs : List Char} {prow : List Token} (hp : Fills p prow)
    (h : Spans cs row) :
    Spans ("function".toList ++ '(' :: (p.toList ++ ')' :: '\x7b' :: (cs ++ ['\x7d'])))
      (Parser.functionRow prow row) := by
  refine ⟨fun hrest _ => ?_⟩
  have hopen := ends_of_not_joins (c := '(') (by decide)
  have hclose := ends_of_not_joins (c := ')') (by decide)
  have hbrace := ends_of_not_joins (c := '\x7d') (by decide)
  simp only [Parser.functionRow, List.cons_append, List.append_assoc]
  refine lexes_word (Or.inr (Or.inr rfl)) (by decide) (ends_name (hopen _)) ?_
  refine Lexes.cons [] (fun _ => rfl) (Lexes.text hp (hclose _) ?_)
  refine Lexes.cons [] (fun _ => rfl) (Lexes.cons [] (fun _ => rfl) ?_)
  refine h.append ?_ (ends_name (hbrace _))
  exact Lexes.cons [] (fun _ => rfl) hrest

/-- The rows of what is behind the function and behind the operand. -/
theorem exists_arguments {behind behind' : String} (h : ArgumentTexts behind behind') :
    ∃ tb tb', Parser.Arguments tb tb' ∧ Spans behind.toList tb ∧ Spans behind'.toList tb' ∧
      ∀ {rest : List Char}, Ends isNamePart rest → Ends isNamePart (behind.toList ++ rest) := by
  have hopen := fun s => ends_name (ends_of_not_joins (c := '(') (by decide) s)
  have hclose := fun s => ends_of_not_joins (c := ')') (by decide) s
  have hend : Spans ")".toList [.symbol .closeParen] :=
    ⟨fun hrest _ => Lexes.cons [] (fun _ => rfl) hrest⟩
  cases h with
  | none => exact ⟨_, _, .none, ⟨fun hrest _ => hrest⟩, hend, fun hends => hends⟩
  | empty =>
    refine ⟨_, _, .empty, ⟨fun hrest hends => ?_⟩, hend, fun _ => hopen _⟩
    exact Lexes.cons [] (fun _ => rfl) (hend.append hrest hends)
  | @some a row ha hne =>
    have hrow : ∀ {rest : List Char} {ts : List Token}, Lexes rest ts → Ends isNamePart rest →
        Lexes (a.toList ++ ([')'] ++ rest)) (row ++ [.symbol .closeParen] ++ ts) := by
      intro rest ts hrest hends
      rw [List.append_assoc]
      exact Lexes.text ha (hclose rest) (hend.append hrest hends)
    simp only [String.toList_append, List.append_assoc]
    refine ⟨_, _, .some ha.balanced hne, ⟨fun hrest hends => ?_⟩, ⟨fun hrest hends => ?_⟩,
      fun _ => hopen _⟩
    · simp only [List.append_assoc]
      exact Lexes.cons [] (fun _ => rfl) (hrow hrest hends)
    · simp only [List.append_assoc]
      exact Lexes.cons [] (fun _ => rfl) (Lexes.blank (hrow hrest hends))

end Lexer

/-- Texts whose rows may stand for each other may do so inside groups and functions. -/
theorem Surroundings.exists_rows {before after : String} (h : Surroundings before after)
    {x₀ x x' : String} {e₀ e e' : List Token} (h₀ : Lexer.Spans x₀.toList e₀)
    (hx : Lexer.Spans x.toList e) (hx' : Lexer.Spans x'.toList e')
    (hrows : Parser.Interchange e₀ e e') :
    ∃ r₀ r r', Lexer.Spans (before ++ x₀ ++ after).toList r₀ ∧
      Lexer.Spans (before ++ x ++ after).toList r ∧ Lexer.Spans (before ++ x' ++ after).toList r' ∧
        Parser.Interchange r₀ r r' := by
  induction h with
  | none =>
    simp only [String.empty_append, String.append_empty]
    exact ⟨_, _, _, h₀, hx, hx', hrows⟩
  | @group p before after row hp _ ih =>
    obtain ⟨r₀, r, r', h₀, hr, hr', hrows⟩ := ih
    have htext : ∀ x : String, ("(" ++ p ++ "; " ++ before ++ x ++ (after ++ ")")).toList =
        '(' :: (p.toList ++ ';' :: ' ' :: ((before ++ x ++ after).toList ++ [')'])) := by
      simp
    simp only [htext]
    exact ⟨_, _, _, .group hp h₀, .group hp hr, .group hp hr', hrows.group hp.balanced⟩
  | @function p before after row hp _ ih =>
    obtain ⟨r₀, r, r', h₀, hr, hr', hrows⟩ := ih
    have htext : ∀ x : String, ("function(" ++ p ++ ")\x7b" ++ before ++ x ++
        (after ++ "\x7d")).toList = "function".toList ++
          '(' :: (p.toList ++ ')' :: '\x7b' :: ((before ++ x ++ after).toList ++ ['\x7d'])) := by
      simp
    simp only [htext]
    exact ⟨_, _, _, .function hp h₀, .function hp hr, .function hp hr',
      hrows.function hp.balanced⟩

/-- What parses alike compiles alike, and to what has the same results. -/
theorem parallel_compileTree {source source' : String}
    (h : Parser.Parallel Tree.Moved (parse source) (parse source')) :
    Parser.Parallel (fun t t' => t.Moved t' ∧
      ∀ now input, result now t input = result now t' input)
      (compileTree source) (compileTree source') := by
  unfold compileTree
  generalize parse source = o at h ⊢
  generalize parse source' = o' at h ⊢
  cases h with
  | error h => exact .error h
  | left h => exact .left h
  | @right o _ h =>
    cases o with
    | error f => exact .right h
    | ok t => exact .right h
  | @ok t t' h =>
    have hcause := h.cause_eq
    simp only [bind, Except.bind]
    generalize t.arityFault? = fault at hcause ⊢
    generalize t'.arityFault? = fault' at hcause ⊢
    cases fault with
    | none =>
      cases fault' with
      | none => exact .ok ⟨h, fun now input => h.result_eq now input⟩
      | some _ => cases hcause
    | some _ =>
      cases fault' with
      | none => cases hcause
      | some _ => exact .error (Option.some.inj hcause)

/-- A call of a built-in function with a wrong number of arguments is refused. -/
theorem compileTree_of_not_accepts {source : String} {b : Builtin} {args : List Tree} {p : Nat}
    (h : parse source = .ok (.call (.builtin b) args p))
    (haccepts : b.accepts args.length = false) :
    compileTree source = .error ⟨.arity b.name b.arity.1 b.arity.2 args.length, p⟩ := by
  have hfault : (Tree.call (.builtin b) args p).arityFault? =
      some ⟨.arity b.name b.arity.1 b.arity.2 args.length, p⟩ := by
    rw [Tree.arityFault?, callFault?, haccepts]
    rfl
  unfold compileTree
  rw [h]
  simp only [bind, Except.bind, hfault]
  rfl

section Texts

variable {l f behind behind' : String} {row : List Token} {u callee : Tree}
variable (hl : Fills l row) (hempty : f ≠ "") (hf : ∀ c ∈ f.toList, isNamePart c = true)
  (hbinds : f ∉ boundIn row) (hargs : ArgumentTexts behind behind')

include hf in
theorem ne_root : f ≠ "$" := by
  rintro rfl
  exact absurd (hf '$' (by decide)) (by decide)

include hl hempty hf hbinds hargs

/-- Alone, a chain and the call are one call. -/
theorem parallel_parse_alone (hmeaning : Parser.meaning? [] f = some callee) :
    Parser.Parallel (Parser.OneCall callee) (parse (chainText l f behind))
      (parse (callText l f behind')) := by
  obtain ⟨tb, tb', hrows, hb, hb', hends⟩ := Lexer.exists_arguments hargs
  obtain ⟨s, hs, hparse⟩ := exists_start (Lexer.spans_chain hl hempty hf hends hb).lexes
  obtain ⟨s', hs', hparse'⟩ := exists_start (Lexer.spans_call hl hempty hf hb').lexes
  refine parallel_parse hparse hparse' (Parser.abreast_whole ?_)
  exact Parser.abreast_application (by decide) hempty (ne_root hf) hl.balanced hbinds hrows
    (Nat.le_refl _) (by decide) (Nat.le_refl _) hs.ended (hs.bound.trans hs'.bound.symm)
    (hs.bound ▸ hmeaning) hs.tokens hs'.tokens maxNesting maxNesting

/-- Where the name of the function can be read, a chain and the call are the same. -/
theorem parallel_parse_around {before after : String} (haround : Surroundings before after)
    (hknown : parse (before ++ ("$" ++ f) ++ after) = .ok u) :
    Parser.Parallel Tree.Moved (parse (before ++ chainText l f behind ++ after))
      (parse (before ++ callText l f behind' ++ after)) := by
  obtain ⟨tb, tb', hrows, hb, hb', hends⟩ := Lexer.exists_arguments hargs
  obtain ⟨e₀, e, e', h₀, h, h', hinter⟩ := haround.exists_rows (Lexer.spans_var hempty hf)
    (Lexer.spans_chain hl hempty hf hends hb) (Lexer.spans_call hl hempty hf hb')
    (Parser.interchange_application hempty (ne_root hf) hl.balanced hbinds hrows)
  exact parallel_parse_of_interchange h₀.lexes h.lexes h'.lexes hinter hknown

end Texts

/-- **A chain is a call with the operand as its first argument.**  The texts `(l) ~> $f(a)` and
`$f((l), a)`, or `(l) ~> $f` and `$f((l))`, may be the whole text or stand inside groups, behind
their preludes, and inside functions.  If `$f` is a function or a variable there, and nothing in
`l` binds it, both are read to the same tree but for places, or refused for the same cause, unless
one is nested too deep; so both compile, and have the same result on every input, or neither does.
When the number of arguments of a built-in function is checked, the operand counts. -/
theorem chains_are_calls {l f behind behind' before after : String} {row : List Token} {u : Tree}
    (hl : Fills l row) (hempty : f ≠ "") (hf : ∀ c ∈ f.toList, isNamePart c = true)
    (hbinds : f ∉ boundIn row) (hargs : ArgumentTexts behind behind')
    (haround : Surroundings before after)
    (hknown : parse (before ++ ("$" ++ f) ++ after) = .ok u) :
    Parser.Parallel Tree.Moved (parse (before ++ chainText l f behind ++ after))
        (parse (before ++ callText l f behind' ++ after)) ∧
      Parser.Parallel (fun t t' => t.Moved t' ∧
          ∀ now input, result now t input = result now t' input)
        (compileTree (before ++ chainText l f behind ++ after))
        (compileTree (before ++ callText l f behind' ++ after)) ∧
      ∀ {b t t'}, Builtin.ofName? f = some b → parse (chainText l f behind) = .ok t →
        parse (callText l f behind') = .ok t' →
          ∃ operand args p, t = .call (.builtin b) (operand :: args) p ∧
            (b.accepts (args.length + 1) = false → compileTree (chainText l f behind) =
              .error ⟨.arity b.name b.arity.1 b.arity.2 (args.length + 1), p⟩) := by
  have hparse := parallel_parse_around hl hempty hf hbinds hargs haround hknown
  refine ⟨hparse, parallel_compileTree hparse, fun {b t t'} hb ht ht' => ?_⟩
  have hmeaning : Parser.meaning? [] f = some (.builtin b) := by
    rw [Parser.meaning?, hb]
    rfl
  have halone := parallel_parse_alone hl hempty hf hbinds hargs hmeaning
  rw [ht, ht'] at halone
  obtain ⟨-, operand, args, p, rfl⟩ := halone.of_ok
  refine ⟨operand, args, p, rfl, fun haccepts => ?_⟩
  exact compileTree_of_not_accepts ht haccepts

/-- A function that was bound to a built-in one is called on an operand and an argument. -/
theorem bound_function_is_chained : ∃ t t',
    compileTree "($cut := $split; (names) ~> $cut(mark))" = .ok t ∧
      compileTree "($cut := $split; $cut((names), mark))" = .ok t' ∧
      t.Moved t' ∧ ∀ now input, result now t input = result now t' input := by
  have hl : Fills "names" [.name "names"] := .of_tokens (by decide +kernel) (.cons rfl .nil)
  have ha : Fills "mark" [.name "mark"] := .of_tokens (by decide +kernel) (.cons rfl .nil)
  have hp : Fills "$cut := $split" [.var "cut", .symbol .bind, .var "split"] :=
    .of_tokens (by decide +kernel) (.cons rfl (.cons rfl (.cons rfl .nil)))
  have hok : ∀ {o : Except Fault Tree}, o.isOk = true → ∃ t, o = .ok t := by
    intro o ho
    cases o with
    | ok t => exact ⟨t, rfl⟩
    | error f => cases ho
  obtain ⟨u, hu⟩ : ∃ u, parse ("(" ++ "$cut := $split" ++ "; " ++ "" ++ ("$" ++ "cut") ++
      ("" ++ ")")) = .ok u := hok (by decide +kernel)
  obtain ⟨t, ht⟩ := hok (o := compileTree "($cut := $split; (names) ~> $cut(mark))")
    (by decide +kernel)
  obtain ⟨t', ht'⟩ := hok (o := compileTree "($cut := $split; $cut((names), mark))")
    (by decide +kernel)
  have hcut : ∀ c ∈ "cut".toList, isNamePart c = true := List.all_eq_true.1 (by decide +kernel)
  have hboth := (chains_are_calls hl (by decide) hcut (by decide +kernel)
    (.some ha (List.cons_ne_nil _ _)) (.group hp .none) hu).2.1
  have hchain : "(" ++ "$cut := $split" ++ "; " ++ "" ++
      chainText "names" "cut" ("(" ++ "mark" ++ ")") ++ ("" ++ ")") =
        "($cut := $split; (names) ~> $cut(mark))" := by decide +kernel
  have hcall : "(" ++ "$cut := $split" ++ "; " ++ "" ++
      callText "names" "cut" (", " ++ "mark" ++ ")") ++ ("" ++ ")") =
        "($cut := $split; $cut((names), mark))" := by decide +kernel
  rw [hchain, hcall, ht, ht'] at hboth
  exact ⟨t, t', ht, ht', hboth.of_ok⟩

end Reshape.Expression

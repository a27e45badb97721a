/-
# Expressions in step

Two runs of the parser of expressions that read the same row with the same names bound go
abreast, whatever is behind the row and however many levels are left for each (`goes_below`).
On the way the first run keeps account of the names: what is bound behind a row was bound before,
or the row binds it (`Noted`).
-/
import Reshape.Proofs.Abreast

namespace Reshape.Expression

namespace Parser

open Expression.Tree (LikeEntry Moved)

/-! ## Accounting for names -/

/-- The tokens left are the end of the row `W`.  The names that are bound are those of `B`, and
those that are bound where some token of the row was that is not left. -/
structure Noted (W : List Token) (B : List String) (s : ParseState) : Prop where
  ended : s.Ended
  suffix : s.tokens <:+ W
  kept : ∀ x ∈ B, x ∈ s.bound
  bound : ∀ x ∈ s.bound, x ∈ B ∨ ∃ u, u <:+ W ∧ s.tokens.length < u.length ∧ x ∈ boundHere u

namespace Noted

variable {W : List Token} {B : List String} {s r : ParseState}

theorem init (hs : s.Ended) : Noted s.tokens s.bound s :=
  ⟨hs, List.suffix_refl _, fun _ => id, fun _ hx => Or.inl hx⟩

/-- Names that were noted stay noted further on. -/
theorem onward (h : Noted W B s) (hended : r.Ended) (hsuffix : r.tokens <:+ s.tokens)
    (hkept : ∀ x ∈ s.bound, x ∈ r.bound) (hbound : ∀ x ∈ r.bound, x ∈ s.bound ∨
      ∃ u, u <:+ W ∧ r.tokens.length < u.length ∧ x ∈ boundHere u) : Noted W B r := by
  refine ⟨hended, hsuffix.trans h.suffix, fun x hx => hkept x (h.kept x hx), fun x hx => ?_⟩
  rcases hbound x hx with hx | hx
  · rcases h.bound x hx with hx | ⟨u, hu, hlen, hx⟩
    · exact Or.inl hx
    · exact Or.inr ⟨u, hu, hsuffix.length_le.trans_lt hlen, hx⟩
  · exact Or.inr hx

theorem next (s : ParseState) (h : Noted W B s) : Noted W B s.next := by
  by_cases hdone : s.here.token = .done
  · have hs : s.next = s := by
      obtain ⟨here, later, bound⟩ := s
      obtain rfl := Expression.Ended.tail_eq_nil h.ended hdone
      rfl
    rwa [hs]
  · obtain ⟨htokens, hended⟩ := ParseState.tokens_next h.ended hdone
    refine h.onward hended ?_ (fun x hx => ?_) fun x hx => Or.inl ?_
    · rw [htokens]
      exact List.suffix_cons _ _
    · rwa [s.next_bound]
    · rwa [s.next_bound] at hx

/-- A name that is bound behind its token is noted. -/
theorem bind (h : Noted W B s) {x : String} (hvar : .var x :: s.tokens <:+ W)
    (hhere : s.here.token = .symbol .bind) : Noted W B { s with bound := x :: s.bound } := by
  refine h.onward h.ended (List.suffix_refl _) (fun _ => List.mem_cons_of_mem x) fun y hy => ?_
  rcases List.mem_cons.1 hy with rfl | hy
  · refine Or.inr ⟨_, hvar, Nat.lt_succ_self _, ?_⟩
    rw [ParseState.tokens, List.map_cons, hhere]
    exact List.mem_singleton_self y
  · exact Or.inl hy

end Noted

/-- From one state to the other the parameters of a function are taken, with the parenthesis that
closes.  The names among the tokens are bound, and no other name. -/
structure TakesNames (s r : ParseState) : Prop where
  ended : r.Ended
  kept : ∀ x ∈ s.bound, x ∈ r.bound
  names : ∃ e, s.tokens = e ++ .symbol .closeParen :: r.tokens ∧
    (∀ t ∈ e, t ≠ .symbol .closeParen) ∧
    ∀ x ∈ r.bound, x ∈ s.bound ∨ x ∈ e.filterMap Token.named?

theorem after_itemsFrom_parameter {s : ParseState} (hs : s.Ended) (steps : Nat)
    (acc : List String) :
    After (itemsFrom parameter .closeParen steps acc) s fun _ r => TakesNames s r := by
  induction steps generalizing s acc with
  | zero => exact after_failHere
  | succ steps ih =>
    refine after_bind (after_take_next ?_)
    split
    · rename_i name htoken
      split
      · exact after_throw
      rename_i hname
      obtain ⟨htokens, hnext⟩ := ParseState.tokens_next hs (by rw [htoken]; exact Token.noConfusion)
      rw [htoken] at htokens
      have hnamed : Token.named? (.var name) = some name := if_neg hname
      -- the name was bound, and a comma or the end comes next
      obtain ⟨q, hq⟩ : ∃ q : ParseState, q = { s.next with bound := name :: s.next.bound } :=
        ⟨_, rfl⟩
      have hqtokens : s.tokens = .var name :: q.tokens := by rw [hq]; exact htokens
      have hqended : q.Ended := by rw [hq]; exact hnext
      have hqbound : ∀ x, x ∈ q.next.bound ↔ x = name ∨ x ∈ s.bound := by
        intro x
        rw [q.next_bound, hq, ← s.next_bound]
        exact List.mem_cons
      refine after_pure (after_bind ?_)
      show After (accept .comma) { s.next with bound := name :: s.next.bound } _
      rw [← hq]
      refine after_at? ?_
      split
      · rename_i hcomma
        obtain ⟨hmore, hended⟩ := ParseState.tokens_next_symbol hqended hcomma
        refine after_take_next (after_pure ((ih hended _).imp ?_))
        rintro _ r ⟨hr, hkept, e, he, hclose, hbound⟩
        refine ⟨hr, fun x hx => hkept x ((hqbound x).2 (Or.inr hx)),
          .var name :: .symbol .comma :: e, ?_, ?_, fun x hx => ?_⟩
        · rw [hqtokens, hmore, he]
          rfl
        · exact List.forall_mem_cons.2 ⟨Token.noConfusion,
            List.forall_mem_cons.2 ⟨by decide, hclose⟩⟩
        · rw [List.filterMap_cons_some hnamed, List.filterMap_cons_none rfl, List.mem_cons]
          rcases hbound x hx with hx | hx
          · rcases (hqbound x).1 hx with hx | hx
            · exact Or.inr (Or.inl hx)
            · exact Or.inl hx
          · exact Or.inr (Or.inr hx)
      · refine after_pure (after_bind (after_at? ?_))
        split
        · rename_i hclose
          obtain ⟨hmore, hended⟩ := ParseState.tokens_next_symbol hqended hclose
          refine after_take_next (after_pure (after_pure ?_))
          refine ⟨hended, fun x hx => (hqbound x).2 (Or.inr hx), [.var name], ?_,
            List.forall_mem_singleton.2 Token.noConfusion, fun x hx => ?_⟩
          · rw [hqtokens, hmore]
            rfl
          · rw [List.filterMap_cons_some hnamed, List.filterMap_nil, List.mem_singleton]
            exact ((hqbound x).1 hx).symm
        · exact after_failHere
    · exact after_throw

theorem after_items_parameter {s : ParseState} (hs : s.Ended) :
    After (items parameter .closeParen) s fun _ r => TakesNames s r := by
  refine after_bind (after_at? ?_)
  split
  · rename_i hclose
    obtain ⟨htokens, hnext⟩ := ParseState.tokens_next_symbol hs hclose
    refine after_take_next (after_pure (after_pure ?_))
    refine ⟨hnext, fun x hx => ?_, [], htokens, List.forall_mem_nil _, fun x hx => Or.inl ?_⟩
    · rwa [s.next_bound]
    · rwa [s.next_bound] at hx
  · exact after_pure (after_left (after_itemsFrom_parameter hs _ []))

/-! ## Parsers in step -/

theorem Onward.mono {I : ParseState → Prop} {z : Symbol} {c d us us' : List Token}
    {s s' : ParseState} (h : Onward I z d us us' s s') (hlen : d.length ≤ c.length) :
    Onward I z c us us' s s' := by
  obtain ⟨c', hc', hle, h'⟩ := h
  exact ⟨c', hc', hle.trans hlen, h'⟩

theorem goes_parameter : Goes (fun _ => True) Eq parameter parameter := by
  intro z c us us' s s' hz hc h
  obtain ⟨t, d, rfl⟩ := hc.exists_cons
  have hnext := h.next trivial
  refine abreast_take ?_
  rw [h.here, h.here']
  cases t with
  | var name =>
    have hd := hc.tail rfl Token.noConfusion
    simp only
    split
    · exact abreast_throw rfl
    · exact .ok ⟨rfl, d, hd, Nat.le_succ _, hnext.left, hnext.right, hnext.more, hnext.more',
        congrArg (name :: ·) hnext.bound, trivial⟩
  | number | string | name | symbol | done => exact abreast_throw rfl

/-- What a group of items is: one item alone that binds nothing is just itself. -/
def grouped : List Tree → Tree
  | [v] => if v.isBind then .block [v] else v
  | items => .block items

theorem block_eq (expr : Nat → Parser Tree) : block expr = (left >>= fun k =>
    blockFrom expr (k + 1) [] >>= fun items => expect .closeParen >>= fun _ =>
      pure (grouped items)) := by
  refine congrArg (left >>= ·) (funext fun k => congrArg (_ >>= ·) (funext fun items => ?_))
  match items with
  | [] => rfl
  | [v] => rfl
  | _ :: _ :: _ => rfl

/-- Groups of moved items are moved. -/
theorem moved_grouped {ts us : List Tree} (h : List.Forall₂ Moved ts us) :
    Moved (grouped ts) (grouped us) := by
  have hblock : Moved (.block ts) (.block us) :=
    congrArg Tree.block (Tree.unplacedList_eq_iff.2 h)
  match h with
  | .nil => exact hblock
  | .cons hv .nil =>
    rw [grouped, grouped, hv.isBind_eq]
    split
    · exact hblock
    · exact hv
  | .cons _ (.cons _ _) => exact hblock

/-- A path keeps its steps when the steps are moved. -/
theorem moved_addStep {left left' step step' : Tree} (hleft : Moved left left')
    (hstep : Moved step step') : Moved (addStep left step) (addStep left' step') := by
  have hunplaced : ∀ u v : Tree, (addStep u v).unplaced = addStep u.unplaced v.unplaced := by
    intro u v
    cases u with
    | path steps =>
      have happend : ∀ ts : List Tree,
          Tree.unplacedList (ts ++ [v]) = Tree.unplacedList ts ++ [v.unplaced] := by
        intro ts
        induction ts with
        | nil => rfl
        | cons t ts ih => rw [List.cons_append, Tree.unplacedList, ih]; rfl
      exact congrArg Tree.path (happend steps)
    | _ => rfl
  rw [Moved, hunplaced, hunplaced, hleft, hstep]

/-- A chain makes the same call of operands that are moved. -/
theorem parallel_chained {left left' right right' : Tree} (hleft : Moved left left')
    (hright : Moved right right') (p p' : Nat) :
    Parallel Moved (chained left right p) (chained left' right' p') := by
  have hunplaced : ∀ (u v : Tree) (p : Nat),
      ((chained u v p).map Tree.unplaced).mapError Fault.cause =
        (chained u.unplaced v.unplaced 0).mapError Fault.cause := by
    intro u v p
    cases v <;> rfl
  have hsame := (hunplaced left right p).trans (by rw [hleft, hright, ← hunplaced left' right' p'])
  generalize chained left right p = r at hsame ⊢
  generalize chained left' right' p' = r' at hsame ⊢
  cases r with
  | ok x =>
    cases r' with
    | ok y => exact .ok (Except.ok.inj hsame)
    | error g => cases hsame
  | error f =>
    cases r' with
    | ok y => cases hsame
    | error g => exact .error (Except.error.inj hsame)

section Expressions

variable {W : List Token} {B : List String} {expr expr' : Nat → Parser Tree}
variable (hexpr : ∀ power, Goes (Noted W B) Moved (expr power) (expr' power))

include hexpr

theorem goes_entry : Goes (Noted W B) (LikeEntry Moved) (entry expr) (entry expr') := by
  intro z c us us' s s' hz hc h
  refine (hexpr 0 hz hc h).bind ?_
  rintro key key' r r' ⟨hkey, c', hc', hlen, h'⟩
  obtain ⟨t, d, rfl⟩ := hc'.exists_cons
  refine abreast_expect Noted.next h' fun ht hnext => ?_
  subst ht
  have hd := hc'.tail rfl (hz.ne (by decide) (by decide))
  refine (hexpr 0 hz hd hnext).bind ?_
  rintro value value' q q' ⟨hvalue, hq⟩
  exact abreast_pure ⟨.mk hkey hvalue, hq.mono (Nat.le_of_succ_le hlen)⟩

theorem abreast_blockFrom {c us us' : List Token} {s s' : ParseState} {steps steps' : Nat}
    {acc acc' : List Tree} (hc : Upto .closeParen c) (h : Shares (Noted W B) c us us' s s')
    (hsteps : c.length < steps) (hsteps' : c.length < steps') :
    Abreast (blockFrom expr steps acc) (blockFrom expr' steps' acc') s s' fun xs ys r r' =>
      (∃ vs ws, xs = acc.reverse ++ vs ∧ ys = acc'.reverse ++ ws ∧ List.Forall₂ Moved vs ws) ∧
        Onward (Noted W B) .closeParen c us us' r r' := by
  induction steps generalizing steps' acc acc' c s s' with
  | zero => exact absurd hsteps (Nat.not_lt_zero _)
  | succ steps ih =>
    obtain ⟨steps', rfl⟩ := Nat.exists_eq_add_one_of_ne_zero (Nat.ne_zero_of_lt hsteps')
    obtain ⟨t, d, rfl⟩ := hc.exists_cons
    refine abreast_at? h.here_eq fun b hb => ?_
    cases b with
    | true =>
      refine abreast_pure ⟨⟨[], [], ?_, ?_, .nil⟩, _, hc, Nat.le_refl _, h⟩
      · rw [List.append_nil]
      · rw [List.append_nil]
    | false =>
      refine (hexpr 0 (Or.inl rfl) hc h).bind ?_
      rintro x y r r' ⟨hxy, c', hc', hlen, h'⟩
      obtain ⟨u, e, rfl⟩ := hc'.exists_cons
      rw [List.length_cons] at hlen hsteps hsteps'
      rw [List.length_cons] at hlen
      refine abreast_accept Noted.next h' (fun hu hnext => ?_) fun _ => ?_
      · subst hu
        have he := hc'.tail rfl (by decide)
        refine (ih he hnext (by omega) (by omega)).imp ?_
        rintro xs ys q q' ⟨⟨vs, ws, rfl, rfl, hvs⟩, hq⟩
        refine ⟨⟨x :: vs, y :: ws, ?_, ?_, .cons hxy hvs⟩, hq.mono ?_⟩
        · rw [List.reverse_cons, List.append_assoc, List.singleton_append]
        · rw [List.reverse_cons, List.append_assoc, List.singleton_append]
        · rw [List.length_cons]
          omega
      · refine abreast_pure ⟨⟨[x], [y], List.reverse_cons, List.reverse_cons, .cons hxy .nil⟩,
          _, hc', ?_, h'⟩
        rw [List.length_cons, List.length_cons]
        omega

/-- Groups in step are the same blocks, or the same single expressions. -/
theorem exhausts_block : Exhausts (Noted W B) Moved (block expr) (block expr') := by
  intro c us us' s s' hc h
  rw [block_eq, block_eq]
  refine abreast_left ((abreast_blockFrom hexpr hc h (Nat.lt_succ_of_lt h.length_lt)
    (Nat.lt_succ_of_lt h.length_lt')).bind ?_)
  rintro xs ys r r' ⟨⟨vs, ws, hxs, hys, hvs⟩, c', hc', -, h'⟩
  obtain rfl : xs = vs := hxs
  obtain rfl : ys = ws := hys
  obtain ⟨t, d, rfl⟩ := hc'.exists_cons
  refine abreast_expect Noted.next h' fun ht hnext => ?_
  subst ht
  obtain rfl := hc'.eq_nil
  exact abreast_pure ⟨moved_grouped hvs, hnext⟩

omit hexpr in
/-- The names bound between a function's parentheses are noted. -/
theorem abreast_parameters {z : Symbol} {c us us' : List Token} {s s' : ParseState}
    (hz : Ending z) (hc : Upto z (.symbol .openParen :: c)) (h : Shares (Noted W B) c us us' s s')
    (hword : .name "function" :: .symbol .openParen :: s.tokens <:+ W) :
    Abreast (items parameter .closeParen) (items parameter .closeParen) s s' fun xs ys r r' =>
      xs = ys ∧ Onward (Noted W B) z c us us' r r' := by
  have hany : Shares (fun _ => True) c us us' s s' := { h with known := trivial }
  have hgroup := Exhausts.group (exhausts_items (fun _ _ => trivial) goes_parameter) hz hc hany
  refine (hgroup.and_after (after_items_parameter h.known.ended)).imp ?_
  rintro xs ys r r' ⟨⟨hxs, d, hd, hlen, h'⟩, hended, hkept, e, he, hclose, hbound⟩
  have htokens : r.tokens <:+ s.tokens := by
    rw [he]
    exact (List.suffix_cons _ _).trans (List.suffix_append _ _)
  refine ⟨List.forall₂_eq_eq_eq ▸ hxs, d, hd, hlen, { h' with
    known := h.known.onward hended htokens hkept fun x hx => ?_ }⟩
  rcases hbound x hx with hx | hx
  · exact Or.inl hx
  · refine Or.inr ⟨_, hword, ?_, ?_⟩
    · have hle := htokens.length_le
      rw [List.length_cons, List.length_cons]
      omega
    · have hparams : s.tokens.takeWhile (· != .symbol .closeParen) = e := by
        rw [he, List.takeWhile_append_of_pos fun t ht => bne_iff_ne.2 (hclose t ht)]
        exact List.append_nil e
      show x ∈ (s.tokens.takeWhile (· != .symbol .closeParen)).filterMap Token.named?
      rwa [hparams]

theorem abreast_lambda {z : Symbol} {c us us' : List Token} {s s' : ParseState}
    (hz : Ending z) (hc : Upto z c) (h : Shares (Noted W B) c us us' s s')
    (hword : .name "function" :: s.tokens <:+ W) :
    Abreast (lambda expr) (lambda expr') s s' fun x y r r' =>
      Moved x y ∧ Onward (Noted W B) z c us us' r r' := by
  obtain ⟨t, d, rfl⟩ := hc.exists_cons
  refine abreast_expect Noted.next h fun ht hnext => ?_
  subst ht
  have hwords : .name "function" :: .symbol .openParen :: s.next.tokens <:+ W := by
    rw [hnext.left]
    rwa [h.left] at hword
  refine (abreast_parameters hz hc hnext hwords).bind ?_
  rintro params _ r r' ⟨rfl, d', hd', hlen, h'⟩
  -- the body between its braces
  obtain ⟨t, b, rfl⟩ := hd'.exists_cons
  refine abreast_expect Noted.next h' fun ht hbrace => ?_
  subst ht
  have hb := hd'.tail rfl (hz.ne (by decide) (by decide))
  refine (hexpr 0 hz hb hbrace).bind ?_
  rintro body body' q q' ⟨hbody, b', hb', hlen', h''⟩
  obtain ⟨t, e, rfl⟩ := hb'.exists_cons
  refine abreast_expect Noted.next h'' fun ht hlast => abreast_pure ?_
  subst ht
  have hlambda : Moved (.lambda params body) (.lambda params body') :=
    congrArg (Tree.lambda params) hbody
  refine ⟨hlambda, e, hb'.tail rfl (hz.ne (by decide) (by decide)), ?_, hlast⟩
  simp only [List.length_cons] at hlen hlen' ⊢
  omega

omit hexpr in
/-- A name means the same to both, and nothing is taken to tell what. -/
theorem abreast_named {s s' : ParseState} (hhere : s.here.token = s'.here.token)
    (hbound : s.bound = s'.bound) (name : String) (p p' : Nat) :
    Abreast (named name p) (named name p') s s' fun x y r r' => x = y ∧ r = s ∧ r' = s' := by
  refine abreast_get ?_
  rw [← hbound]
  cases s.bound.contains name with
  | true => exact abreast_pure ⟨rfl, rfl, rfl⟩
  | false =>
    simp only [Bool.false_eq_true, if_false]
    cases Builtin.ofName? name with
    | some f => exact abreast_pure ⟨rfl, rfl, rfl⟩
    | none =>
      refine abreast_at? hhere fun b _ => ?_
      cases b with
      | true => exact abreast_throw rfl
      | false => exact abreast_throw rfl

theorem abreast_variableUse {name : String} (p p' : Nat) {z : Symbol} {c us us' : List Token}
    {s s' : ParseState} (hz : Ending z) (hc : Upto z c) (h : Shares (Noted W B) c us us' s s')
    (hvar : .var name :: s.tokens <:+ W) :
    Abreast (variableUse expr name p) (variableUse expr' name p') s s' fun x y r r' =>
      Moved x y ∧ Onward (Noted W B) z c us us' r r' := by
  obtain ⟨t, d, rfl⟩ := hc.exists_cons
  refine abreast_at? h.here_eq fun b hb => ?_
  cases b with
  | true =>
    have hhere : s.here.token = .symbol .bind := beq_iff_eq.1 hb.symm
    exact .ok ⟨rfl, _, hc, Nat.le_refl _, { h with
      bound := congrArg (name :: ·) h.bound
      known := h.known.bind hvar hhere }⟩
  | false =>
    refine (abreast_named h.here_eq h.bound name p p').bind ?_
    rintro callee _ _ _ ⟨rfl, rfl, rfl⟩
    refine abreast_accept Noted.next h (fun ht hnext => ?_) fun _ => ?_
    · -- a call
      subst ht
      refine (Exhausts.group (exhausts_items Noted.next (hexpr 0)) hz hc hnext).bind ?_
      rintro args args' r r' ⟨hargs, hr⟩
      have hcall : Moved (.call callee args p) (.call callee args' p') :=
        congrArg (Tree.call callee.unplaced · 0) (Tree.unplacedList_eq_iff.2 hargs)
      exact abreast_pure ⟨hcall, hr.mono (Nat.le_succ _)⟩
    · exact abreast_pure ⟨rfl, _, hc, Nat.le_refl _, h⟩

theorem goes_operand : Goes (Noted W B) Moved (operand expr) (operand expr') := by
  intro z c us us' s s' hz hc h
  obtain ⟨t, d, rfl⟩ := hc.exists_cons
  have hnext := h.next (h.known.next)
  have htokens : t :: s.next.tokens <:+ W := by
    rw [hnext.left, ← List.cons_append, ← h.left]
    exact h.known.suffix
  have hlen : d.length ≤ (t :: d).length := Nat.le_succ _
  refine abreast_take ?_
  rw [h.here, h.here']
  cases t with
  | number x => exact abreast_pure ⟨rfl, d, hc.tail rfl Token.noConfusion, hlen, hnext⟩
  | string x => exact abreast_pure ⟨rfl, d, hc.tail rfl Token.noConfusion, hlen, hnext⟩
  | done => exact abreast_throw rfl
  | name w =>
    have hd := hc.tail rfl Token.noConfusion
    have hleaf : Abreast (pure (nameOperand w)) (pure (nameOperand w)) s.next s'.next
        fun x y r r' => Moved x y ∧ Onward (Noted W B) z (.name w :: d) us us' r r' :=
      abreast_pure ⟨rfl, d, hd, hlen, hnext⟩
    by_cases hw : w = "function"
    · subst hw
      obtain ⟨t, e, rfl⟩ := hd.exists_cons
      refine abreast_at? hnext.here_eq fun b _ => ?_
      cases b with
      | true =>
        refine (abreast_lambda hexpr hz hd hnext htokens).imp ?_
        rintro x y r r' ⟨hxy, hr⟩
        exact ⟨hxy, hr.mono hlen⟩
      | false => exact hleaf
    · have hword : (w == "function") = false := beq_eq_false_iff_ne.2 hw
      simp only [hword]
      exact hleaf
  | var name =>
    have hd := hc.tail rfl Token.noConfusion
    simp only
    split
    · exact abreast_pure ⟨rfl, d, hd, hlen, hnext⟩
    · split
      · exact abreast_pure ⟨rfl, d, hd, hlen, hnext⟩
      · refine (abreast_variableUse hexpr _ _ hz hd hnext htokens).imp ?_
        rintro x y r r' ⟨hxy, hr⟩
        exact ⟨hxy, hr.mono hlen⟩
  | symbol o =>
    cases o with
    | minus =>
      have hd := hc.tail rfl (hz.ne (by decide) (by decide))
      refine (hexpr negationPower hz hd hnext).bind ?_
      rintro x y r r' ⟨hxy, hr⟩
      have hnegate : Moved (.negate x) (.negate y) := congrArg Tree.negate hxy
      exact abreast_pure ⟨hnegate, hr.mono hlen⟩
    | openParen =>
      refine (Exhausts.group (exhausts_block hexpr) hz hc hnext).imp ?_
      rintro x y r r' ⟨hxy, hr⟩
      exact ⟨hxy, hr.mono hlen⟩
    | openBracket =>
      have hd := hc.tail rfl (hz.ne (by decide) (by decide))
      refine (goes_items Noted.next (hexpr 0) rfl (by decide) hz hd hnext).bind ?_
      rintro xs ys r r' ⟨hxs, hr⟩
      have harray : Moved (.array xs) (.array ys) :=
        congrArg Tree.array (Tree.unplacedList_eq_iff.2 hxs)
      exact abreast_pure ⟨harray, hr.mono hlen⟩
    | openBrace =>
      have hd := hc.tail rfl (hz.ne (by decide) (by decide))
      refine (goes_items Noted.next (goes_entry hexpr) rfl (by decide) hz hd hnext).bind ?_
      rintro xs ys r r' ⟨hxs, hr⟩
      have hobject : Moved (.object xs) (.object ys) :=
        congrArg Tree.object (Tree.unplacedEntries_eq_iff.2 hxs)
      exact abreast_pure ⟨hobject, hr.mono hlen⟩
    | _ => exact abreast_throw rfl

/-- An operation in step: the operator is out of the row, and what it takes of it. -/
theorem abreast_operation {left left' : Tree} (hleft : Moved left left') {z : Symbol} {t : Token}
    {c us us' : List Token} {s s' : ParseState} (hz : Ending z) (hc : Upto z (t :: c))
    (h : Shares (Noted W B) (t :: c) us us' s s') :
    Abreast (operation expr left) (operation expr' left') s s' fun x y r r' =>
      Moved x y ∧ Onward (Noted W B) z c us us' r r' := by
  have hnext := h.next (h.known.next)
  refine abreast_take ?_
  rw [h.here, h.here']
  -- what is made of the operand on the right alone
  have hright : t ≠ .symbol z → t.isParen = false → ∀ (power : Nat) (f f' : Tree → Tree),
      (∀ x y, Moved x y → Moved (f x) (f' y)) →
      Abreast (do return f (← expr power)) (do return f' (← expr' power)) s.next s'.next
        fun x y r r' => Moved x y ∧ Onward (Noted W B) z c us us' r r' := by
    intro hne hparen power f f' hf
    refine (hexpr power hz (hc.tail hparen hne) hnext).bind ?_
    rintro x y r r' ⟨hxy, hr⟩
    exact abreast_pure ⟨hf x y hxy, hr⟩
  have hbinary : ∀ op x y, Moved x y → Moved (.binary op left x) (.binary op left' y) :=
    fun op x y hxy => congrArg₂ (Tree.binary op) hleft hxy
  cases t with
  | symbol o =>
    cases o with
    | dot =>
      exact hright (hz.ne (by decide) (by decide)) rfl _ _ _ fun x y hxy => moved_addStep hleft hxy
    | openBracket =>
      have hc := hc.tail rfl (hz.ne (by decide) (by decide))
      obtain ⟨t, d, rfl⟩ := hc.exists_cons
      refine abreast_at? hnext.here_eq fun b _ => ?_
      cases b with
      | true =>
        exact (abreast_failHere (P := fun _ _ _ _ => False) hnext.here_eq
          fun _ => .emptyPredicate).bind fun _ _ _ _ => False.elim
      | false =>
        refine (hexpr 0 hz hc hnext).bind ?_
        rintro x y r r' ⟨hxy, c', hc', hlen, h'⟩
        obtain ⟨t, e, rfl⟩ := hc'.exists_cons
        refine abreast_expect Noted.next h' fun ht hlast => abreast_pure ?_
        subst ht
        have hfilter : Moved (.filter left x) (.filter left' y) := congrArg₂ Tree.filter hleft hxy
        exact ⟨hfilter, e, hc'.tail rfl (hz.ne (by decide) (by decide)), Nat.le_of_succ_le hlen,
          hlast⟩
    | question =>
      have hc := hc.tail rfl (hz.ne (by decide) (by decide))
      refine (hexpr 0 hz hc hnext).bind ?_
      rintro yes yes' r r' ⟨hyes, c', hc', hlen, h'⟩
      obtain ⟨t, e, rfl⟩ := hc'.exists_cons
      refine abreast_accept Noted.next h' (fun ht hcolon => ?_) fun _ => abreast_pure ?_
      · subst ht
        refine (hexpr 0 hz (hc'.tail rfl (hz.ne (by decide) (by decide))) hcolon).bind ?_
        rintro no no' q q' ⟨hno, hq⟩
        have hcondition : Moved (.condition left yes (some no))
            (.condition left' yes' (some no')) := by
          rw [Moved, Tree.unplaced, Tree.unplaced, hleft, hyes,
            Tree.unplacedOption_eq_iff.2 (.some hno)]
        exact abreast_pure ⟨hcondition, hq.mono (Nat.le_of_succ_le hlen)⟩
      · exact ⟨congrArg₂ (Tree.condition · · none) hleft hyes, _, hc', hlen, h'⟩
    | bind =>
      have hvar : ∀ (u : Tree) (x : String), u.unplaced = .var x → u = .var x := by
        intro u x hu
        cases u with
        | var y => exact hu
        | _ => cases hu
      simp only
      split
      · rename_i x
        obtain rfl := hvar left' x hleft.symm
        exact hright (hz.ne (by decide) (by decide)) rfl _ _ _
          fun v w hvw => congrArg (Tree.bind x) hvw
      · rename_i hnot
        split
        · rename_i x
          exact absurd (hvar left x hleft) (hnot x)
        · exact abreast_throw rfl
    | chain =>
      have hc := hc.tail rfl (hz.ne (by decide) (by decide))
      refine (hexpr chainPower hz hc hnext).bind ?_
      rintro x y r r' ⟨hxy, hr⟩
      refine (abreast_lift (parallel_chained hleft hxy _ _)).imp ?_
      rintro v w _ _ ⟨hvw, rfl, rfl⟩
      exact ⟨hvw, hr⟩
    | plus | minus | star | slash | percent | ampersand | equal | notEqual | less | lessEqual
    | greater | greaterEqual =>
      exact hright (hz.ne (by decide) (by decide)) rfl _ _ _ (hbinary _)
    | _ => exact abreast_throw rfl
  | name w =>
    have hword := hright Token.noConfusion rfl
    simp only [Token.operator?]
    split_ifs
    · exact hword _ _ _ (hbinary _)
    · exact hword _ _ _ (hbinary _)
    · exact abreast_throw rfl
  | number | string | var | done => exact abreast_throw rfl

end Expressions

/-! ## Operators and levels -/

variable {W : List Token} {B : List String}

/-- Operators in step: as long as there are steps for the tokens in common, their number makes no
difference, and that of the levels shows in faults only. -/
theorem abreast_operationsFrom {below below' : Nat → Nat → Parser Tree}
    (hbelow : ∀ levels levels' power,
      Goes (Noted W B) Moved (below levels power) (below' levels' power))
    {z : Symbol} (hz : Ending z) (power : Nat) {steps steps' levels levels' : Nat}
    {left left' : Tree} (hleft : Moved left left') {c us us' : List Token} {s s' : ParseState}
    (hc : Upto z c) (h : Shares (Noted W B) c us us' s s') (hsteps : c.length ≤ steps)
    (hsteps' : c.length ≤ steps') :
    Abreast (operationsFrom below power steps levels left)
      (operationsFrom below' power steps' levels' left') s s' fun x y r r' =>
        Moved x y ∧ Onward (Noted W B) z c us us' r r' := by
  induction steps generalizing steps' levels levels' left left' c s s' with
  | zero =>
    obtain ⟨t, d, rfl⟩ := hc.exists_cons
    exact absurd hsteps (Nat.not_succ_le_zero _)
  | succ steps ih =>
    obtain ⟨t, d, rfl⟩ := hc.exists_cons
    rw [List.length_cons] at hsteps hsteps'
    obtain ⟨steps', rfl⟩ := Nat.exists_eq_add_one_of_ne_zero (Nat.ne_zero_of_lt hsteps')
    -- one operation, and then those behind it
    have hstep : ∀ n n' levels levels', Abreast
        (do operationsFrom below power steps levels (← operation (below n) left))
        (do operationsFrom below' power steps' levels' (← operation (below' n') left')) s s'
        fun x y r r' => Moved x y ∧ Onward (Noted W B) z (t :: d) us us' r r' := by
      intro n n' levels levels'
      refine (abreast_operation (hbelow n n') hleft hz hc h).bind ?_
      rintro x y r r' ⟨hxy, c', hc', hlen, h'⟩
      refine (ih hxy hc' h' (by omega) (by omega)).imp ?_
      rintro v w q q' ⟨hvw, hq⟩
      refine ⟨hvw, hq.mono ?_⟩
      rw [List.length_cons]
      omega
    refine abreast_get ?_
    rw [h.here, h.here']
    by_cases hpower : power < t.power
    · rw [if_pos hpower, if_pos hpower]
      refine abreast_at? h.here_eq fun b _ => ?_
      cases b with
      | true => exact hstep levels levels' levels levels'
      | false =>
        cases levels with
        | zero => exact .left rfl
        | succ levels =>
          cases levels' with
          | zero => exact .right rfl
          | succ levels' => exact hstep levels levels' levels levels'
    · rw [if_neg hpower, if_neg hpower]
      exact abreast_pure ⟨hleft, _, hc, Nat.le_refl _, h⟩

/-- **Expressions go in step**, however many levels are left for each of the two. -/
theorem goes_below (n n' levels levels' power : Nat) :
    Goes (Noted W B) Moved (below n levels power) (below n' levels' power) := by
  induction n generalizing n' levels levels' power with
  | zero => exact fun _ _ _ => .left rfl
  | succ n ih =>
    induction n' generalizing levels levels' power with
    | zero => exact fun _ _ _ => .right rfl
    | succ n' ih' =>
      intro z c us us' s s' hz hc h
      by_cases hlevels : levels ≤ n
      · rw [below, if_pos hlevels]
        exact ih (n' + 1) levels levels' power hz hc h
      by_cases hlevels' : levels' ≤ n'
      · have hfewer : below (n' + 1) levels' power = below n' levels' power := if_pos hlevels'
        rw [hfewer]
        exact ih' levels levels' power hz hc h
      rw [below, below, if_neg hlevels, if_neg hlevels']
      refine (goes_operand (fun power => ih n' n n' power) hz hc h).bind ?_
      rintro x y r r' ⟨hxy, c', hc', hlen, h'⟩
      refine abreast_left ((abreast_operationsFrom (fun n m power => ih n' n m power) hz power
        hxy hc' h' h'.length_lt.le h'.length_lt'.le).imp ?_)
      rintro v w q q' ⟨hvw, hq⟩
      exact ⟨hvw, hq.mono hlen⟩

end Parser

end Reshape.Expression

/-
# Expressions nest no deeper than the limit

A reader of expressions with room for `room` of them makes no tree that nests more deeply to the
right, by whichever grammar and from whichever parser it reads (`exprAt_nests`).  Only the entry to
an expression counts, and the trees are put together by the rules, the lists and the blocks; so
every rule has to read what is to the right of its left operand through that entry.

| made of | nests at most |
| --- | --- |
| what `expr` reads, in a list, a statement or a block | as deeply as that |
| an expression under a prefix rule | one more |
| a left operand and what its infix rule reads | one more, if the operand does |

`a.Makes P` says that whatever the action `a` reads has the property `P`.
-/

import MonkeySyntax.Proofs.Ends
import MonkeySyntax.Tree.Equality
import MonkeySyntax.Tree.Nesting

namespace MonkeySyntax
namespace Action

variable {σ : Type} [TokenSource σ] {α β : Type}

/-- Whatever an action reads has the property `P`. -/
def Makes (a : Action σ α) (P : α → Prop) : Prop := ∀ p, a.Ends p (fun x _ => P x) fun _ => True

section

variable {P : α → Prop} {Q : β → Prop} {a : Action σ α} {f : α → Action σ β}

/-- A result that is there already has its property. -/
theorem makes_pure {x : α} (hx : P x) : (pure x : Action σ α).Makes P := fun _ => hx

/-- A failure makes nothing. -/
theorem makes_reject (d : Parser σ → Diagnostic) : (reject d : Action σ α).Makes P :=
  fun _ => trivial

/-- What a sequence makes has the property that its second part gives it, from that of the first
result. -/
theorem Makes.bind (ha : a.Makes P) (hf : ∀ x, P x → (f x).Makes Q) : (a >>= f).Makes Q :=
  fun p => (ends_bind ..).2 <| (ha p).imp fun x q hx => hf x hx q

/-- What is read first may not matter. -/
theorem makes_then (hf : ∀ x, (f x).Makes Q) : (a >>= f).Makes Q := by
  have ha : a.Makes fun _ => True := fun p => by
    rw [ends_iff]
    exact ⟨fun _ _ _ => trivial, fun _ _ => trivial⟩
  exact ha.bind fun x _ => hf x

/-- What is attempted has its property, if it is made. -/
theorem Makes.attempt (ha : a.Makes P) : (attempt a).Makes fun x => ∀ y ∈ x, P y := fun p =>
  (ends_attempt ..).2 <| (ha p).mono (fun _ _ hx _ hy => Option.some.inj hy ▸ hx)
    fun _ _ _ hy => nomatch hy

/-- The `;` after a statement does not change it. -/
theorem Makes.thenSemicolon (ha : a.Makes P) : (thenSemicolon a).Makes P := fun p =>
  (ends_thenSemicolon ..).2 (ha p)

/-- It does not matter inside of how many expressions something is made. -/
theorem Makes.inExpr (ha : a.Makes P) : (inExpr a).Makes P := fun p =>
  (ends_inExpr ..).2 (ha p.enterExpr)

/-- Nor does it matter inside of how many blocks. -/
theorem Makes.inBlock (ha : a.Makes P) : (inBlock a).Makes P := fun p =>
  (ends_inBlock ..).2 (ha p.enterBlock)

/-- Nor does it matter what the journal notes about it. -/
theorem Makes.noted (ha : a.Makes P) : (noted a).Makes P := fun _ => (ends_noted ..).2 (ha _)

/-- If each round makes something with the property, all of them do. -/
theorem Makes.many {go : Parser σ → Bool} {shrinks : Shrinks go a} (ha : a.Makes P) :
    (many go a shrinks).Makes fun xs => ∀ x ∈ xs, P x := fun p =>
  ends_many (P := fun _ => True) (R := fun _ xs _ => ∀ x ∈ xs, P x) (B := fun _ _ => True)
    (fun _ _ _ => List.forall_mem_nil _)
    (fun q _ _ => (ha q).mono
      (fun _ _ hx =>
        ⟨trivial, fun _ _ _ hxs => List.forall_mem_cons.2 ⟨hx, hxs⟩, fun _ _ => trivial⟩)
      fun _ _ => trivial)
    p trivial

end

end Action

namespace Parsing

open MonkeySyntax.Action

variable {σ : Type} [TokenSource σ]

section

variable {n : Nat} {expr : Power → Phrase σ Expr}
  (h : ∀ bp, (expr bp).Makes fun e => e.rightNesting ≤ n)

include h

/-! ### Statements, blocks and lists -/

/-- A statement nests no deeper than its expression. -/
theorem anyStatement_nests : (anyStatement expr).Makes fun s => s.rightNesting ≤ n := by
  have hvalue := (h .lowest).thenSemicolon
  refine makes_then fun t => ?_
  split
  · exact makes_then fun _ => makes_then fun _ => makes_then fun _ => makes_then fun _ =>
      makes_then fun _ => hvalue.bind fun _ he => makes_pure he
  · refine makes_then fun _ => makes_then fun b => ?_
    split
    · exact makes_then fun _ => makes_pure (Nat.zero_le n)
    · refine makes_then fun b => ?_
      split
      · exact makes_pure (Nat.zero_le n)
      · refine makes_then fun b => ?_
        split
        · exact makes_pure (Nat.zero_le n)
        · exact makes_then fun _ => hvalue.bind fun _ he => makes_pure he
  · exact makes_then fun _ => hvalue.bind fun _ he => makes_pure he

/-- Nor does one of a block, if it was read. -/
theorem blockItem_nests : (blockItem expr).Makes fun s => ∀ s' ∈ s, s'.rightNesting ≤ n := by
  refine makes_then fun b => ?_
  split
  · exact makes_reject _
  · exact (anyStatement_nests h).noted.attempt.bind fun _ hs => makes_then fun _ => makes_pure hs

/-- A block nests as deeply as what it is made of. -/
theorem block_nests : (block expr).Makes fun b => b.rightNesting ≤ n := by
  refine makes_then fun t => makes_then fun _ => ?_
  refine (blockItem_nests h).many.inBlock.bind fun body hbody => makes_pure ?_
  refine Stmt.rightNestingAll_le_iff.2 fun s hs => ?_
  obtain ⟨s', hs', heq⟩ := List.mem_filterMap.1 hs
  exact hbody s' hs' s heq

/-- A list nests no deeper than the expressions in it. -/
theorem expressions_nest (close : Mark) :
    (expressions expr close).Makes fun es => Expr.rightNestingAll es ≤ n := by
  have hnext : (nextExpression expr).Makes fun e => e.rightNesting ≤ n :=
    makes_then fun _ => makes_then fun _ => h _
  refine makes_then fun b => ?_
  split
  · exact makes_then fun _ => makes_pure (Nat.zero_le n)
  · refine makes_then fun _ => (h _).bind fun e he => hnext.many.bind fun es hes =>
      makes_then fun _ => makes_pure ?_
    exact Expr.rightNestingAll_le_iff.2 (List.forall_mem_cons.2 ⟨he, hes⟩)

/-- A hash nests no deeper than its keys and values. -/
theorem pairs_nest : (pairs expr).Makes fun ps => Expr.rightNestingPairs ps ≤ n := by
  have hkey : (key expr).Makes fun e => e.rightNesting ≤ n :=
    makes_then fun _ => (h _).bind fun _ hk => makes_then fun _ => makes_pure hk
  have hpair : (pair expr).Makes fun x => x.1.rightNesting ≤ n ∧ x.2.rightNesting ≤ n := by
    refine hkey.bind fun k hk => makes_then fun _ => (h _).bind fun v hv => makes_then fun b => ?_
    split
    · exact makes_pure ⟨hk, hv⟩
    · exact makes_then fun _ => makes_pure ⟨hk, hv⟩
  exact hpair.many.bind fun _ hps => makes_then fun _ =>
    makes_pure (Expr.rightNestingPairs_le_iff.2 hps)

/-! ### Expressions -/

/-- An alternative nests no deeper than the statements in it. -/
theorem alternative_nests :
    (alternative expr).Makes fun b => ∀ b' ∈ b, b'.rightNesting ≤ n := by
  refine makes_then fun b => ?_
  split
  · exact makes_then fun _ => makes_then fun _ => (block_nests h).bind fun _ hb =>
      makes_pure fun _ heq => Option.some.inj heq ▸ hb
  · exact makes_pure fun _ heq => nomatch heq

omit h in
/-- A name or a literal does not nest at all. -/
theorem primary_nests : (primary : Phrase σ Expr).Makes fun e => e.rightNesting ≤ n + 1 := by
  refine makes_then fun t => ?_
  split
  case h_2 =>
    split
    · exact makes_pure (Nat.le_add_left 1 n)
    · exact makes_reject _
  case h_6 => exact makes_reject _
  all_goals exact makes_pure (Nat.le_add_left 1 n)

/-- **A prefix rule** makes a tree that nests by one more than the expressions it reads. -/
theorem applyPrefix_nests (rule : PrefixRule) :
    (applyPrefix expr rule).Makes fun e => e.rightNesting ≤ n + 1 := by
  cases rule with
  | primary => exact primary_nests
  | operator =>
    exact makes_then fun _ => makes_then fun _ => (h _).bind fun _ he =>
      makes_pure (Nat.succ_le_succ he)
  | grouping =>
    exact makes_then fun _ => (h _).bind fun _ he => makes_then fun _ =>
      makes_pure (Nat.le_succ_of_le he)
  | conditional =>
    refine makes_then fun _ => makes_then fun _ => (h _).bind fun _ hc => makes_then fun _ =>
      (block_nests h).bind fun _ hb => (alternative_nests h).bind fun a ha => makes_pure ?_
    cases a with
    | none => exact Nat.succ_le_succ (Nat.max_le.2 ⟨hc, hb⟩)
    | some a => exact Nat.succ_le_succ (Nat.max_le.2 ⟨hc, Nat.max_le.2 ⟨hb, ha a rfl⟩⟩)
  | function =>
    exact makes_then fun _ => makes_then fun _ => makes_then fun _ =>
      (block_nests h).bind fun _ hb => makes_pure (Nat.succ_le_succ hb)
  | array =>
    exact makes_then fun _ => (expressions_nest h _).bind fun _ hes =>
      makes_pure (Nat.succ_le_succ hes)
  | hash =>
    exact makes_then fun _ => (pairs_nest h).bind fun _ hps => makes_pure (Nat.succ_le_succ hps)

/-- **An infix rule** does so too, if the operand left of it does not nest more deeply. -/
theorem applyInfix_nests (rule : InfixRule) {left : Expr} (hl : left.rightNesting ≤ n + 1) :
    (applyInfix expr rule left).Makes fun e => e.rightNesting ≤ n + 1 := by
  cases rule with
  | binary =>
    exact makes_then fun _ => makes_then fun _ => makes_then fun _ => (h _).bind fun _ he =>
      makes_pure (Nat.max_le.2 ⟨hl, Nat.succ_le_succ he⟩)
  | call =>
    exact makes_then fun _ => (expressions_nest h _).bind fun _ hes =>
      makes_pure (Nat.max_le.2 ⟨hl, Nat.succ_le_succ hes⟩)
  | index =>
    exact makes_then fun _ => makes_then fun _ => (h _).bind fun _ he => makes_then fun _ =>
      makes_pure (Nat.max_le.2 ⟨hl, Nat.succ_le_succ he⟩)

/-- **An expression nests one deeper than those inside of it** at most, however many operators
extend it to the right. -/
theorem exprUnder_nests (bp : Power) :
    (exprUnder expr bp).Makes fun e => e.rightNesting ≤ n + 1 := by
  have hoperand : (operandAction expr).Makes fun e => e.rightNesting ≤ n + 1 := by
    intro p
    rw [ends_iff]
    simp only [operandAction]
    split
    · exact ends_iff.1 (applyPrefix_nests h _ p)
    · exact ends_iff.1 (makes_reject (P := fun e : Expr => e.rightNesting ≤ n + 1) _ p)
  refine hoperand.bind fun left hl p => ?_
  -- however often the loop goes round, what was read so far is a left operand again
  exact (ends_extend (I := fun e _ => e.rightNesting ≤ n + 1) (B := fun _ => True)
    (fun _ q rule he _ => applyInfix_nests h rule he q.advance) left p hl).imp fun _ _ he => he.1

end

/-- **The room that a reader has bounds the trees it makes.** -/
theorem exprAt_nests (room : Nat) (bp : Power) :
    (exprAt room bp : Phrase σ Expr).Makes fun e => e.rightNesting ≤ room := by
  induction room generalizing bp with
  | zero => exact makes_reject _
  | succ room ih => exact (exprUnder_nests ih bp).inExpr

end Parsing

/-- The statements of a program nest within the limit. -/
theorem Parser.statements_nest {σ : Type} [TokenSource σ] (p : Parser σ) :
    Stmt.rightNestingAll p.statements.1 ≤ nestingLimit := by
  have hexpr : ∀ bp, (Parsing.expression bp : Phrase σ Expr).Makes
      fun e => e.rightNesting ≤ nestingLimit := fun bp p =>
    (Parsing.exprAt_nests (nestingLimit - p.exprDepth) bp p).imp fun _ _ he =>
      Nat.le_trans he (Nat.sub_le ..)
  refine Parser.statements_ind (R := fun _ ss _ => Stmt.rightNestingAll ss ≤ nestingLimit)
    (fun _ _ => Nat.zero_le _) (fun p _ => ?_) p
  exact ((Parsing.anyStatement_nests hexpr).noted p).mono
    (fun _ _ hs _ _ hss => Nat.max_le.2 ⟨hs, hss⟩) fun _ _ _ _ hss => hss

/-- **What is read nests within what is left of the limit.**  An expression that is read inside of
`d` others nests to the right at most as deeply as the limit is above `d`, and one that is read with
room for `room` more at most as deeply as that.  So no expression in a program, at any depth of
blocks, nests more deeply than the limit.  It does not matter what the tokens are, where the parser
is, by which grammar it reads, or whether something was wrong. -/
theorem rightNesting_le {σ : Type} [TokenSource σ] :
    (∀ (bp : Power) (p q : Parser σ) (e : Expr),
      (Parsing.expression bp).run p = (some e, q) →
        e.rightNesting ≤ nestingLimit - p.exprDepth) ∧
    (∀ (room : Nat) (bp : Power) (p q : Parser σ) (e : Expr),
      (Parsing.exprAt room bp).run p = (some e, q) → e.rightNesting ≤ room) ∧
    ∀ (p : Parser σ) (e : Expr), .expr e ∈ p.program.1.nodes → e.rightNesting ≤ nestingLimit := by
  refine ⟨fun bp p q e hrun => ?_, fun room bp p q e hrun => ?_, fun p e he => ?_⟩
  · exact (Parsing.exprAt_nests (nestingLimit - p.exprDepth) bp p).of_some hrun
  · exact (Parsing.exprAt_nests room bp p).of_some hrun
  · exact Stmt.nodesAll_nestWithin p.statements.1 p.statements_nest (.expr e) he

/-- A parser at `-x` with room for two more expressions. -/
def twoBelowLimit : Parser Stream :=
  { Parser.start (Stream.ofList [⟨.mark .dash, "-", .null⟩, ⟨.identifier, "x", .null⟩]) with
    exprDepth := 254 }

/-- The room is used up: `-x` takes both. -/
theorem rightNesting_le_negation : ∃ e q,
    (Parsing.expression .lowest).run twoBelowLimit = (some e, q) ∧ e.rightNesting = 2 ∧
      e.rightNesting ≤ nestingLimit - twoBelowLimit.exprDepth := by
  have hresult : ((Parsing.expression .lowest).run twoBelowLimit).1 =
      some (.prefixOp ⟨.mark .dash, "-", .null⟩ "-"
        (.identifier ⟨⟨.identifier, "x", .null⟩, "x"⟩)) := by decide +kernel
  have hrun := Prod.ext (y := (_, ((Parsing.expression .lowest).run twoBelowLimit).2)) hresult rfl
  exact ⟨_, _, hrun, rfl, rightNesting_le.1 _ _ _ _ hrun⟩

end MonkeySyntax

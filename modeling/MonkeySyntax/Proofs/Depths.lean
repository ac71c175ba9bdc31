/-
# The depths of a parser

A parser counts the expressions and the blocks that it is inside of.  Both counts go up by one and
down by one, in different places, and an action may fail in between.  Still every action puts them
back (`depths_restored`), and from the start of a program to its end

* no count goes down that is not above zero,
* expressions nest at most `nestingLimit` deep, and blocks no deeper than expressions.

The second part is about what happens on the way, which the journal notes: `p.depths` are the
depths that `p` was at so far.  A block is only entered inside of a conditional or a function, so
there is an expression around it that the block before it is not in.  That is why actions at the
depth of a rule (`b < d`) and those at the depth of a statement (`b ≤ d`) are told apart here.
-/

import Mathlib.Data.List.Chain
import MonkeySyntax.Proofs.Leads

namespace MonkeySyntax

/-- How many expressions and blocks a parser is inside of. -/
structure Depths where
  exprs : Nat
  blocks : Nat
  deriving DecidableEq, Repr

namespace Depths

/-- Into an expression or a block, or out of one. -/
inductive Step : Depths → Depths → Prop
  | intoExpr (m n : Nat) : Step ⟨m, n⟩ ⟨m + 1, n⟩
  | outOfExpr (m n : Nat) : Step ⟨m + 1, n⟩ ⟨m, n⟩
  | intoBlock (m n : Nat) : Step ⟨m, n⟩ ⟨m, n + 1⟩
  | outOfBlock (m n : Nat) : Step ⟨m, n + 1⟩ ⟨m, n⟩

/-- Expressions nest within the limit, and blocks no deeper than they do. -/
def Bounded (d : Depths) : Prop := d.exprs ≤ nestingLimit ∧ d.blocks ≤ d.exprs

end Depths

/-- The depths that an event notes. -/
def Event.depths? : Event → Option Depths
  | .depths exprs blocks => some ⟨exprs, blocks⟩
  | _ => none

variable {σ : Type}

/-- The depths that a parser was at since it started, the present ones first. -/
def Parser.depths (p : Parser σ) : List Depths := p.journal.filterMap Event.depths? ++ [⟨0, 0⟩]

/-- A parser came to the depths `m` and `n` step by step and within bounds. -/
structure Parser.At (m n : Nat) (p : Parser σ) : Prop where
  exprDepth : p.exprDepth = m
  blockDepth : p.blockDepth = n
  head : p.depths.head? = some ⟨m, n⟩
  steps : p.depths.IsChain fun d e => e.Step d
  bounded : ∀ d ∈ p.depths, d.Bounded

namespace Parser.At

variable {m n m' n' : Nat} {p q : Parser σ}

/-- Counts and journal aside, a parser may be anywhere. -/
theorem of_eq (h : p.At m n) (he : q.exprDepth = p.exprDepth) (hb : q.blockDepth = p.blockDepth)
    (hd : q.depths = p.depths) : q.At m n where
  exprDepth := he.trans h.exprDepth
  blockDepth := hb.trans h.blockDepth
  head := by rw [hd, h.head]
  steps := by rw [hd]; exact h.steps
  bounded := by rw [hd]; exact h.bounded

/-- Where a statement is begun, the depths are the same. -/
theorem began (h : p.At m n) (t : Token) : (p.note (.began t)).At m n := h.of_eq rfl rfl rfl

/-- Where one was read, the depths are the same. -/
theorem kept (h : p.At m n) : (p.note .kept).At m n := h.of_eq rfl rfl rfl

/-- Where one is dropped, the depths are the same. -/
theorem dropped (h : p.At m n) : (p.note .dropped).At m n := h.of_eq rfl rfl rfl

/-- **One step further.** -/
theorem step (h : p.At m n) (hstep : Depths.Step ⟨m, n⟩ ⟨m', n'⟩)
    (hbounded : Depths.Bounded ⟨m', n'⟩) : (p.atDepths m' n').At m' n' := by
  have hdepths : (p.atDepths m' n').depths = ⟨m', n'⟩ :: p.depths := rfl
  refine ⟨rfl, rfl, by rw [hdepths, List.head?_cons], ?_, ?_⟩
  · have hhead := h.head
    have hsteps := h.steps
    rw [hdepths]
    rcases hp : p.depths with _ | ⟨d, ds⟩
    · exact .singleton _
    · rw [hp] at hhead hsteps
      obtain rfl := Option.some.inj hhead
      exact .cons_cons hstep hsteps
  · rw [hdepths, List.forall_mem_cons]
    exact ⟨hbounded, h.bounded⟩

/-- Into an expression, below the limit and with fewer blocks around it than it will be deep. -/
theorem enterExpr (h : p.At m n) (hm : m < nestingLimit) (hn : n ≤ m) :
    p.enterExpr.At (m + 1) n := by
  rw [Parser.enterExpr, h.exprDepth, h.blockDepth]
  exact h.step (.intoExpr m n) ⟨hm, Nat.le_succ_of_le hn⟩

/-- Out of an expression, to where it was entered. -/
theorem exitExpr (h : p.At (m + 1) n) (hm : m < nestingLimit) (hn : n ≤ m) :
    p.exitExpr.At m n := by
  rw [Parser.exitExpr, h.exprDepth, h.blockDepth, Nat.add_sub_cancel]
  exact h.step (.outOfExpr m n) ⟨Nat.le_of_lt hm, hn⟩

/-- Into a block, which an expression stands around that the block before does not. -/
theorem enterBlock (h : p.At m n) (hm : m ≤ nestingLimit) (hn : n < m) :
    p.enterBlock.At m (n + 1) := by
  rw [Parser.enterBlock, h.exprDepth, h.blockDepth]
  exact h.step (.intoBlock m n) ⟨hm, hn⟩

/-- Out of a block, to where it was entered. -/
theorem exitBlock (h : p.At m (n + 1)) (hm : m ≤ nestingLimit) (hn : n < m) :
    p.exitBlock.At m n := by
  rw [Parser.exitBlock, h.exprDepth, h.blockDepth, Nat.add_sub_cancel]
  exact h.step (.outOfBlock m n) ⟨hm, Nat.le_of_lt hn⟩

end Parser.At

variable [TokenSource σ]

/-- A parser starts outside of everything. -/
theorem Parser.at_start (s : σ) : (Parser.start s).At 0 0 where
  exprDepth := rfl
  blockDepth := rfl
  head := rfl
  steps := .singleton _
  bounded := by
    rintro d hd
    obtain rfl := List.mem_singleton.1 hd
    exact ⟨Nat.zero_le _, Nat.le_refl _⟩

/-- The course of the actions that begin and end inside of `m` expressions and `n` blocks. -/
def Course.level (m n : Nat) : Course σ where
  kept _ p q := p.At m n → q.At m n
  lost p q := p.At m n → q.At m n
  refl _ h := h
  trans h k := k ∘ h
  trans_lost h k := k ∘ h
  less _ h := h
  kept_advance _ h := h.of_eq rfl rfl rfl
  lost_report _ _ h := h.of_eq rfl rfl rfl
  lost_advance h hp := (h hp).of_eq rfl rfl rfl

namespace Parsing

open MonkeySyntax.Action

variable {m n : Nat} {expr : Power → Phrase σ Expr}

/-- **A statement keeps its level,** whether it is read or dropped. -/
theorem attempt_statement_level
    (h : ∀ bp, (Course.level m n).Follows (fun e => e.stmts.length) (expr bp).toAction) :
    (Course.level m n).Follows Stmt.count (attempt (statement expr)) := fun _ =>
  (ends_attempt ..).2 <| (ends_noted ..).2 <|
    (Course.follows_anyStatement h _).mono (fun _ _ hq hp => (hq (hp.began _)).kept)
      fun _ hq hp => (hq (hp.began _)).dropped

/-- **A block keeps its level,** if there are fewer blocks than expressions around it and the
expressions in it keep the level one block deeper. -/
theorem block_level (hm : m ≤ nestingLimit) (hn : n < m)
    (h : ∀ bp, (Course.level m (n + 1)).Follows (fun e => e.stmts.length) (expr bp).toAction) :
    (Course.level m n).Follows (fun b => b.stmts.length) (block expr).toAction := by
  have hin : ∀ p : Parser σ, p.At m n → p.advance.enterBlock.At m (n + 1) := fun p hp =>
    (show p.advance.At m n from hp.of_eq rfl rfl rfl).enterBlock hm hn
  exact Course.follows_block (Course.follows_blockItem (attempt_statement_level h)).many
    (fun _ p _ hq hp => (hq (hin p hp)).exitBlock hm hn)
    fun p _ hq hp => (hq (hin p hp)).exitBlock hm hn

/-- **An expression keeps its level,** as long as the room is what is left below the limit and there
are no more blocks around it than expressions. -/
theorem exprAt_level {room : Nat} (hroom : m + room = nestingLimit) (hn : n ≤ m) (bp : Power) :
    (Course.level m n).Follows (fun e => e.stmts.length)
      (exprAt room bp : Phrase σ Expr).toAction := by
  induction room generalizing m n bp with
  | zero => exact Course.follows_reject _
  | succ room ih =>
    have hlt : m < nestingLimit := by omega
    -- one expression deeper there are fewer blocks than expressions, so blocks can be entered
    have hexpr : ∀ n' ≤ m + 1, ∀ bp, (Course.level (m + 1) n').Follows (fun e => e.stmts.length)
        (exprAt room bp : Phrase σ Expr).toAction := fun n' hn' => ih (by omega) hn'
    have hblock := block_level hlt (Nat.lt_succ_of_le hn) (hexpr (n + 1) (Nat.succ_le_succ hn))
    have hunder := Course.follows_exprUnder (hexpr n (Nat.le_succ_of_le hn)) hblock bp
    intro p
    simp only [exprAt, ends_inExpr]
    exact (hunder p.enterExpr).mono (fun _ _ hq hp => (hq (hp.enterExpr hlt hn)).exitExpr hlt hn)
      fun _ hq hp => (hq (hp.enterExpr hlt hn)).exitExpr hlt hn

/-- **An expression keeps its level,** at whatever depth it is read: the room it gets is what is
left below the limit. -/
theorem expression_level (hm : m ≤ nestingLimit) (hn : n ≤ m) (bp : Power) :
    (Course.level m n).Follows (fun e => e.stmts.length)
      (expression bp : Phrase σ Expr).toAction := by
  intro p
  by_cases hp : p.exprDepth = m
  · exact exprAt_level (by omega) hn bp p
  · rw [ends_iff]
    exact ⟨fun _ _ _ h => absurd h.exprDepth hp, fun _ _ h => absurd h.exprDepth hp⟩

end Parsing

/-- **A program ends where it began,** outside of everything. -/
theorem Parser.statements_at {p : Parser σ} (hp : p.At 0 0) : p.statements.2.At 0 0 := by
  have hstatement := Parsing.attempt_statement_level (σ := σ)
    (Parsing.expression_level (Nat.zero_le nestingLimit) (Nat.le_refl 0))
  refine (Course.level 0 0).kept_statements (fun p _ => ?_) p hp
  exact (hstatement p).mono (fun _ _ hq hp => (hq hp).of_eq rfl rfl rfl) fun _ _ => trivial

/-! ### Whatever a caller asks for -/

/-- What a caller may ask for. -/
inductive Routine where
  | statement | letStatement | returnStatement | expressionStatement | block
  | expr (bp : Power)
  /-- An expression under a prefix rule. -/
  | operand (rule : PrefixRule)
  /-- The rest of an expression under an infix rule. -/
  | operator (rule : InfixRule) (left : Expr)

namespace Routine

/-- The parser after a routine, with or without a result, if expressions are read by `expr`. -/
def after (expr : Power → Phrase σ Expr) : Routine → Parser σ → Parser σ
  | statement, p => ((Parsing.statement expr).run p).2
  | letStatement, p => ((Parsing.letStatement expr).run p).2
  | returnStatement, p => ((Parsing.returnStatement expr).run p).2
  | expressionStatement, p => ((Parsing.expressionStatement expr).run p).2
  | block, p => ((Parsing.block expr).run p).2
  | .expr bp, p => ((expr bp).run p).2
  | operand rule, p => ((Parsing.applyPrefix expr rule).run p).2
  | operator rule left, p => ((Parsing.applyInfix expr rule left).run p).2

/-- Every routine leads on, if the reader of expressions follows the law. -/
theorem leads {expr : Power → Phrase σ Expr} (h : ∀ bp, Law.frame.Follows (expr bp).toAction)
    (r : Routine) (p : Parser σ) : p.Leads (r.after expr p) := by
  cases r with
  | statement => exact (Law.Settles.attempt (Law.settles_statement h)).leads p
  | letStatement => exact (Law.follows_letStatement h).leads p
  | returnStatement => exact (Law.follows_returnStatement h).leads p
  | expressionStatement => exact (Law.follows_expressionStatement h).leads p
  | block => exact (Law.follows_block h).leads p
  | expr bp => exact (h bp).leads p
  | operand rule => exact (Law.follows_applyPrefix h rule).leads p
  | operator rule left => exact (Law.follows_applyInfix h rule left).leads p

end Routine

/-- `q` reads by the same grammar as `p`, at the same depths. -/
def Parser.Level (p q : Parser σ) : Prop :=
  q.exprDepth = p.exprDepth ∧ q.blockDepth = p.blockDepth ∧ q.grammar = p.grammar

/-- **Whatever is read, the parser is put back to where it was.**  Every routine leaves the two
depths and the grammar as they were on entry, whether it has a result or not.  And while a program
is read, the depths change by one step at a time, expressions stay within the limit and blocks do
not nest more deeply than expressions, from the start to the end, where both depths are zero. -/
theorem depths_restored :
    (∀ (r : Routine) (p : Parser σ), p.Level (r.after Parsing.expression p)) ∧
    (∀ (room : Nat) (r : Routine) (p : Parser σ), p.Level (r.after (Parsing.exprAt room) p)) ∧
    ∀ s : σ,
      (Parser.start s).program.2.depths.head? = some ⟨0, 0⟩ ∧
      ((Parser.start s).program.2.depths.IsChain fun d e => e.Step d) ∧
      ∀ d ∈ (Parser.start s).program.2.depths, d.exprs ≤ nestingLimit ∧ d.blocks ≤ d.exprs := by
  refine ⟨fun r p => ?_, fun room r p => ?_, fun s => ?_⟩
  · have h := r.leads Law.frame.follows_expression p
    exact ⟨h.exprDepth, h.blockDepth, h.grammar⟩
  · have h := r.leads (Law.frame.follows_exprAt room) p
    exact ⟨h.exprDepth, h.blockDepth, h.grammar⟩
  · have h := Parser.statements_at (Parser.at_start s)
    exact ⟨h.head, h.steps, h.bounded⟩

end MonkeySyntax

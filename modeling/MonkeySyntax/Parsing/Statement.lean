/-
# Reading statements and blocks

Three statements are read, by their first token: `let`, `return`, and any other token as the start
of an expression.  Each may end with a `;`.  How an expression is read is a parameter here, `expr`,
because expressions hold blocks and blocks hold statements.

A statement that fails inside a block is dropped, and the block goes on after the token at which
it failed.  If that token is a `}` the block ends with it.
-/

import MonkeySyntax.Parsing.Many
import MonkeySyntax.Tree

namespace MonkeySyntax
namespace Parsing

open MonkeySyntax.Action

variable {σ : Type} [TokenSource σ]

/-- A name made of the token `t`. -/
def nameOf (t : Token) : Identifier := ⟨t, t.value⟩

/-- The current token as a name. -/
def currentName : Action σ Identifier := do
  let t ← current
  return nameOf t

variable (expr : Power → Phrase σ Expr)

/-- `let`, a name, `=` and an expression. -/
def letStatement : Action σ Stmt := do
  let t ← current
  expect .identifier
  let name ← currentName
  expect (.mark .assign)
  advance
  let value ← thenSemicolon (expr .lowest).toAction
  return .letBinding t name value

/-- `return`, with an expression unless the statement ends there. -/
def returnStatement : Action σ Stmt := do
  let t ← current
  if ← peekIs (.mark .semicolon) then
    advance
    return .returnValue t none
  else if ← peekIs (.mark .closeCurly) then
    return .returnValue t none
  else if ← peekIs .eof then
    return .returnValue t none
  else
    advance
    let value ← thenSemicolon (expr .lowest).toAction
    return .returnValue t (some value)

/-- An expression alone. -/
def expressionStatement : Action σ Stmt := do
  let t ← current
  let value ← thenSemicolon (expr .lowest).toAction
  return .expression t value

/-- A statement of whichever form its first token begins. -/
def anyStatement : Action σ Stmt := do
  let t ← current
  match t.kind with
  | .keyword .letWord => letStatement expr
  | .keyword .returnWord => returnStatement expr
  | _ => expressionStatement expr

/-- A statement, noted in the journal. -/
def statement : Action σ Stmt := noted (anyStatement expr)

/-- Moves on after a statement of a block, unless it failed at a `}`. -/
def afterStatement (s : Option Stmt) : Action σ Unit := do
  if !(← currentIs (.mark .closeCurly)) || s.isSome then advance

/-- One statement of a block, or none where one failed. -/
def blockItem : Action σ (Option Stmt) := do
  if ← currentIs .eof then
    reject fun p => ⟨.unexpectedToken (.mark .closeCurly) .eof, p.current.start⟩
  else
    let s ← attempt (statement expr)
    afterStatement s
    return s

/-- Whether a block goes on at the current token. -/
def inBody (p : Parser σ) : Bool := p.current.kind ≠ .mark .closeCurly

/-- One round of a block takes at least one token: it moves on from where its statement stopped,
unless that failed at a `}`, and at a `}` no round begins. -/
theorem blockItem_shrinks : Shrinks inBody (blockItem expr) := by
  intro p s hp hs
  have ho := (statement expr).onward p
  simp only [inBody, decide_eq_true_eq] at hp
  simp only [blockItem, currentIs, run_bind] at hs ⊢
  by_cases he : p.current.kind = .eof
  · simp [he, reject] at hs
  · simp only [he, decide_false, Bool.false_eq_true, if_false, run_bind, attempt, afterStatement,
      currentIs, run_pure] at hs ⊢
    split
    · rename_i x q hq
      split at hq
      · cases hq
        exact ho.left_advance_lt he
      · rename_i hc
        cases hq
        refine ho.left_lt he fun heq => ?_
        simp only [Bool.or_eq_true, Bool.not_eq_true', decide_eq_false_iff_not, not_or,
          Decidable.not_not] at hc
        exact hp ((congrArg Token.kind heq).symm.trans hc.1)
    · rename_i q hq
      split at hq <;> cases hq

/-- Statements between curly brackets.  The current token is the opening bracket. -/
def blockAction : Action σ Block := do
  let t ← current
  advance
  let body ← inBlock (many inBody (blockItem expr) (blockItem_shrinks expr))
  return .mk t (body.filterMap id)

/-- A block ends at a `}`, since its rounds go on up to one. -/
theorem blockAction_lands : (blockAction expr).Lands := by
  refine .of_second fun t => .of_second fun _ => ?_
  refine Lands.bind ?_ fun _ => stays_pure _
  intro p x hx
  have h := not_go_of_many hx
  simp only [inBody, decide_eq_false_iff_not, Decidable.not_not] at h
  intro he
  have hk :
      ((many inBody (blockItem expr) (blockItem_shrinks expr)).run p.enterBlock).2.current.kind
        = .eof := he
  rw [h] at hk
  cases hk

/-- Statements between curly brackets, which end at the closing bracket. -/
def block : Phrase σ Block := ⟨blockAction expr, blockAction_lands expr⟩

end Parsing
end MonkeySyntax

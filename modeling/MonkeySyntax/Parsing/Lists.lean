/-
# Lists between brackets

Parameters, the expressions of an array or a call, and the pairs of a hash are separated by
commas.  After the last pair of a hash a comma may stand; in the other lists it may not.

| list | goes on | ends |
| --- | --- | --- |
| parameters | at a comma | at `)` |
| expressions | at a comma | at the closing mark |
| pairs | unless a closing bracket follows | at that bracket |
-/

import MonkeySyntax.Parsing.Statement

namespace MonkeySyntax
namespace Parsing

open MonkeySyntax.Action

variable {σ : Type} [TokenSource σ]

/-- A further parameter: a comma and a name. -/
def nextParameter : Action σ Identifier := do
  advance
  expect .identifier
  currentName

/-- Whether a list of parameters or expressions goes on. -/
def commaFollows (p : Parser σ) : Bool := p.peek.kind = .mark .comma

/-- A further parameter takes at least the comma before it. -/
theorem nextParameter_shrinks : Shrinks (σ := σ) commaFollows nextParameter := by
  intro p x hp hx
  refine Window.Onward.left_lt_of_peek ?_ (Kind.mark_ne_eof (of_decide_eq_true hp))
  simp only [nextParameter, run_advance_bind, run_expect_bind] at hx ⊢
  split at hx
  · rename_i hi
    rw [if_pos hi]
    exact (currentName : Action σ Identifier).onward p.advance.advance
  · simp at hx

/-- The parameters of a function.  The current token is the one before the opening bracket. -/
def parameters : Action σ (List Identifier) := do
  expect (.mark .openParen)
  if ← peekIs (.mark .closeParen) then
    advance
    return []
  else
    expect .identifier
    let first ← currentName
    let others ← many commaFollows nextParameter nextParameter_shrinks
    expect (.mark .closeParen)
    return first :: others

variable (expr : Power → Phrase σ Expr)

/-- A further expression of a list: a comma and the expression. -/
def nextExpression : Action σ Expr := do
  advance
  advance
  (expr .lowest).toAction

/-- A further expression takes at least the comma before it. -/
theorem nextExpression_shrinks : Shrinks commaFollows (nextExpression expr) := fun p _ hp _ =>
  Window.Onward.left_lt_of_peek ((expr .lowest).onward p.advance.advance)
    (Kind.mark_ne_eof (of_decide_eq_true hp))

/-- Expressions between the current token and the mark `close`, with commas in between. -/
def expressions (close : Mark) : Action σ (List Expr) := do
  if ← peekIs (.mark close) then
    expect (.mark close)
    return []
  else
    advance
    let first ← (expr .lowest).toAction
    let others ← many commaFollows (nextExpression expr) (nextExpression_shrinks expr)
    expect (.mark close)
    return first :: others

/-- A list of expressions ends at its closing mark. -/
theorem expressions_lands (close : Mark) : (expressions expr close).Lands := by
  refine .of_second fun b => ?_
  cases b
  · exact .of_second fun _ => .of_second fun _ => .of_second fun _ =>
      (lands_expect (by simp)).bind fun _ => stays_pure _
  · exact (lands_expect (by simp)).bind fun _ => stays_pure _

/-- A key and `:`.  The current token is the one before the key. -/
def key : Action σ Expr := do
  advance
  let k ← (expr .lowest).toAction
  expect (.mark .colon)
  return k

/-- A key and its value, and the comma after them unless a `}` follows. -/
def pair : Action σ (Expr × Expr) := do
  let k ← key expr
  advance
  let v ← (expr .lowest).toAction
  if ← peekIs (.mark .closeCurly) then
    return (k, v)
  else
    expect (.mark .comma)
    return (k, v)

/-- Whether a hash goes on after the current token. -/
def inHash (p : Parser σ) : Bool := p.peek.kind ≠ .mark .closeCurly

/-- A key and its `:` take at least one token: the one that the key ends with. -/
theorem key_shrinks : Shrinks inHash (key expr) := by
  intro p x _ hx
  have ho := ((expr .lowest).onward p.advance).left_le
  simp only [key, run_advance_bind] at hx ⊢
  obtain ⟨k, hk, h⟩ := run_bind_eq_some hx
  rw [h] at hx ⊢
  have hl := (expr .lowest).lands p.advance k hk
  generalize ((expr .lowest).run p.advance).2 = q at hl ho hx ⊢
  rw [run_expect_bind] at hx ⊢
  split at hx
  · rename_i hc
    rw [if_pos hc]
    have h₁ := p.window.left_advance
    have h₂ := q.window.left_advance
    rw [show q.window.current.weight = 1 from Token.weight_eq_one hl] at h₂
    simp only [run_pure, Parser.window_advance] at ho ⊢
    omega
  · simp at hx

/-- The pairs of a hash and its closing bracket. -/
def pairs : Action σ (List (Expr × Expr)) := do
  let ps ← many inHash (pair expr) ((key_shrinks expr).bind _)
  expect (.mark .closeCurly)
  return ps

/-- The pairs of a hash end at its closing bracket. -/
theorem pairs_lands : (pairs expr).Lands :=
  .of_second fun _ => (lands_expect (by decide)).bind fun _ => stays_pure _

end Parsing
end MonkeySyntax

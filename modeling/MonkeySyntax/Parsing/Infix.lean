/-
# Infix rules

How a token of a given kind continues the expression before it.  Each rule begins at that token,
with the expression before it as `left`, and ends at the last token of what it read.

| rule | reads |
| --- | --- |
| binary | an operator and its right operand |
| call | arguments between brackets |
| index | an expression between square brackets |
-/

import MonkeySyntax.Parsing.Lists

namespace MonkeySyntax
namespace Parsing

open MonkeySyntax.Action

variable {σ : Type} [TokenSource σ]

variable (expr : Power → Phrase σ Expr)

/-- An operator and its right operand.  That operand is read at the operator's own power, so a
chain of operators of one power groups to the left. -/
def binary (left : Expr) : Phrase σ Expr where
  toAction := do
    let t ← current
    let power ← currentPower
    advance
    let right ← (expr power).toAction
    return .infixOp t left t.value right
  lands := .of_second fun _ => .of_second fun _ => .of_second fun _ =>
    (expr _).lands.bind fun _ => stays_pure _

/-- The arguments of a call. -/
def call (callee : Expr) : Phrase σ Expr where
  toAction := do
    let t ← current
    let arguments ← expressions expr .closeParen
    return .call t callee arguments
  lands := .of_second fun _ => (expressions_lands expr _).bind fun _ => stays_pure _

/-- An index between square brackets. -/
def index (left : Expr) : Phrase σ Expr where
  toAction := do
    let t ← current
    advance
    let i ← (expr .lowest).toAction
    expect (.mark .closeBracket)
    return .index t left i
  lands := .of_second fun _ => .of_second fun _ => .of_second fun _ =>
    (lands_expect (by decide)).bind fun _ => stays_pure _

/-- The rest of an expression under an infix rule, from the operator on. -/
def applyInfix : InfixRule → Expr → Phrase σ Expr
  | .binary => binary expr
  | .call => call expr
  | .index => index expr

end Parsing
end MonkeySyntax

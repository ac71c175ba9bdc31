/-
# Reading expressions

An expression is read from left to right.  The prefix rule of its first token reads the first
operand, and as long as the next token binds tighter than the power asked for, its infix rule
takes what was read so far as its left operand.  A `;` always ends an expression.

Rules read the expressions inside of them through a parameter, `expr`, which is the reader for one
level deeper.  `exprAt room` allows `room` more levels, and `expression` as many as are left below
`nestingLimit`.
-/

import MonkeySyntax.Parsing.Infix
import MonkeySyntax.Parsing.Prefix

namespace MonkeySyntax
namespace Parsing

open MonkeySyntax.Action

variable {σ : Type} [TokenSource σ]

variable (expr : Power → Phrase σ Expr)

/-- The rule by which the next token continues an expression that is read at power `bp`. -/
def nextRule (bp : Power) (p : Parser σ) : Option InfixRule :=
  if p.peek.kind = .mark .semicolon then none
  else
    match p.grammar.infixRule p.peek.kind with
    | some (power, rule) => if bp < power then some rule else none
    | none => none

/-- The rounds of `extend` from the parser `p`. -/
def extendFrom (bp : Power) (left : Expr) (p : Parser σ) : Option Expr × Parser σ :=
  match nextRule bp p with
  | none => (some left, p)
  | some rule =>
    match _hr : (applyInfix expr rule left).run p.advance with
    | (none, q) => (none, q)
    | (some e, q) => extendFrom bp e q
termination_by p.window.ahead
decreasing_by
  have ho := (applyInfix expr rule left).onward p.advance
  have hl := (applyInfix expr rule left).lands p.advance e (by rw [_hr])
  rw [_hr] at ho hl
  exact ho.ahead_lt hl

/-- Extending an expression moves the window onward. -/
theorem extendFrom_onward (bp : Power) (left : Expr) (p : Parser σ) :
    p.window.Onward (extendFrom expr bp left p).2.window := by
  fun_induction extendFrom expr bp left p with
  | case1 => exact .refl _
  | case2 left p rule _ q hr =>
    have ho := (applyInfix expr rule left).onward p.advance
    rw [hr] at ho
    exact .step ho
  | case3 left p rule _ e q hr ih =>
    have ho := (applyInfix expr rule left).onward p.advance
    rw [hr] at ho
    exact .step (ho.trans ih)

/-- Takes `left` as the left operand of the operators that follow and bind tighter than `bp`. -/
def extend (bp : Power) (left : Expr) : Action σ Expr :=
  ⟨extendFrom expr bp left, extendFrom_onward expr bp left⟩

/-- **One round of an extension.** -/
theorem run_extend (bp : Power) (left : Expr) (p : Parser σ) :
    (extend expr bp left).run p =
      match nextRule bp p with
      | none => (some left, p)
      | some rule => ((applyInfix expr rule left).toAction >>= extend expr bp).run p.advance := by
  simp only [extend]
  rw [extendFrom]
  split
  · rfl
  · rw [run_bind]
    split <;> simp_all [extend]

/-- An expression ends where it was, or with the last operator that extended it. -/
theorem extend_stays (bp : Power) (left : Expr) : (extend expr bp left).Stays := by
  intro p x hp hx
  simp only [extend] at hx ⊢
  fun_induction extendFrom expr bp left p with
  | case1 => exact hp
  | case2 => simp at hx
  | case3 left p rule _ e q hr ih =>
    have hl := (applyInfix expr rule left).lands p.advance e (by rw [hr])
    rw [hr] at hl
    exact ih hl hx

/-- The first operand of an expression. -/
def operandAction : Action σ Expr where
  run p :=
    match p.grammar.prefixRule p.current.kind with
    | some rule => (applyPrefix expr rule).run p
    | none => (none, p.report p.noPrefix)
  onward p := by
    split
    · exact (applyPrefix expr _).onward p
    · exact .refl _

/-- An operand ends in a token of the input, as each prefix rule does. -/
theorem operandAction_lands : (operandAction expr).Lands := by
  intro p x hx
  simp only [operandAction] at hx ⊢
  split at hx
  · exact (applyPrefix expr _).lands p x hx
  · simp at hx

/-- An expression whose operators all bind tighter than `bp`. -/
def exprUnder (bp : Power) : Phrase σ Expr where
  toAction := operandAction expr >>= extend expr bp
  lands := (operandAction_lands expr).bind (extend_stays expr bp)

/-- An expression whose operators all bind tighter than `bp`, and in which expressions nest at most
`room` deep. -/
def exprAt : Nat → Power → Phrase σ Expr
  | 0, _ => ⟨reject Parser.tooDeep, lands_reject _⟩
  | room + 1, bp => ⟨inExpr (exprUnder (exprAt room) bp).toAction, (exprUnder _ bp).lands.inExpr⟩

/-- An expression whose operators all bind tighter than `bp`, at the depth where the parser is. -/
def expression (bp : Power) : Phrase σ Expr where
  run p := (exprAt (nestingLimit - p.exprDepth) bp).run p
  onward p := (exprAt (nestingLimit - p.exprDepth) bp).onward p
  lands p := (exprAt (nestingLimit - p.exprDepth) bp).lands p

end Parsing
end MonkeySyntax

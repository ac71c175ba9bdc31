/-
# Prefix rules

How an expression is read that starts with a token of a given kind.  Each rule begins at that token
and ends at the last token of what it read.

| rule | reads |
| --- | --- |
| primary | a name, a number in range, a string, `true` or `false` |
| operator | an operator and its operand |
| grouping | an expression between brackets, which leave no trace |
| conditional | `if`, a condition, a block, and perhaps `else` and a block |
| function | `fn`, parameters and a block |
| array, hash | expressions or pairs between brackets |

The expressions inside are read by `expr`.
-/

import MonkeySyntax.Numeral
import MonkeySyntax.Parsing.Lists

namespace MonkeySyntax
namespace Parsing

open MonkeySyntax.Action

variable {σ : Type} [TokenSource σ]

/-- A name or a literal. -/
def primaryAction : Action σ Expr := do
  let t ← current
  match t.kind with
  | .identifier => return .identifier (nameOf t)
  | .integer =>
    match Numeral.int64? t.value with
    | some n => return .integer t n
    | none => reject fun _ => ⟨.integerRange t.value, t.start⟩
  | .string => return .string t t.value
  | .keyword .trueWord => return .boolean t true
  | .keyword .falseWord => return .boolean t false
  | _ => reject fun p => p.noPrefix

/-- A name or a literal ends in its own token, which is not the end of the input. -/
theorem primaryAction_lands : (primaryAction : Action σ Expr).Lands := by
  intro p x hx he
  simp only [primaryAction, current, run_bind] at hx he
  split at hx
  case h_2 => split at hx <;> simp_all [reject, Parser.current]
  all_goals simp_all [reject, Parser.current]

/-- A name or a literal. -/
def primary : Phrase σ Expr := ⟨primaryAction, primaryAction_lands⟩

variable (expr : Power → Phrase σ Expr)

/-- An operator and its operand. -/
def prefixOperator : Phrase σ Expr where
  toAction := do
    let t ← current
    advance
    let right ← (expr .prefixed).toAction
    return .prefixOp t t.value right
  lands := .of_second fun _ => .of_second fun _ => (expr _).lands.bind fun _ => stays_pure _

/-- An expression between brackets. -/
def grouping : Phrase σ Expr where
  toAction := do
    advance
    let inner ← (expr .lowest).toAction
    expect (.mark .closeParen)
    return inner
  lands := .of_second fun _ => .of_second fun _ =>
    (lands_expect (by decide)).bind fun _ => stays_pure _

/-- `else` and a block, if they follow. -/
def alternative : Action σ (Option Block) := do
  if ← peekIs (.keyword .elseWord) then
    advance
    expect (.mark .openCurly)
    let b ← (block expr).toAction
    return some b
  else
    return none

/-- An `else` ends with its block, and without one nothing was read. -/
theorem alternative_stays : (alternative expr).Stays := by
  refine (stays_peekIs _).bind fun b => ?_
  cases b
  · exact stays_pure _
  · exact Lands.stays <| .of_second fun _ => .of_second fun _ =>
      (block expr).lands.bind fun _ => stays_pure _

/-- `if`, a condition and a block, and perhaps `else` and a block. -/
def conditional : Phrase σ Expr where
  toAction := do
    let t ← current
    advance
    let condition ← (expr .lowest).toAction
    expect (.mark .openCurly)
    let consequence ← (block expr).toAction
    let otherwise ← alternative expr
    return .conditional t condition consequence otherwise
  lands := .of_second fun _ => .of_second fun _ => .of_second fun _ => .of_second fun _ =>
    (block expr).lands.bind fun _ => (alternative_stays expr).bind fun _ => stays_pure _

/-- `fn`, parameters and a block. -/
def function : Phrase σ Expr where
  toAction := do
    let t ← current
    let names ← parameters
    expect (.mark .openCurly)
    let body ← (block expr).toAction
    return .function t names body
  lands := .of_second fun _ => .of_second fun _ => .of_second fun _ =>
    (block expr).lands.bind fun _ => stays_pure _

/-- Expressions between square brackets. -/
def array : Phrase σ Expr where
  toAction := do
    let t ← current
    let elements ← expressions expr .closeBracket
    return .array t elements
  lands := .of_second fun _ => (expressions_lands expr _).bind fun _ => stays_pure _

/-- Keys and values between curly brackets. -/
def hash : Phrase σ Expr where
  toAction := do
    let t ← current
    let ps ← pairs expr
    return .hash t ps
  lands := .of_second fun _ => (pairs_lands expr).bind fun _ => stays_pure _

/-- An expression under a prefix rule, from its first token. -/
def applyPrefix : PrefixRule → Phrase σ Expr
  | .primary => primary
  | .operator => prefixOperator expr
  | .grouping => grouping expr
  | .conditional => conditional expr
  | .function => function expr
  | .array => array expr
  | .hash => hash expr

end Parsing
end MonkeySyntax

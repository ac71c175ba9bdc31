/-
# Which tokens start and continue an expression

The grammar of expressions is a pair of tables over token kinds.  A prefix rule says how an
expression that starts with such a token is read.  An infix rule says how such a token continues
the expression before it, and its power how tightly it binds.

| power, loosest first | tokens |
| --- | --- |
| lowest | every kind without an infix rule |
| equals | `==` `!=` |
| less or greater | `<` `>` |
| sum | `+` `-` |
| product | `*` `/` |
| prefix | the operand of `!` and `-` |
| call | `(` |
| index | `[` |

The tables can be extended, and an entry replaced.
-/

import MonkeySyntax.Token.Kind

namespace MonkeySyntax

/-- How tightly an operator binds. -/
inductive Power where
  | lowest | equals | lessGreater | sum | product | prefixed | call | index
  deriving DecidableEq, Repr

namespace Power

/-- The place of a power in their order. -/
def rank : Power → Nat
  | lowest => 0 | equals => 1 | lessGreater => 2 | sum => 3
  | product => 4 | prefixed => 5 | call => 6 | index => 7

instance : LE Power := ⟨fun a b => a.rank ≤ b.rank⟩

instance : LT Power := ⟨fun a b => a.rank < b.rank⟩

instance (a b : Power) : Decidable (a ≤ b) := inferInstanceAs (Decidable (a.rank ≤ b.rank))

instance (a b : Power) : Decidable (a < b) := inferInstanceAs (Decidable (a.rank < b.rank))

/-- No two powers are of one rank. -/
theorem rank_injective {a b : Power} (h : a.rank = b.rank) : a = b := by
  revert h; cases a <;> cases b <;> decide

end Power

/-- How an expression is read that starts with a token. -/
inductive PrefixRule where
  /-- The token alone: a name or a literal. -/
  | primary
  /-- An operator before its operand. -/
  | operator
  | grouping | conditional | function | array | hash
  deriving DecidableEq, Repr

/-- How an expression is read that a token continues. -/
inductive InfixRule where
  /-- An operator between its operands. -/
  | binary
  | call | index
  deriving DecidableEq, Repr

/-- The rules for each kind of token. -/
structure Grammar where
  prefixRule : Kind → Option PrefixRule
  infixRule : Kind → Option (Power × InfixRule)

namespace Grammar

/-- The grammar of Monkey. -/
def standard : Grammar where
  prefixRule
    | .identifier | .integer | .string | .keyword .trueWord | .keyword .falseWord => some .primary
    | .mark .not | .mark .dash => some .operator
    | .mark .openParen => some .grouping
    | .mark .openBracket => some .array
    | .mark .openCurly => some .hash
    | .keyword .ifWord => some .conditional
    | .keyword .fnWord => some .function
    | _ => none
  infixRule
    | .mark .equals | .mark .notEquals => some (.equals, .binary)
    | .mark .less | .mark .greater => some (.lessGreater, .binary)
    | .mark .plus | .mark .dash => some (.sum, .binary)
    | .mark .star | .mark .slash => some (.product, .binary)
    | .mark .openParen => some (.call, .call)
    | .mark .openBracket => some (.index, .index)
    | _ => none

/-- How tightly a kind of token binds the expression before it. -/
def power (g : Grammar) (k : Kind) : Power := ((g.infixRule k).map Prod.fst).getD .lowest

/-- The grammar in which tokens of kind `k` start an expression under `rule`. -/
def withPrefix (g : Grammar) (k : Kind) (rule : PrefixRule) : Grammar :=
  { g with prefixRule := fun j => if j = k then some rule else g.prefixRule j }

/-- The grammar in which tokens of kind `k` continue an expression under `rule`. -/
def withInfix (g : Grammar) (k : Kind) (power : Power) (rule : InfixRule) : Grammar :=
  { g with infixRule := fun j => if j = k then some (power, rule) else g.infixRule j }

end Grammar

end MonkeySyntax

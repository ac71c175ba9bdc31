/-
# Plain trees

Some trees are not printed the way they are written: a string has no quotes in print, and the body
of a conditional or a function has no curly brackets.  A tree without these is plain.

A statement that is closed is printed with the `;` after it.
-/

import MonkeySyntax.Tree

namespace MonkeySyntax

mutual

/-- Whether there is no string, conditional or function in an expression. -/
def Expr.isPlain : Expr → Bool
  | .identifier _ | .integer _ _ | .boolean _ _ => true
  | .string _ _ | .conditional _ _ _ _ | .function _ _ _ => false
  | .prefixOp _ _ right => right.isPlain
  | .infixOp _ left _ right => left.isPlain && right.isPlain
  | .call _ callee arguments => callee.isPlain && Expr.allPlain arguments
  | .array _ elements => Expr.allPlain elements
  | .index _ left index => left.isPlain && index.isPlain
  | .hash _ pairs => Expr.allPlainPairs pairs

/-- Whether every expression of a list is plain. -/
def Expr.allPlain : List Expr → Bool
  | [] => true
  | e :: es => e.isPlain && Expr.allPlain es

/-- Whether every key and every value of a list is plain. -/
def Expr.allPlainPairs : List (Expr × Expr) → Bool
  | [] => true
  | (key, value) :: pairs => key.isPlain && value.isPlain && Expr.allPlainPairs pairs

/-- Whether there is no string, conditional or function in a statement. -/
def Stmt.isPlain : Stmt → Bool
  | .letBinding _ _ value => value.isPlain
  | .returnValue _ none => true
  | .returnValue _ (some value) => value.isPlain
  | .expression _ e => e.isPlain
  | .block b => b.isPlain

/-- Whether every statement of a list is plain. -/
def Stmt.allPlain : List Stmt → Bool
  | [] => true
  | s :: ss => s.isPlain && Stmt.allPlain ss

/-- Whether there is no string, conditional or function in a block. -/
def Block.isPlain : Block → Bool
  | .mk _ body => Stmt.allPlain body

end

/-- Whether there is no string, conditional or function in a program. -/
def Program.isPlain (p : Program) : Bool := Stmt.allPlain p.body

/-- Whether a statement is a `let` or a `return`. -/
def Stmt.isClosed : Stmt → Bool
  | .letBinding _ _ _ | .returnValue _ _ => true
  | .expression _ _ | .block _ => false

end MonkeySyntax

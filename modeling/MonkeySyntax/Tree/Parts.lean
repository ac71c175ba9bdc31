/-
# What a tree is made of

`e.tokens` are the tokens of the nodes of a tree, in the order in which a text has them: the token
of an infix, call or index expression comes after its left operand, all others come first.
`e.stmts` are the statements in a tree, at any depth of blocks.

An expression statement has no token of its own here, since the first one of its expression is its
token too.
-/

import MonkeySyntax.Tree

namespace MonkeySyntax

mutual

/-- The tokens of an expression and of what is in it. -/
def Expr.tokens : Expr → List Token
  | .identifier name => [name.token]
  | .integer t _ | .boolean t _ | .string t _ => [t]
  | .prefixOp t _ right => t :: right.tokens
  | .infixOp t left _ right => left.tokens ++ t :: right.tokens
  | .conditional t condition consequence none => t :: (condition.tokens ++ consequence.tokens)
  | .conditional t condition consequence (some alternative) =>
    t :: (condition.tokens ++ (consequence.tokens ++ alternative.tokens))
  | .function t parameters body => t :: (parameters.map (·.token) ++ body.tokens)
  | .call t callee arguments => callee.tokens ++ t :: Expr.tokensAll arguments
  | .array t elements => t :: Expr.tokensAll elements
  | .index t left index => left.tokens ++ t :: index.tokens
  | .hash t pairs => t :: Expr.tokensPairs pairs

/-- The tokens of the expressions of a list. -/
def Expr.tokensAll : List Expr → List Token
  | [] => []
  | e :: es => e.tokens ++ Expr.tokensAll es

/-- The tokens of the keys and the values of a list. -/
def Expr.tokensPairs : List (Expr × Expr) → List Token
  | [] => []
  | (key, value) :: pairs => key.tokens ++ (value.tokens ++ Expr.tokensPairs pairs)

/-- The tokens of a statement and of what is in it. -/
def Stmt.tokens : Stmt → List Token
  | .letBinding t name value => t :: name.token :: value.tokens
  | .returnValue t none => [t]
  | .returnValue t (some value) => t :: value.tokens
  | .expression _ e => e.tokens
  | .block b => b.tokens

/-- The tokens of the statements of a list. -/
def Stmt.tokensAll : List Stmt → List Token
  | [] => []
  | s :: ss => s.tokens ++ Stmt.tokensAll ss

/-- The tokens of a block and of what is in it. -/
def Block.tokens : Block → List Token
  | .mk t body => t :: Stmt.tokensAll body

end

mutual

/-- The statements in an expression. -/
def Expr.stmts : Expr → List Stmt
  | .identifier _ | .integer _ _ | .boolean _ _ | .string _ _ => []
  | .prefixOp _ _ right => right.stmts
  | .infixOp _ left _ right => left.stmts ++ right.stmts
  | .conditional _ condition consequence none => condition.stmts ++ consequence.stmts
  | .conditional _ condition consequence (some alternative) =>
    condition.stmts ++ (consequence.stmts ++ alternative.stmts)
  | .function _ _ body => body.stmts
  | .call _ callee arguments => callee.stmts ++ Expr.stmtsAll arguments
  | .array _ elements => Expr.stmtsAll elements
  | .index _ left index => left.stmts ++ index.stmts
  | .hash _ pairs => Expr.stmtsPairs pairs

/-- The statements in the expressions of a list. -/
def Expr.stmtsAll : List Expr → List Stmt
  | [] => []
  | e :: es => e.stmts ++ Expr.stmtsAll es

/-- The statements in the keys and the values of a list. -/
def Expr.stmtsPairs : List (Expr × Expr) → List Stmt
  | [] => []
  | (key, value) :: pairs => key.stmts ++ (value.stmts ++ Expr.stmtsPairs pairs)

/-- The statements in a statement, without the statement itself. -/
def Stmt.stmts : Stmt → List Stmt
  | .letBinding _ _ value => value.stmts
  | .returnValue _ none => []
  | .returnValue _ (some value) => value.stmts
  | .expression _ e => e.stmts
  | .block b => b.stmts

/-- The statements of a list and those in them. -/
def Stmt.stmtsAll : List Stmt → List Stmt
  | [] => []
  | s :: ss => s :: (s.stmts ++ Stmt.stmtsAll ss)

/-- The statements of a block and those in them. -/
def Block.stmts : Block → List Stmt
  | .mk _ body => Stmt.stmtsAll body

end

/-- The tokens of the nodes of a program, in the order in which they are written. -/
def Program.tokens (p : Program) : List Token := Stmt.tokensAll p.body

/-- The statements of a program, at any depth. -/
def Program.stmts (p : Program) : List Stmt := Stmt.stmtsAll p.body

/-- The numbers `μ x` of the elements of a list, added up. -/
def total {α : Type} (μ : α → Nat) (xs : List α) : Nat := xs.foldr (fun x n => μ x + n) 0

@[simp] theorem total_nil {α : Type} (μ : α → Nat) : total μ [] = 0 := rfl

@[simp] theorem total_cons {α : Type} (μ : α → Nat) (x : α) (xs : List α) :
    total μ (x :: xs) = μ x + total μ xs := rfl

/-- The statements in a list of expressions are those in each of them. -/
theorem Expr.length_stmtsAll (es : List Expr) :
    (Expr.stmtsAll es).length = total (fun e => e.stmts.length) es := by
  induction es with
  | nil => rw [Expr.stmtsAll, List.length_nil, total_nil]
  | cons e es ih => rw [Expr.stmtsAll, List.length_append, ih, total_cons]

/-- The statements in the pairs of a hash are those in each key and value. -/
theorem Expr.length_stmtsPairs (ps : List (Expr × Expr)) :
    (Expr.stmtsPairs ps).length = total (fun p => p.1.stmts.length + p.2.stmts.length) ps := by
  induction ps with
  | nil => rw [Expr.stmtsPairs, List.length_nil, total_nil]
  | cons p ps ih =>
    rw [Expr.stmtsPairs, List.length_append, List.length_append, ih, total_cons, Nat.add_assoc]

/-- The statements in two lists in a row are those of the one, then those of the other. -/
theorem Stmt.stmtsAll_append (ss ts : List Stmt) :
    Stmt.stmtsAll (ss ++ ts) = Stmt.stmtsAll ss ++ Stmt.stmtsAll ts := by
  induction ss with
  | nil => rw [List.nil_append, Stmt.stmtsAll, List.nil_append]
  | cons s ss ih =>
    rw [List.cons_append, Stmt.stmtsAll, ih, Stmt.stmtsAll, List.cons_append, List.append_assoc]

/-- How many statements there are in a statement, itself included, and none in one dropped. -/
def Stmt.count (s : Option Stmt) : Nat := (Stmt.stmtsAll s.toList).length

/-- Leaving out what failed leaves out no statement. -/
theorem Stmt.length_stmtsAll_filterMap (ss : List (Option Stmt)) :
    (Stmt.stmtsAll (ss.filterMap id)).length = total Stmt.count ss := by
  induction ss with
  | nil => rw [List.filterMap_nil, Stmt.stmtsAll, List.length_nil, total_nil]
  | cons s ss ih =>
    have hsplit : (s :: ss).filterMap id = s.toList ++ ss.filterMap id := by cases s <;> rfl
    rw [hsplit, Stmt.stmtsAll_append, List.length_append, ih, total_cons, Stmt.count]

end MonkeySyntax

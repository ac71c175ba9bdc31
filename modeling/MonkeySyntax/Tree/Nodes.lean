/-
# The nodes of a tree

A tree is made of expressions, statements, blocks and names.  `e.nodes` are the nodes of `e`, itself
first, and `p.nodes` are those of a program, at any depth of blocks.  A name that is used is a node
beside the expression that it is; the name of a `let` and the parameters of a function are nodes
too.
-/

import MonkeySyntax.Tree

namespace MonkeySyntax

/-- A node of a syntax tree, with what is below it. -/
inductive Node where
  | expr (e : Expr)
  | stmt (s : Stmt)
  | block (b : Block)
  | name (n : Identifier)

mutual

/-- An expression and the nodes in it. -/
def Expr.nodes : Expr → List Node
  | .identifier name => [.expr (.identifier name), .name name]
  | .integer t value => [.expr (.integer t value)]
  | .boolean t value => [.expr (.boolean t value)]
  | .string t value => [.expr (.string t value)]
  | .prefixOp t operator right => .expr (.prefixOp t operator right) :: right.nodes
  | .infixOp t left operator right =>
    .expr (.infixOp t left operator right) :: (left.nodes ++ right.nodes)
  | .conditional t condition consequence none =>
    .expr (.conditional t condition consequence none) :: (condition.nodes ++ consequence.nodes)
  | .conditional t condition consequence (some alternative) =>
    .expr (.conditional t condition consequence (some alternative)) ::
      (condition.nodes ++ (consequence.nodes ++ alternative.nodes))
  | .function t parameters body =>
    .expr (.function t parameters body) :: (parameters.map .name ++ body.nodes)
  | .call t callee arguments =>
    .expr (.call t callee arguments) :: (callee.nodes ++ Expr.nodesAll arguments)
  | .array t elements => .expr (.array t elements) :: Expr.nodesAll elements
  | .index t left index => .expr (.index t left index) :: (left.nodes ++ index.nodes)
  | .hash t pairs => .expr (.hash t pairs) :: Expr.nodesPairs pairs

/-- The nodes of the expressions of a list. -/
def Expr.nodesAll : List Expr → List Node
  | [] => []
  | e :: es => e.nodes ++ Expr.nodesAll es

/-- The nodes of the keys and the values of a list. -/
def Expr.nodesPairs : List (Expr × Expr) → List Node
  | [] => []
  | (key, value) :: pairs => key.nodes ++ (value.nodes ++ Expr.nodesPairs pairs)

/-- A statement and the nodes in it. -/
def Stmt.nodes : Stmt → List Node
  | .letBinding t name value => .stmt (.letBinding t name value) :: .name name :: value.nodes
  | .returnValue t none => [.stmt (.returnValue t none)]
  | .returnValue t (some value) => .stmt (.returnValue t (some value)) :: value.nodes
  | .expression t e => .stmt (.expression t e) :: e.nodes
  | .block b => .stmt (.block b) :: b.nodes

/-- The nodes of the statements of a list. -/
def Stmt.nodesAll : List Stmt → List Node
  | [] => []
  | s :: ss => s.nodes ++ Stmt.nodesAll ss

/-- A block and the nodes in it. -/
def Block.nodes : Block → List Node
  | .mk t body => .block (.mk t body) :: Stmt.nodesAll body

end

/-- The nodes of a program. -/
def Program.nodes (p : Program) : List Node := Stmt.nodesAll p.body

end MonkeySyntax

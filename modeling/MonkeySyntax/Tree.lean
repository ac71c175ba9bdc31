/-
# Syntax trees

A program is a list of statements.  Every node keeps the token it was made from: the first token
of the node, except that an infix, call or index expression keeps its operator, `(` or `[`.

| statement | token |
| --- | --- |
| `letBinding`, `returnValue` | the keyword |
| `expression` | the first token of the expression |
| `block` | the opening bracket of the block |

The values that follow from the token (a name, an operator's text, what a literal stands for) are
kept beside it.
-/

import MonkeySyntax.Token

namespace MonkeySyntax

/-- A name where one is used or bound. -/
structure Identifier where
  token : Token
  value : String
  deriving DecidableEq, Repr

mutual

/-- An expression. -/
inductive Expr where
  | identifier (name : Identifier)
  | integer (token : Token) (value : Int64)
  | boolean (token : Token) (value : Bool)
  /-- A string literal, with its escapes resolved. -/
  | string (token : Token) (value : String)
  | prefixOp (token : Token) (operator : String) (right : Expr)
  | infixOp (token : Token) (left : Expr) (operator : String) (right : Expr)
  | conditional (token : Token) (condition : Expr) (consequence : Block)
      (alternative : Option Block)
  | function (token : Token) (parameters : List Identifier) (body : Block)
  | call (token : Token) (callee : Expr) (arguments : List Expr)
  | array (token : Token) (elements : List Expr)
  | index (token : Token) (left : Expr) (index : Expr)
  /-- Keys and values in the order in which they are written. -/
  | hash (token : Token) (pairs : List (Expr × Expr))

/-- A statement. -/
inductive Stmt where
  | letBinding (token : Token) (name : Identifier) (value : Expr)
  | returnValue (token : Token) (value : Option Expr)
  | expression (token : Token) (expression : Expr)
  | block (block : Block)

/-- Statements between curly brackets. -/
inductive Block where
  | mk (token : Token) (body : List Stmt)

end

deriving instance Repr for Expr, Stmt, Block

/-- What a text holds: its statements in order. -/
structure Program where
  body : List Stmt
  deriving Repr

namespace Block

/-- The opening bracket. -/
def token : Block → Token
  | mk t _ => t

/-- The statements between the brackets. -/
def body : Block → List Stmt
  | mk _ b => b

end Block

namespace Expr

/-- The token that an expression was made from. -/
def token : Expr → Token
  | identifier name => name.token
  | integer t _ | boolean t _ | string t _ | prefixOp t _ _ | infixOp t _ _ _
  | conditional t _ _ _ | function t _ _ | call t _ _ | array t _ | index t _ _ | hash t _ => t

end Expr

namespace Stmt

/-- The token that a statement was made from. -/
def token : Stmt → Token
  | letBinding t _ _ | returnValue t _ | expression t _ => t
  | block b => b.token

end Stmt

/-- The value of the first statement's token. -/
def Program.literal (p : Program) : String :=
  match p.body with
  | [] => ""
  | s :: _ => s.token.value

end MonkeySyntax

/-
# Writing syntax trees

A tree is written with every operator expression between brackets, so that the text shows how the
operators group.  Literals are written by their tokens, strings without quotes.  An expression
that stands as a statement gets no `;`, and a block no curly brackets.
-/

import MonkeySyntax.Tree

namespace MonkeySyntax

/-- Texts one after the other, with a comma and a space in between. -/
def commaSeparated (texts : List String) : String := ", ".intercalate texts

mutual

/-- An expression as text. -/
def Expr.print : Expr → String
  | .identifier name => name.value
  | .integer t _ => t.value
  | .boolean t _ => t.value
  | .string _ value => value
  | .prefixOp _ operator right => "(" ++ operator ++ right.print ++ ")"
  | .infixOp _ left operator right =>
    "(" ++ left.print ++ " " ++ operator ++ " " ++ right.print ++ ")"
  | .conditional _ condition consequence none =>
    "if" ++ condition.print ++ " " ++ consequence.print
  | .conditional _ condition consequence (some alternative) =>
    "if" ++ condition.print ++ " " ++ consequence.print ++ "else " ++ alternative.print
  | .function t parameters body =>
    t.value ++ "(" ++ commaSeparated (parameters.map Identifier.value) ++ ") " ++ body.print
  | .call _ callee arguments =>
    callee.print ++ "(" ++ commaSeparated (Expr.printAll arguments) ++ ")"
  | .array _ elements => "[" ++ commaSeparated (Expr.printAll elements) ++ "]"
  | .index _ left index => "(" ++ left.print ++ "[" ++ index.print ++ "])"
  | .hash _ pairs => "\x7b" ++ commaSeparated (Expr.printPairs pairs) ++ "\x7d"

/-- Every expression of a list as text. -/
def Expr.printAll : List Expr → List String
  | [] => []
  | e :: es => e.print :: Expr.printAll es

/-- Every key with its value as text. -/
def Expr.printPairs : List (Expr × Expr) → List String
  | [] => []
  | (key, value) :: pairs => (key.print ++ ": " ++ value.print) :: Expr.printPairs pairs

/-- A statement as text. -/
def Stmt.print : Stmt → String
  | .letBinding t name value => t.value ++ " " ++ name.value ++ " = " ++ value.print ++ ";"
  | .returnValue t none => t.value ++ ";"
  | .returnValue t (some value) => t.value ++ " " ++ value.print ++ ";"
  | .expression _ e => e.print
  | .block b => b.print

/-- Statements one after the other as text. -/
def Stmt.printAll : List Stmt → String
  | [] => ""
  | s :: ss => s.print ++ Stmt.printAll ss

/-- A block as text. -/
def Block.print : Block → String
  | .mk _ body => Stmt.printAll body

end

/-- A program as text. -/
def Program.print (p : Program) : String := Stmt.printAll p.body

end MonkeySyntax

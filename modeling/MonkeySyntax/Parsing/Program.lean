/-
# Reading programs

A program is read statement by statement up to the end of the input.  What could not be read is
left out of the program, and the errors say why.
-/

import MonkeySyntax.Lexer.Cursor
import MonkeySyntax.Parsing.Expression
import MonkeySyntax.Token.Stream

namespace MonkeySyntax
namespace Parser

variable {σ : Type} [TokenSource σ]

/-- The statements from the current token on, without those that failed, and the parser at the end
of the input. -/
def statements (p : Parser σ) : List Stmt × Parser σ :=
  if _hp : p.current.kind = .eof then ([], p)
  else
    let first := (Parsing.statement Parsing.expression).run p
    let rest := first.2.advance.statements
    (first.1.toList ++ rest.1, rest.2)
termination_by p.window.left
decreasing_by
  exact Window.Onward.left_advance_lt ((Parsing.statement Parsing.expression).onward p) _hp

/-- At the end of the input there are no statements. -/
theorem statements_of_eof {p : Parser σ} (hp : p.current.kind = .eof) : p.statements = ([], p) := by
  rw [statements, dif_pos hp]

/-- **One statement, then the others.** -/
theorem statements_of_run {p q : Parser σ} {x : Option Stmt} (hp : p.current.kind ≠ .eof)
    (hr : (Parsing.statement Parsing.expression).run p = (x, q)) :
    p.statements = (x.toList ++ q.advance.statements.1, q.advance.statements.2) := by
  rw [statements, dif_neg hp]
  simp only [hr]

/-- The program from the current token on. -/
def program (p : Parser σ) : Program × Parser σ := (⟨p.statements.1⟩, p.statements.2)

end Parser

/-- The program that a list of tokens spells, and the parser at its end. -/
def parse (tokens : List Token) : Program × Parser Stream :=
  (Parser.start (Stream.ofList tokens)).program

/-- The program that a text spells, and the parser at its end. -/
def parseText (text : String) (file : Option String) : Program × Parser Cursor :=
  (Parser.start (Cursor.ofText text file)).program

end MonkeySyntax

/-
# The state of a parser

A parser is at a window of its source.  It keeps the grammar it reads by, what was wrong so far,
and how many expressions and blocks it is inside of: expressions nest at most `nestingLimit` deep,
and a statement that fails inside a block leaves the block's closing bracket alone.

The journal says how the parser got there.  It notes where each statement was begun, how it ended,
and the two depths each time that one of them changed.
-/

import MonkeySyntax.Diagnostic
import MonkeySyntax.Parsing.Grammar
import MonkeySyntax.Parsing.Window

namespace MonkeySyntax

/-- How deep expressions may nest. -/
def nestingLimit : Nat := 256

/-- A step of a parser that its journal notes. -/
inductive Event where
  /-- A statement was begun at a token. -/
  | began (token : Token)
  /-- The innermost statement begun was read. -/
  | kept
  /-- The innermost statement begun was given up. -/
  | dropped
  /-- The parser is now inside that many expressions and blocks. -/
  | depths (exprs blocks : Nat)
  deriving DecidableEq, Repr

/-- Where a parser is, and how it got there. -/
structure Parser (σ : Type) where
  window : Window σ
  grammar : Grammar
  /-- What was wrong, first things first. -/
  errors : List Diagnostic
  /-- How many expressions the parser is inside of. -/
  exprDepth : Nat
  /-- How many blocks the parser is inside of. -/
  blockDepth : Nat
  /-- What the parser did, last things first. -/
  journal : List Event

namespace Parser

variable {σ : Type}

/-- The token that is being read. -/
def current (p : Parser σ) : Token := p.window.current

/-- The token after the current one. -/
def peek (p : Parser σ) : Token := p.window.peek

/-- Whether the parser is inside of a block. -/
def inBlock (p : Parser σ) : Bool := 0 < p.blockDepth

/-- The parser after one more error. -/
def report (p : Parser σ) (d : Diagnostic) : Parser σ := { p with errors := p.errors ++ [d] }

/-- The parser after one more entry in its journal. -/
def note (p : Parser σ) (e : Event) : Parser σ := { p with journal := e :: p.journal }

/-- The parser inside of that many expressions and blocks. -/
def atDepths (p : Parser σ) (exprs blocks : Nat) : Parser σ :=
  { p with exprDepth := exprs, blockDepth := blocks, journal := .depths exprs blocks :: p.journal }

/-- The parser inside of one more expression. -/
def enterExpr (p : Parser σ) : Parser σ := p.atDepths (p.exprDepth + 1) p.blockDepth

/-- The parser outside of the innermost expression. -/
def exitExpr (p : Parser σ) : Parser σ := p.atDepths (p.exprDepth - 1) p.blockDepth

/-- The parser inside of one more block. -/
def enterBlock (p : Parser σ) : Parser σ := p.atDepths p.exprDepth (p.blockDepth + 1)

/-- The parser outside of the innermost block. -/
def exitBlock (p : Parser σ) : Parser σ := p.atDepths p.exprDepth (p.blockDepth - 1)

/-- The error that expressions nest too deeply, at the current token. -/
def tooDeep (p : Parser σ) : Diagnostic := ⟨.nestingTooDeep nestingLimit, p.current.start⟩

/-- The error that no expression starts with the current token. -/
def noPrefix (p : Parser σ) : Diagnostic := ⟨.noPrefixRule p.current.kind, p.current.start⟩

/-- The error that the next token is not of kind `k`. -/
def unexpectedPeek (p : Parser σ) (k : Kind) : Diagnostic :=
  ⟨.unexpectedToken k p.peek.kind, p.peek.start⟩

/-- The parser inside of one more expression, unless it is inside of too many already. -/
def enterExpr? (p : Parser σ) : Bool × Parser σ :=
  if p.exprDepth < nestingLimit then (true, p.enterExpr) else (false, p.report p.tooDeep)

/-! ### What each step does to the window -/

@[simp] theorem window_report (p : Parser σ) (d : Diagnostic) :
    (p.report d).window = p.window := rfl

@[simp] theorem window_note (p : Parser σ) (e : Event) : (p.note e).window = p.window := rfl

@[simp] theorem window_atDepths (p : Parser σ) (m n : Nat) :
    (p.atDepths m n).window = p.window := rfl

@[simp] theorem window_enterExpr (p : Parser σ) : p.enterExpr.window = p.window := rfl

@[simp] theorem window_exitExpr (p : Parser σ) : p.exitExpr.window = p.window := rfl

@[simp] theorem window_enterBlock (p : Parser σ) : p.enterBlock.window = p.window := rfl

@[simp] theorem window_exitBlock (p : Parser σ) : p.exitBlock.window = p.window := rfl

variable [TokenSource σ]

/-- A parser at the first token of a source. -/
def start (source : σ) : Parser σ where
  window := .start source
  grammar := .standard
  errors := []
  exprDepth := 0
  blockDepth := 0
  journal := []

/-- The parser one token further on. -/
def advance (p : Parser σ) : Parser σ := { p with window := p.window.advance }

/-- The parser past the `;` that may follow a statement.  A statement that failed at the closing
bracket of a block leaves it there, and what follows it too. -/
def skipSemicolon (p : Parser σ) (failed : Bool) : Parser σ :=
  if failed && p.inBlock && p.current.kind = .mark .closeCurly then p
  else if p.peek.kind = .mark .semicolon then p.advance
  else p

@[simp] theorem window_advance (p : Parser σ) : p.advance.window = p.window.advance := rfl

/-- Skipping a `;` is one token more, or nothing. -/
theorem skipSemicolon_eq (p : Parser σ) (failed : Bool) :
    p.skipSemicolon failed = p.advance ∨ p.skipSemicolon failed = p := by
  unfold skipSemicolon
  split
  · exact .inr rfl
  · split
    · exact .inl rfl
    · exact .inr rfl

/-- Skipping a `;` moves the window onward, by one token at most. -/
theorem onward_skipSemicolon (p : Parser σ) (failed : Bool) :
    p.window.Onward (p.skipSemicolon failed).window := by
  rcases p.skipSemicolon_eq failed with h | h <;> rw [h]
  · exact .advance _
  · exact .refl _

end Parser

end MonkeySyntax

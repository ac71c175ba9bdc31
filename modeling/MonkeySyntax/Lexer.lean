/-
# Lexing

Two ways to the tokens of a text.  A `Cursor` hands them out one by one and makes a token of
every character it cannot read; `tokenize` returns them all, and an error for the first such
character.  A `Lexer` is a cursor that can also be moved: it keeps the whole text, and its place
may be set to any number, so a read from it can fail.
-/

import MonkeySyntax.Diagnostic
import MonkeySyntax.Lexer.Cursor

namespace MonkeySyntax

/-- The tokens as far as the first illegal one, which is returned in their place. -/
def readable : List Token → Except Token (List Token)
  | [] => .ok []
  | t :: ts => if t.kind = .illegal then .error t else (readable ts).map (t :: ·)

/-- Every token of a text, the end of the input last. -/
def tokenize (text : String) (file : Option String) : Except Diagnostic (List Token) :=
  (readable (Cursor.ofText text file).tokens).mapError fun t =>
    ⟨.unrecognisedToken t.value, t.start⟩

/-- A text with a movable place in it. -/
structure Lexer where
  text : List Char
  /-- The place, as a number of bytes before it. -/
  pos : Nat
  file : String
  deriving DecidableEq, Repr

namespace Lexer

/-- The start of a text; one that has no name is called `shell`. -/
def ofText (text : String) (file : Option String) : Lexer := ⟨text.toList, 0, file.getD "shell"⟩

/-- The text after the place, which has to lie in the text and between two characters. -/
def remainder (l : Lexer) : Option (List Char) := Text.dropBytes l.pos l.text

/-- The cursor at the place. -/
def cursor (l : Lexer) : Option Cursor := l.remainder.map (⟨·, l.pos, l.file⟩)

/-- The next character, if any. -/
def peekChar (l : Lexer) : Option (Option Char) := l.remainder.map (·.head?)

/-- Whether the place is at or past the end of the text. -/
def atEnd (l : Lexer) : Bool := Text.byteLength l.text ≤ l.pos

/-- The place `n` bytes further on. -/
def advance (l : Lexer) (n : Nat) : Lexer := { l with pos := l.pos + n }

/-- The place `n` bytes from the start. -/
def seek (l : Lexer) (n : Nat) : Lexer := { l with pos := n }

/-- The same place in a text called `file`. -/
def rename (l : Lexer) (file : String) : Lexer := { l with file }

/-- The next token, and the place after it. -/
def next (l : Lexer) : Option (Token × Lexer) :=
  l.cursor.map fun c => (c.next.1, l.seek c.next.2.pos)

/-- The next `n` tokens, and the place after them. -/
def take : Nat → Lexer → Option (List Token × Lexer)
  | 0, l => some ([], l)
  | n + 1, l => do
    let (t, l) ← l.next
    let (ts, l) ← take n l
    return (t :: ts, l)

end Lexer

end MonkeySyntax

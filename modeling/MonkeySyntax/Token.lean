/-
# Tokens

A token is a kind, a value and the span of text it was read from.  The value is the text itself,
except for a string, whose value is what the text between its quotes stands for.
-/

import MonkeySyntax.Position
import MonkeySyntax.Text.Quoted
import MonkeySyntax.Token.Kind

namespace MonkeySyntax

/-- A piece of text that the grammar takes as a whole. -/
structure Token where
  kind : Kind
  value : String
  span : Span
  deriving DecidableEq, Repr

namespace Token

/-- The end of the input, at `span`. -/
def eof (span : Span) : Token := ⟨.eof, "", span⟩

/-- The position of a token's first byte. -/
def start (t : Token) : Position := t.span.start

/-- Whether a token is of one of the given kinds. -/
def isOneOf (t : Token) (kinds : List Kind) : Bool := kinds.contains t.kind

/-- A token in a message: its kind, then its value quoted. -/
def display (t : Token) : String :=
  t.kind.display ++ " (" ++ Text.quoted t.value ++ ")"

/-- 1 for a token of the input, 0 for its end. -/
def weight (t : Token) : Nat := if t.kind = .eof then 0 else 1

/-- Every token of the input weighs one. -/
theorem weight_eq_one {t : Token} (h : t.kind ≠ .eof) : t.weight = 1 := if_neg h

/-- The end of the input weighs nothing. -/
theorem weight_eq_zero {t : Token} (h : t.kind = .eof) : t.weight = 0 := if_pos h

end Token

end MonkeySyntax

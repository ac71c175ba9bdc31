/-
# Positions and spans

A position is a byte offset together with the name of the text it counts in.  Offsets are 32-bit
words: a text of 4 GiB or more has its offsets counted modulo `2 ^ 32`.
-/

namespace MonkeySyntax

/-- A byte offset in the text called `file`. -/
structure Position where
  offset : UInt32
  file : String
  deriving DecidableEq, Repr

/-- From the first byte of a piece of text to the byte after its last. -/
structure Span where
  start : Position
  stop : Position
  deriving DecidableEq, Repr

/-- The position of what stands in no text. -/
def Position.null : Position := ⟨0, "<null>"⟩

/-- The span of what stands in no text. -/
def Span.null : Span := ⟨.null, .null⟩

end MonkeySyntax

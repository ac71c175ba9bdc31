/-
# Lines of a text

A line runs up to and including its line feed; the last line may lack one.  A byte offset is on
the line that holds it, and an offset at or past the end of the text counts as the end of the
last line, before its line feed.
-/

import MonkeySyntax.Text.Bytes

namespace MonkeySyntax
namespace Text

/-- The pieces of a list, each of which ends with a `stop` element; the last may lack it. -/
def pieces {α : Type} (stop : α → Bool) : List α → List (List α)
  | [] => []
  | a :: as =>
    if stop a then [a] :: pieces stop as
    else match pieces stop as with
      | [] => [[a]]
      | p :: ps => (a :: p) :: ps

/-- **Nothing is lost between the pieces.** -/
theorem flatten_pieces {α : Type} (stop : α → Bool) (as : List α) :
    (pieces stop as).flatten = as := by
  induction as with
  | nil => rfl
  | cons a as ih =>
    rw [pieces]
    split
    · simp [ih]
    · split
      · rename_i h
        rw [h] at ih
        simp [← ih]
      · rename_i h
        rw [h] at ih
        simp_all

/-- The lines of a text, each with its line feed. -/
def lines (cs : List Char) : List (List Char) := pieces (· = '\n') cs

/-- A place in a text: the line's number, counted from 1, the line, and the byte column in it. -/
structure Place where
  number : Nat
  line : List Char
  column : Nat
  deriving Repr, DecidableEq

/-- The column of the end of a line: its length without the line feed. -/
def endColumn (line : List Char) : Nat :=
  byteLength (line.reverse.dropWhile (· == '\n')).reverse

/-- The place of byte `offset` in the lines `ls`, the first of which has number `number`. -/
def placeIn : List (List Char) → Nat → Nat → Place
  | [], number, _ => ⟨number, [], 0⟩
  | [l], number, offset =>
    if offset < byteLength l then ⟨number, l, offset⟩ else ⟨number, l, endColumn l⟩
  | l :: ls, number, offset =>
    if offset < byteLength l then ⟨number, l, offset⟩
    else placeIn ls (number + 1) (offset - byteLength l)

/-- The place of byte `offset` in a text. -/
def place (cs : List Char) (offset : Nat) : Place := placeIn (lines cs) 1 offset

end Text
end MonkeySyntax

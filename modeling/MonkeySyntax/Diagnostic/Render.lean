/-
# A diagnostic beside its source line

A rendered diagnostic has five rows:

| row | holds |
| --- | --- |
| 1 | the name of the cause, and its tip between brackets if it has one |
| 2 | the name of the text |
| 3 | the bar of the gutter |
| 4 | the line's number, the bar, and the line without its indentation and the blanks at its end |
| 5 | the bar, and a `^` under the column, with dashes up to it |

The gutter is as wide as the line number.  Columns count bytes, and those that the indentation
took are taken off the column.
-/

import MonkeySyntax.Diagnostic
import MonkeySyntax.Text.Blank
import MonkeySyntax.Text.Lines

namespace MonkeySyntax
namespace Diagnostic

/-- A character of the indentation of a line. -/
def isIndent (c : Char) : Bool := c = ' ' || c = '\t'

/-- A source line as it is shown: without indentation and without blanks at its end. -/
def shownLine (line : List Char) : List Char := Text.trimEnd (line.dropWhile isIndent)

/-- How many dashes stand before the `^`. -/
def dashes (p : Text.Place) : Nat := p.column - (p.line.takeWhile isIndent).length

/-- The bar at the end of the gutter beside a line number. -/
def gutter (number : Nat) : List Char :=
  List.replicate ((Nat.toDigits 10 number).length + 1) ' ' ++ ['|']

/-- The row that shows the source line. -/
def sourceRow (p : Text.Place) : List Char :=
  Nat.toDigits 10 p.number ++ [' ', '|', ' '] ++ shownLine p.line

/-- The row that points at the column. -/
def pointerRow (p : Text.Place) : List Char :=
  gutter p.number ++ ' ' :: List.replicate (dashes p) '-' ++ ['^']

/-- The row that says what is wrong. -/
def titleRow (c : Cause) : List Char :=
  match c.tip with
  | none => ("Error: " ++ c.name).toList
  | some tip => ("Error: " ++ c.name ++ " (" ++ tip ++ ")").toList

/-- The rows of a diagnostic beside the text it was found in. -/
def rows (d : Diagnostic) (source : List Char) : List (List Char) :=
  let p := Text.place source d.position.offset.toNat
  [titleRow d.cause, ("-> " ++ d.position.file).toList, gutter p.number, sourceRow p,
   pointerRow p]

/-- A diagnostic beside the text it was found in. -/
def render (d : Diagnostic) (source : String) : String :=
  "\n".intercalate ((d.rows source.toList).map String.ofList)

end Diagnostic
end MonkeySyntax

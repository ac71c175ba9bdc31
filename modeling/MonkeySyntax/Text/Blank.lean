/-
# Blank characters

A set of characters is a table of code point ranges.  The blanks are the Unicode property
`White_Space`, which has 25 members; the lexer skips them and a rendered source line drops them
from its end.  Every character that `Char.isWhitespace` accepts is among them.
-/

namespace MonkeySyntax
namespace Text

/-- Whether the code point of `c` lies in one of the closed ranges. -/
def inRanges (ranges : List (Nat × Nat)) (c : Char) : Bool :=
  ranges.any fun (first, last) => first ≤ c.toNat && c.toNat ≤ last

/-- The ranges of code points with the property `White_Space`, in order. -/
def blankRanges : List (Nat × Nat) :=
  [(0x9, 0xD), (0x20, 0x20), (0x85, 0x85), (0xA0, 0xA0), (0x1680, 0x1680), (0x2000, 0x200A),
   (0x2028, 0x2029), (0x202F, 0x202F), (0x205F, 0x205F), (0x3000, 0x3000)]

example : (blankRanges.map fun (first, last) => last - first + 1).sum = 25 := by decide

/-- A character that separates lexemes and is part of none. -/
def isBlank (c : Char) : Bool := inRanges blankRanges c

/-- White space of ASCII is blank. -/
theorem isBlank_of_isWhitespace {c : Char} (h : c.isWhitespace = true) : isBlank c = true := by
  simp only [Char.isWhitespace, Bool.or_eq_true, decide_eq_true_eq] at h
  rcases h with ((rfl | rfl) | rfl) | rfl <;> decide

/-- `cs` without the blanks at its end. -/
def trimEnd (cs : List Char) : List Char := (cs.reverse.dropWhile isBlank).reverse

end Text
end MonkeySyntax

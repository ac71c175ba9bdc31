/-
# Patterns of lexemes

A pattern takes lexemes of one form off the head of a text.

| pattern | lexeme |
| --- | --- |
| word | a letter or `_`, then letters, digits and `_`, all ASCII |
| number | ASCII digits |
| blanks | blank characters |
| quoted | `"`, then up to the next `"` that no backslash precedes |
| comment | `//` and the rest of the line |
| a mark | its text |

In a quoted lexeme a backslash takes the character after it along, and that character is not a
line feed.  The first pattern of `Pattern.table` that takes anything decides; each takes as much
as it can, and `==` and `!=` come before `=` and `!`, `//` before `/`.
-/

import MonkeySyntax.Lexer.Escape
import MonkeySyntax.Text.Blank
import MonkeySyntax.Token.Kind

namespace MonkeySyntax

/-- An ASCII letter or the underscore. -/
def isWordStart (c : Char) : Bool := c.isAlpha || c = '_'

/-- An ASCII letter, an ASCII digit or the underscore. -/
def isWordPart (c : Char) : Bool := c.isAlphanum || c = '_'

/-- A form of lexeme. -/
inductive Pattern where
  | word | number | blanks | quoted | comment
  | mark (m : Mark)
  deriving DecidableEq, Repr

namespace Pattern

/-- The run of `p`-characters at the head of `cs` and what follows it, if the first character is
a `start`-character. -/
def run (start p : Char → Bool) : List Char → Option (List Char × List Char)
  | [] => none
  | c :: cs => if start c then some (c :: cs.takeWhile p, cs.dropWhile p) else none

/-- The body of a quoted lexeme with its closing quote, and what follows. -/
def closeQuote : List Char → Option (List Char × List Char)
  | [] => none
  | '"' :: cs => some (['"'], cs)
  | ['\\'] => none
  | '\\' :: c :: cs =>
    if c = '\n' then none else (closeQuote cs).map fun (b, r) => ('\\' :: c :: b, r)
  | c :: cs => (closeQuote cs).map fun (b, r) => (c :: b, r)

/-- The lexeme of a pattern at the head of a text, and what follows it. -/
def split : Pattern → List Char → Option (List Char × List Char)
  | word, cs => run isWordStart isWordPart cs
  | number, cs => run Char.isDigit Char.isDigit cs
  | blanks, cs => run Text.isBlank Text.isBlank cs
  | quoted, '"' :: cs => (closeQuote cs).map fun (b, r) => ('"' :: b, r)
  | comment, '/' :: '/' :: cs =>
    some ('/' :: '/' :: cs.takeWhile (· ≠ '\n'), cs.dropWhile (· ≠ '\n'))
  | mark m, cs =>
    if m.text.toList.isPrefixOf cs then some (m.text.toList, cs.drop m.text.toList.length)
    else none
  | _, _ => none

/-- A run is a head of the text, and not empty. -/
theorem run_eq_some {start p : Char → Bool} {cs a b : List Char}
    (h : run start p cs = some (a, b)) : cs = a ++ b ∧ a ≠ [] := by
  cases cs with
  | nil => simp [run] at h
  | cons c cs =>
    simp only [run] at h
    split at h
    · simp only [Option.some.injEq, Prod.mk.injEq] at h
      obtain ⟨rfl, rfl⟩ := h
      simp
    · simp at h

/-- What is read up to the closing quote is a head of the text. -/
theorem closeQuote_eq_some {cs a b : List Char} (h : closeQuote cs = some (a, b)) :
    cs = a ++ b := by
  fun_induction closeQuote cs generalizing a b with
  | case1 => simp at h
  | case2 => simp at h; obtain ⟨rfl, rfl⟩ := h; simp
  | case3 => simp at h
  | case4 => simp at h
  | case5 c cs _ ih =>
    obtain ⟨⟨b', r⟩, h, heq⟩ := Option.map_eq_some_iff.1 h
    simp only [Prod.mk.injEq] at heq
    simp [ih h, ← heq.1, ← heq.2]
  | case6 c cs _ _ _ ih =>
    obtain ⟨⟨b', r⟩, h, heq⟩ := Option.map_eq_some_iff.1 h
    simp only [Prod.mk.injEq] at heq
    simp [ih h, ← heq.1, ← heq.2]

/-- **A lexeme is a non-empty head of the text,** and the rest follows it. -/
theorem split_eq_some {p : Pattern} {cs a b : List Char} (h : p.split cs = some (a, b)) :
    cs = a ++ b ∧ a ≠ [] := by
  unfold split at h
  split at h
  · exact run_eq_some h
  · exact run_eq_some h
  · exact run_eq_some h
  · simp only [Option.map_eq_some_iff, Prod.mk.injEq, Prod.exists] at h
    obtain ⟨_, _, h, rfl, rfl⟩ := h
    simp [closeQuote_eq_some h]
  · simp only [Option.some.injEq, Prod.mk.injEq] at h
    obtain ⟨rfl, rfl⟩ := h
    simp
  · split at h
    · rename_i hm
      simp only [Option.some.injEq, Prod.mk.injEq] at h
      obtain ⟨rfl, rfl⟩ := h
      obtain ⟨r, rfl⟩ := List.isPrefixOf_iff_prefix.1 hm
      exact ⟨by simp, Mark.text_ne_nil _⟩
    · simp at h
  · simp at h

/-- The patterns, in the order in which they are tried. -/
def table : List Pattern :=
  [word, number, blanks, quoted, comment,
   mark .openBracket, mark .closeBracket, mark .openCurly, mark .closeCurly,
   mark .openParen, mark .closeParen,
   mark .equals, mark .notEquals, mark .not, mark .assign, mark .less, mark .greater,
   mark .semicolon, mark .colon, mark .comma,
   mark .plus, mark .dash, mark .slash, mark .star]

/-- The first pattern that has a lexeme at the head of a text, the lexeme, and what follows. -/
def first? (cs : List Char) : Option (Pattern × List Char × List Char) :=
  table.findSome? fun p => (p.split cs).map (p, ·)

/-- The first match is a match of its own pattern. -/
theorem first?_eq_some {cs a b : List Char} {p : Pattern} (h : first? cs = some (p, a, b)) :
    p.split cs = some (a, b) := by
  obtain ⟨q, -, h⟩ := List.exists_of_findSome?_eq_some h
  simp only [Option.map_eq_some_iff, Prod.mk.injEq] at h
  obtain ⟨x, h, rfl, rfl⟩ := h
  exact h

/-- The kind and the value of the token that a lexeme is; blanks and comments are none. -/
def token? : Pattern → List Char → Option (Kind × String)
  | word, cs => some (.ofWord (String.ofList cs), String.ofList cs)
  | number, cs => some (.integer, String.ofList cs)
  | blanks, _ => none
  | quoted, cs => some (.string, String.ofList (Escape.unescape (cs.tail.dropLast)))
  | comment, _ => none
  | mark m, _ => some (.mark m, m.text)

end Pattern

end MonkeySyntax

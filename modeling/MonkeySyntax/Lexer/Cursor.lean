/-
# Reading tokens off a text

A cursor stands between two characters of a text.  Asked for a token it skips blanks and comments
and takes one lexeme; a character that starts none is a token by itself.  At the end of the text
it stays there and hands out the end of the input.
-/

import MonkeySyntax.Lexer.Pattern
import MonkeySyntax.Text.Bytes
import MonkeySyntax.Token.Source

namespace MonkeySyntax

/-- A place in the text called `file`. -/
structure Cursor where
  /-- The text after the place. -/
  rest : List Char
  /-- How many bytes of the text come before it. -/
  pos : Nat
  file : String
  deriving DecidableEq, Repr

namespace Cursor

/-- The start of a text; one that has no name is called `shell`. -/
def ofText (text : String) (file : Option String) : Cursor :=
  ⟨text.toList, 0, file.getD "shell"⟩

/-- The cursor after `lexeme`, where `rest` follows. -/
def past (c : Cursor) (lexeme rest : List Char) : Cursor :=
  ⟨rest, c.pos + Text.byteLength lexeme, c.file⟩

/-- The position of a cursor. -/
def position (c : Cursor) : Position := ⟨.ofNat c.pos, c.file⟩

/-- The text between two cursors. -/
def spanTo (c d : Cursor) : Span := ⟨c.position, d.position⟩

/-- The next token, and the cursor after it. -/
def next (c : Cursor) : Token × Cursor :=
  match c.rest with
  | [] => (.eof (c.spanTo c), c)
  | ch :: tail =>
    match _hf : Pattern.first? c.rest with
    | none =>
      let d := c.past [ch] tail
      (⟨.illegal, String.singleton ch, c.spanTo d⟩, d)
    | some (p, lexeme, rest) =>
      let d := c.past lexeme rest
      match p.token? lexeme with
      | some (kind, value) => (⟨kind, value, c.spanTo d⟩, d)
      | none => d.next
termination_by c.rest.length
decreasing_by
  obtain ⟨h, hne⟩ := Pattern.split_eq_some (Pattern.first?_eq_some _hf)
  have := List.length_pos_iff.2 hne
  simp only [past, h, List.length_append]
  omega

/-- **A token other than the end of the input takes at least one character.** -/
theorem length_rest_next (c : Cursor) :
    c.next.2.rest.length + c.next.1.weight ≤ c.rest.length := by
  fun_induction next c with
  | case1 c hr => simp [hr, Token.eof, Token.weight]
  | case2 c ch tail hr hf d => simp [d, past, hr, Token.weight]
  | case3 c ch tail hr p lexeme rest hf d kind value ht =>
    obtain ⟨h, hne⟩ := Pattern.split_eq_some (Pattern.first?_eq_some hf)
    have := List.length_pos_iff.2 hne
    simp only [d, past, h, List.length_append, Token.weight]
    split <;> omega
  | case4 c ch tail hr p lexeme rest hf d ht ih =>
    obtain ⟨h, hne⟩ := Pattern.split_eq_some (Pattern.first?_eq_some hf)
    simp only [d, past] at ih
    simp only [d, past, h, List.length_append]
    omega

instance : TokenSource Cursor where
  next := next
  remaining c := c.rest.length
  remaining_next := length_rest_next

/-- The tokens up to and including the end of the input. -/
def tokens (c : Cursor) : List Token :=
  if _h : c.next.1.kind = .eof then [c.next.1] else c.next.1 :: c.next.2.tokens
termination_by c.rest.length
decreasing_by
  have := length_rest_next c
  have := Token.weight_eq_one _h
  omega

end Cursor

end MonkeySyntax

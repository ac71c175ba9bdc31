/-
# Kinds of token

The marks and the keywords of Monkey have one spelling each.  Names, numbers and strings have
many.  Two further kinds say what the lexer could not read and that nothing is left to read.

| kind | spelling | shown as |
| --- | --- | --- |
| a mark | its text | its text |
| a keyword | its word | the word's name in capitals |
| identifier, integer, string | any | `IDENT`, `INT`, `STRING` |
| illegal, end of input | any, none | `ILLEGAL`, `EOF` |
-/

namespace MonkeySyntax

/-- An operator or a piece of punctuation. -/
inductive Mark where
  | assign | plus | dash | not | star | slash
  | less | greater | equals | notEquals
  | comma | semicolon | colon
  | openParen | closeParen | openCurly | closeCurly | openBracket | closeBracket
  deriving DecidableEq, Repr

/-- A word that cannot be a name. -/
inductive Keyword where
  | fnWord | letWord | trueWord | falseWord | ifWord | elseWord | returnWord
  deriving DecidableEq, Repr

/-- What a token is, whatever its text. -/
inductive Kind where
  /-- A character that starts no lexeme. -/
  | illegal
  /-- The end of the input. -/
  | eof
  | identifier | integer | string
  | mark (m : Mark)
  | keyword (w : Keyword)
  deriving DecidableEq, Repr

namespace Mark

/-- How a mark is spelled. -/
def text : Mark → String
  | assign => "=" | plus => "+" | dash => "-" | not => "!" | star => "*" | slash => "/"
  | less => "<" | greater => ">" | equals => "==" | notEquals => "!="
  | comma => "," | semicolon => ";" | colon => ":"
  | openParen => "(" | closeParen => ")"
  | openCurly => "\x7b" | closeCurly => "\x7d"
  | openBracket => "[" | closeBracket => "]"

/-- Two marks are never spelled alike. -/
theorem text_injective {a b : Mark} (h : a.text = b.text) : a = b := by
  revert h; cases a <;> cases b <;> decide

/-- No mark is written as nothing. -/
theorem text_ne_nil (m : Mark) : m.text.toList ≠ [] := by cases m <;> decide

end Mark

namespace Keyword

/-- How a keyword is spelled. -/
def text : Keyword → String
  | fnWord => "fn" | letWord => "let" | trueWord => "true" | falseWord => "false"
  | ifWord => "if" | elseWord => "else" | returnWord => "return"

/-- The name of a keyword in a message. -/
def display : Keyword → String
  | fnWord => "FUNCTION" | letWord => "LET" | trueWord => "TRUE" | falseWord => "FALSE"
  | ifWord => "IF" | elseWord => "ELSE" | returnWord => "RETURN"

/-- Every keyword. -/
def all : List Keyword :=
  [fnWord, letWord, trueWord, falseWord, ifWord, elseWord, returnWord]

/-- The keyword with a given spelling. -/
def ofText? (s : String) : Option Keyword := all.find? (·.text = s)

/-- A keyword is read from its own text. -/
theorem ofText?_text (w : Keyword) : ofText? w.text = some w := by cases w <;> decide

/-- A keyword is read from no other text. -/
theorem eq_of_ofText? {s : String} {w : Keyword} (h : ofText? s = some w) : w.text = s := by
  simpa using List.find?_some h

end Keyword

namespace Kind

/-- The name of a kind in a message. -/
def display : Kind → String
  | illegal => "ILLEGAL" | eof => "EOF"
  | identifier => "IDENT" | integer => "INT" | string => "STRING"
  | mark m => m.text
  | keyword w => w.display

/-- The kind of a word: a keyword's own, or that of a name. -/
def ofWord (s : String) : Kind :=
  match Keyword.ofText? s with
  | some w => keyword w
  | none => identifier

/-- A mark is not the end of the input. -/
theorem mark_ne_eof {k : Kind} {m : Mark} (h : k = mark m) : k ≠ eof := by simp [h]

end Kind

end MonkeySyntax

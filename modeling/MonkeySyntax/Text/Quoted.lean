/-
# Quoted text

A token's text inside a message stands between double quotes, so that blanks, line breaks and
characters without a glyph can be told apart:

| character | written |
| --- | --- |
| `"`, `\` | after a `\` |
| tab, carriage return, line feed, NUL | `\t`, `\r`, `\n`, `\0` |
| extending or invisible | `\u`, then the code point in hexadecimal between curly brackets |
| any other | itself |
-/

import MonkeySyntax.Text.Extending
import MonkeySyntax.Text.Invisible

namespace MonkeySyntax
namespace Text

/-- A code point as an escape, in lower-case hexadecimal without leading zeros. -/
def codePointEscape (c : Char) : List Char :=
  ['\\', 'u', '\x7b'] ++ Nat.toDigits 16 c.toNat ++ ['\x7d']

/-- One character of a quoted text. -/
def quotedChar (c : Char) : List Char :=
  if c = '"' then ['\\', '"']
  else if c = '\\' then ['\\', '\\']
  else if c = '\t' then ['\\', 't']
  else if c = '\r' then ['\\', 'r']
  else if c = '\n' then ['\\', 'n']
  else if c = '\x00' then ['\\', '0']
  else if isExtending c || isInvisible c then codePointEscape c
  else [c]

/-- `s` between double quotes, with every character in its quoted form. -/
def quoted (s : String) : String :=
  String.ofList ('"' :: s.toList.flatMap quotedChar ++ ['"'])

example : quoted "a\t\"\\\u0301" = "\"a\\t\\\"\\\\\\u\x7b301\x7d\"" := by decide +kernel

end Text
end MonkeySyntax

/-
# Escapes in strings

Between the quotes of a string literal a backslash and the text after it stand for one character:

| written | stands for |
| --- | --- |
| `\n`, `\t`, `\r`, `\0` | line feed, tab, carriage return, NUL |
| `\\`, `\"` | `\`, `"` |
| `\x` and one or two hexadecimal digits | the character with that code |

A backslash before anything else stands for itself, and the text after it is read on its own.
-/

namespace MonkeySyntax
namespace Escape

/-- A digit of a hexadecimal number, in either case. -/
def isHexDigit (c : Char) : Bool :=
  c.isDigit || ('a' ≤ c && c ≤ 'f') || ('A' ≤ c && c ≤ 'F')

/-- What a hexadecimal digit is worth. -/
def hexDigitValue (c : Char) : Nat :=
  if c.isDigit then c.toNat - '0'.toNat
  else if 'a' ≤ c then c.toNat - 'a'.toNat + 10
  else c.toNat - 'A'.toNat + 10

/-- The number that hexadecimal digits spell. -/
def hexValue (digits : List Char) : Nat :=
  digits.foldl (fun n c => 16 * n + hexDigitValue c) 0

/-- The character that a backslash and `c` stand for, where one character after it decides. -/
def simple? (c : Char) : Option Char :=
  if c = 'n' then some '\n'
  else if c = 't' then some '\t'
  else if c = 'r' then some '\r'
  else if c = '0' then some '\x00'
  else if c = '\\' then some '\\'
  else if c = '"' then some '"'
  else none

/-- The hexadecimal digits, at most two, at the head of a text. -/
def codeDigits (cs : List Char) : List Char := (cs.take 2).takeWhile isHexDigit

/-- What the text between the quotes of a string literal stands for. -/
def unescape : List Char → List Char
  | [] => []
  | ['\\'] => ['\\']
  | '\\' :: c :: cs =>
    match simple? c with
    | some d => d :: unescape cs
    | none =>
      if c = 'x' then
        if codeDigits cs = [] then '\\' :: 'x' :: unescape cs
        else Char.ofNat (hexValue (codeDigits cs)) :: unescape (cs.drop (codeDigits cs).length)
      else '\\' :: unescape (c :: cs)
  | c :: cs => c :: unescape cs
termination_by cs => cs.length
decreasing_by
  all_goals
    simp only [List.length_cons, List.length_drop]
    omega

example : unescape ['\\', 'x', '4', '1', '1', '\\', 'x', 'g', '\\', 'q'] =
    ['A', '1', '\\', 'x', 'g', '\\', 'q'] := by decide +kernel

end Escape
end MonkeySyntax

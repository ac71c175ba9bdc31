/-
# Reading numbers

A numeral is an optional sign and one or more ASCII digits, in base ten.  It is read as a signed
64-bit integer, or not at all if its value is out of range.
-/

namespace MonkeySyntax
namespace Numeral

/-- The number that decimal digits spell. -/
def value (digits : List Char) : Nat :=
  digits.foldl (fun n c => 10 * n + (c.toNat - '0'.toNat)) 0

/-- The number that a text spells, if it is one or more decimal digits. -/
def natural? (cs : List Char) : Option Nat :=
  if cs ≠ [] ∧ cs.all Char.isDigit then some (value cs) else none

/-- The number that a text spells, if it is a numeral. -/
def integer? : List Char → Option Int
  | '-' :: cs => (natural? cs).map fun n => -(n : Int)
  | '+' :: cs => (natural? cs).map fun n => (n : Int)
  | cs => (natural? cs).map fun n => (n : Int)

/-- The signed 64-bit integer that a text spells. -/
def int64? (s : String) : Option Int64 := do
  let n ← integer? s.toList
  if Int64.minValue.toInt ≤ n ∧ n ≤ Int64.maxValue.toInt then some (Int64.ofInt n) else none

example : int64? "9223372036854775807" = some 9223372036854775807 := by decide +kernel

example : int64? "9223372036854775808" = none ∧ int64? "-" = none := by decide +kernel

end Numeral
end MonkeySyntax

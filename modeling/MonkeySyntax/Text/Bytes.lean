/-
# Byte offsets in a text

Positions in a source count the bytes of its UTF-8 form.  A text is a list of characters here, so
an offset names a place in it only if it falls between two characters (`dropBytes`).
-/

namespace MonkeySyntax
namespace Text

/-- How many bytes `cs` takes in UTF-8. -/
def byteLength : List Char → Nat
  | [] => 0
  | c :: cs => c.utf8Size + byteLength cs

@[simp] theorem byteLength_nil : byteLength [] = 0 := rfl

@[simp] theorem byteLength_cons (c : Char) (cs : List Char) :
    byteLength (c :: cs) = c.utf8Size + byteLength cs := rfl

/-- The length of two texts in a row is the sum of theirs. -/
@[simp] theorem byteLength_append (as bs : List Char) :
    byteLength (as ++ bs) = byteLength as + byteLength bs := by
  induction as with
  | nil => simp
  | cons a as ih => simp [ih, Nat.add_assoc]

/-- A text that is not empty has a byte. -/
theorem byteLength_pos {cs : List Char} (h : cs ≠ []) : 0 < byteLength cs := by
  obtain ⟨c, tail, rfl⟩ := List.exists_cons_of_ne_nil h
  exact Nat.add_pos_left c.utf8Size_pos _

/-- What follows the first `n` bytes of `cs`, if the `n`th byte ends a character. -/
def dropBytes : Nat → List Char → Option (List Char)
  | 0, cs => some cs
  | _ + 1, [] => none
  | n + 1, c :: cs => if c.utf8Size ≤ n + 1 then dropBytes (n + 1 - c.utf8Size) cs else none

/-- **An offset after some of the characters leaves the others.** -/
theorem dropBytes_byteLength (as bs : List Char) :
    dropBytes (byteLength as) (as ++ bs) = some bs := by
  induction as with
  | nil => simp [dropBytes]
  | cons a as ih =>
    obtain ⟨n, hn⟩ := Nat.exists_eq_succ_of_ne_zero (Nat.pos_iff_ne_zero.1 a.utf8Size_pos)
    have h : byteLength (a :: as) = (n + byteLength as) + 1 := by simp [hn]; omega
    rw [h, List.cons_append, dropBytes, if_pos (by omega)]
    rw [show n + byteLength as + 1 - a.utf8Size = byteLength as by omega, ih]

end Text
end MonkeySyntax

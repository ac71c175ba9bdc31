/-
# Sources of tokens

A source hands out tokens one at a time and never runs dry: past its end it goes on handing out
the end of the input.  How many tokens other than that are still to come is bounded, and every
one handed out lowers the bound, so whoever asks often enough sees the end.
-/

import MonkeySyntax.Token

namespace MonkeySyntax

/-- Whatever hands out tokens. -/
class TokenSource (σ : Type) where
  /-- The next token, and the source after it. -/
  next : σ → Token × σ
  /-- A bound on the tokens, other than the end of the input, that are still to come. -/
  remaining : σ → Nat
  /-- A token of the input lowers the bound. -/
  remaining_next (s : σ) : remaining (next s).2 + (next s).1.weight ≤ remaining s

namespace TokenSource

variable {σ : Type} [TokenSource σ]

/-- The next `n` tokens of a source, and the source after them. -/
def take : Nat → σ → List Token × σ
  | 0, s => ([], s)
  | n + 1, s => ((next s).1 :: (take n (next s).2).1, (take n (next s).2).2)

/-- Who asks for fewer tokens gets the first of them. -/
theorem take_add (n m : Nat) (s : σ) : ((take (n + m) s).1).take n = (take n s).1 := by
  induction n generalizing s with
  | zero => rfl
  | succ n ih => rw [Nat.add_right_comm, take, take, List.take_succ_cons, ih]

end TokenSource

end MonkeySyntax

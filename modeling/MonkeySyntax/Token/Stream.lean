/-
# A list of tokens as a source

A stream hands out the tokens of a list, then an end of input for ever.  That end is the list's
own: the last end of input that occurs in it.  A list without one ends where its last token ends,
and the empty list in no text at all.
-/

import MonkeySyntax.Token.Source

namespace MonkeySyntax

/-- What is left of a list of tokens. -/
structure Stream where
  /-- The tokens of the list that were not handed out yet. -/
  pending : List Token
  /-- What is handed out after them. -/
  final : Token
  final_kind : final.kind = .eof

namespace Stream

/-- The end of input that follows a list of tokens. -/
def finalOf (tokens : List Token) : Token :=
  match tokens.reverse.find? (·.kind = .eof) with
  | some t => t
  | none =>
    match tokens.getLast? with
    | some t => .eof ⟨t.span.stop, t.span.stop⟩
    | none => .eof .null

/-- What follows a list of tokens is an end of the input. -/
theorem finalOf_kind (tokens : List Token) : (finalOf tokens).kind = .eof := by
  unfold finalOf
  split
  · rename_i t h; simpa using List.find?_some h
  · split <;> rfl

/-- The stream of a list of tokens. -/
def ofList (tokens : List Token) : Stream := ⟨tokens, finalOf tokens, finalOf_kind tokens⟩

/-- The next token of a stream. -/
def next : Stream → Token × Stream
  | ⟨[], final, h⟩ => (final, ⟨[], final, h⟩)
  | ⟨t :: ts, final, h⟩ => (t, ⟨ts, final, h⟩)

/-- How many pending tokens are not the end of the input. -/
def remaining (s : Stream) : Nat := s.pending.countP (·.kind ≠ .eof)

instance : TokenSource Stream where
  next := next
  remaining := remaining
  remaining_next
    | ⟨[], _, h⟩ => by simp [next, remaining, Token.weight_eq_zero h]
    | ⟨t :: _, _, _⟩ => by by_cases ht : t.kind = .eof <;> simp [next, remaining, Token.weight, ht]

/-- **What a stream hands out:** what is pending, then its end of the input for ever. -/
theorem take_eq (s : Stream) (n : Nat) :
    (TokenSource.take n s).1 = (s.pending ++ List.replicate n s.final).take n := by
  obtain ⟨pending, final, h⟩ := s
  induction n generalizing pending with
  | zero => rfl
  | succ n ih =>
    cases pending with
    | nil => exact congrArg (final :: ·) (ih [])
    | cons t ts =>
      calc (TokenSource.take (n + 1) (⟨t :: ts, final, h⟩ : Stream)).1
          = t :: (ts ++ List.replicate n final).take n := congrArg (t :: ·) (ih ts)
        _ = (t :: ts ++ List.replicate (n + 1) final).take (n + 1) := by
          simp [List.replicate_succ', ← List.append_assoc, List.take_append]

/-- The end of the input that comes last in a list is what follows it. -/
theorem finalOf_concat (ts : List Token) {t : Token} (ht : t.kind = .eof) :
    finalOf (ts ++ [t]) = t := by
  simp [finalOf, ht]

/-- A list that ends in an end of the input is followed by it. -/
theorem ofList_concat (ts : List Token) {t : Token} (ht : t.kind = .eof) :
    ofList (ts ++ [t]) = ⟨ts ++ [t], t, ht⟩ := by
  simp only [ofList, finalOf_concat ts ht]

end Stream

end MonkeySyntax

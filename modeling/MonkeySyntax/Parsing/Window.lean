/-
# Two tokens at a time

A parser sees the token it is at and the one after it.  It can only move on: the next token of the
source takes the second place, and what was there the first.  `Onward` is the relation between the
windows before and after any number of such moves.

Two numbers bound the tokens, other than the end of the input, that a window can still come to:
`ahead` counts those after the current one, and `left` counts the current one too.  Moving on never
raises them (`Onward.ahead_le`, `Onward.left_le`).
-/

import MonkeySyntax.Token.Source

namespace MonkeySyntax

/-- Two neighbouring tokens of a source, and what follows them. -/
structure Window (σ : Type) where
  source : σ
  /-- The token that is being read. -/
  current : Token
  /-- The token after it. -/
  peek : Token

namespace Window

variable {σ : Type} [TokenSource σ]

/-- The window at the first token of a source. -/
def start (s : σ) : Window σ :=
  let (current, s) := TokenSource.next s
  let (peek, s) := TokenSource.next s
  ⟨s, current, peek⟩

/-- The window one token further on. -/
def advance (w : Window σ) : Window σ :=
  let (t, s) := TokenSource.next w.source
  ⟨s, w.peek, t⟩

@[simp] theorem current_advance (w : Window σ) : w.advance.current = w.peek := rfl

/-- A bound on the tokens that come after the current one. -/
def ahead (w : Window σ) : Nat := TokenSource.remaining w.source + w.peek.weight

/-- A bound on the tokens from the current one on. -/
def left (w : Window σ) : Nat := w.ahead + w.current.weight

/-- A step takes the next token from those ahead. -/
theorem ahead_advance (w : Window σ) : w.advance.ahead + w.peek.weight ≤ w.ahead := by
  have := TokenSource.remaining_next w.source
  simp only [ahead, advance]
  omega

/-- A step takes the current token from those left. -/
theorem left_advance (w : Window σ) : w.advance.left + w.current.weight ≤ w.left := by
  have := w.ahead_advance
  simp only [left, current_advance]
  omega

/-- `v` is where `w` gets to by moving on, possibly not at all. -/
inductive Onward : Window σ → Window σ → Prop
  | refl (w : Window σ) : Onward w w
  | step {w v : Window σ} : Onward w.advance v → Onward w v

namespace Onward

variable {u v w : Window σ}

/-- Onward and onward again is onward. -/
theorem trans (h : Onward u v) (k : Onward v w) : Onward u w := by
  induction h with
  | refl => exact k
  | step _ ih => exact .step (ih k)

/-- One step is onward. -/
theorem advance (w : Window σ) : Onward w w.advance := .step (.refl _)

/-- Onward there are no more tokens ahead. -/
theorem ahead_le (h : Onward w v) : v.ahead ≤ w.ahead := by
  induction h with
  | refl => exact Nat.le_refl _
  | @step w v _ ih =>
    have := w.ahead_advance
    omega

/-- Onward there are no more tokens left. -/
theorem left_le (h : Onward w v) : v.left ≤ w.left := by
  induction h with
  | refl => exact Nat.le_refl _
  | @step w v _ ih =>
    have := w.left_advance
    omega

/-- **To come to a token of the input is to have one token less ahead.** -/
theorem ahead_lt (h : Onward w.advance v) (hv : v.current.kind ≠ .eof) : v.ahead < w.ahead := by
  have h₁ := h.left_le
  have h₂ := w.ahead_advance
  simp only [left, current_advance, Token.weight_eq_one hv] at h₁
  omega

/-- **To leave a token of the input is to have one token less left.** -/
theorem left_lt (h : Onward w v) (hw : w.current.kind ≠ .eof)
    (hne : v.current ≠ w.current) : v.left < w.left := by
  cases h with
  | refl => exact absurd rfl hne
  | step h =>
    have h₁ := h.left_le
    have h₂ := w.left_advance
    rw [Token.weight_eq_one hw] at h₂
    omega

/-- **To move on from a token of the input is to have one token less left.** -/
theorem left_advance_lt (h : Onward w v) (hw : w.current.kind ≠ .eof) :
    v.advance.left < w.left := by
  have hv := v.left_advance
  cases h with
  | refl =>
    rw [Token.weight_eq_one hw] at hv
    omega
  | step h =>
    have h₁ := h.left_le
    have h₂ := w.left_advance
    rw [Token.weight_eq_one hw] at h₂
    omega

/-- **To move past the next token is to have one token less left,** if it is one of the input. -/
theorem left_lt_of_peek (h : Onward w.advance.advance v) (hw : w.peek.kind ≠ .eof) :
    v.left < w.left := by
  have h₁ := h.left_le
  have h₂ := w.advance.left_advance
  have h₃ := w.left_advance
  rw [current_advance, Token.weight_eq_one hw] at h₂
  omega

end Onward

end Window

end MonkeySyntax

/-
# Actions of a parser

An action reads something: from a parser it makes a parser further on, and a result unless it
failed.  It reports why it failed itself.  Actions run one after the other, and the first that
fails ends the run.  No action moves the window back, which is a law of the type, so any sequence
of actions is bounded by the tokens left.

An action *lands* if each of its results leaves the parser at a token of the input
(`Action.Lands`), and *stays* if it does so provided that it began at one (`Action.Stays`).  A
phrase is an action that lands: what it read ends in the current token.
-/

import MonkeySyntax.Parsing.State

namespace MonkeySyntax

/-- A way to read something: a result, if there is one, and the parser after it. -/
structure Action (σ : Type) [TokenSource σ] (α : Type) where
  run : Parser σ → Option α × Parser σ
  onward (p : Parser σ) : p.window.Onward (run p).2.window

namespace Action

variable {σ : Type} [TokenSource σ] {α β : Type}

/-- The action that does nothing. -/
protected def pure (x : α) : Action σ α := ⟨fun p => (some x, p), fun _ => .refl _⟩

/-- One action, then another that depends on its result. -/
protected def bind (a : Action σ α) (f : α → Action σ β) : Action σ β where
  run p :=
    match a.run p with
    | (some x, q) => (f x).run q
    | (none, q) => (none, q)
  onward p := by
    have h := a.onward p
    split
    · rename_i x q hq
      rw [hq] at h
      exact h.trans ((f x).onward q)
    · rename_i q hq
      rw [hq] at h
      exact h

instance : Monad (Action σ) where
  pure := Action.pure
  bind := Action.bind

@[simp] theorem run_pure (x : α) (p : Parser σ) : (pure x : Action σ α).run p = (some x, p) := rfl

/-- A sequence goes on with the result of its first part, and fails where that fails. -/
theorem run_bind (a : Action σ α) (f : α → Action σ β) (p : Parser σ) :
    (a >>= f).run p =
      match a.run p with
      | (some x, q) => (f x).run q
      | (none, q) => (none, q) := rfl

/-- **A sequence has a result only if both of its parts have one.** -/
theorem run_bind_eq_some {a : Action σ α} {f : α → Action σ β} {p : Parser σ} {y : β}
    (h : ((a >>= f).run p).1 = some y) :
    ∃ x, (a.run p).1 = some x ∧ (a >>= f).run p = (f x).run (a.run p).2 := by
  rw [run_bind] at h ⊢
  split at h
  · rename_i x q hq
    exact ⟨x, by simp [hq]⟩
  · simp at h

/-- The current token. -/
def current : Action σ Token := ⟨fun p => (some p.current, p), fun _ => .refl _⟩

/-- How tightly the current token binds. -/
def currentPower : Action σ Power :=
  ⟨fun p => (some (p.grammar.power p.current.kind), p), fun _ => .refl _⟩

/-- Whether the current token is of kind `k`. -/
def currentIs (k : Kind) : Action σ Bool :=
  ⟨fun p => (some (p.current.kind = k), p), fun _ => .refl _⟩

/-- Whether the next token is of kind `k`. -/
def peekIs (k : Kind) : Action σ Bool :=
  ⟨fun p => (some (p.peek.kind = k), p), fun _ => .refl _⟩

/-- Moves one token on. -/
def advance : Action σ Unit := ⟨fun p => (some (), p.advance), fun _ => .advance _⟩

/-- Reports an error and fails. -/
def reject (d : Parser σ → Diagnostic) : Action σ α :=
  ⟨fun p => (none, p.report (d p)), fun _ => .refl _⟩

/-- Moves one token on if that token is of kind `k`, and fails otherwise. -/
def expect (k : Kind) : Action σ Unit where
  run p := if p.peek.kind = k then (some (), p.advance) else (none, p.report (p.unexpectedPeek k))
  onward p := by
    split
    · exact .advance _
    · exact .refl _

/-- Tries an action, and goes on without a result if it fails. -/
def attempt (a : Action σ α) : Action σ (Option α) where
  run p := (some (a.run p).1, (a.run p).2)
  onward := a.onward

/-- An action at the end of a statement: a `;` after it goes with it. -/
def thenSemicolon (a : Action σ α) : Action σ α where
  run p := ((a.run p).1, (a.run p).2.skipSemicolon (a.run p).1.isNone)
  onward p := (a.onward p).trans (Parser.onward_skipSemicolon _ _)

/-- An action inside of one more expression. -/
def inExpr (a : Action σ α) : Action σ α where
  run p := ((a.run p.enterExpr).1, (a.run p.enterExpr).2.exitExpr)
  onward p := a.onward p.enterExpr

/-- An action inside of one more block. -/
def inBlock (a : Action σ α) : Action σ α where
  run p := ((a.run p.enterBlock).1, (a.run p.enterBlock).2.exitBlock)
  onward p := a.onward p.enterBlock

/-- An action that reads a statement, noted in the journal. -/
def noted (a : Action σ α) : Action σ α where
  run p :=
    let (x, q) := a.run (p.note (.began p.current))
    (x, q.note (if x.isSome then .kept else .dropped))
  onward p := a.onward (p.note (.began p.current))

/-! ### What the first actions of a sequence do -/

@[simp] theorem run_current_bind (f : Token → Action σ β) (p : Parser σ) :
    (current >>= f).run p = (f p.current).run p := rfl

@[simp] theorem run_currentIs_bind (k : Kind) (f : Bool → Action σ β) (p : Parser σ) :
    (currentIs k >>= f).run p = (f (p.current.kind = k)).run p := rfl

@[simp] theorem run_peekIs_bind (k : Kind) (f : Bool → Action σ β) (p : Parser σ) :
    (peekIs k >>= f).run p = (f (p.peek.kind = k)).run p := rfl

@[simp] theorem run_advance_bind (f : Unit → Action σ β) (p : Parser σ) :
    (advance >>= f).run p = (f ()).run p.advance := rfl

@[simp] theorem run_attempt_bind (a : Action σ α) (f : Option α → Action σ β) (p : Parser σ) :
    (attempt a >>= f).run p = (f (a.run p).1).run (a.run p).2 := rfl

/-- What comes after an expected token is run only if that token is there. -/
theorem run_expect_bind (k : Kind) (f : Unit → Action σ β) (p : Parser σ) :
    (expect k >>= f).run p =
      if p.peek.kind = k then (f ()).run p.advance
      else (none, p.report (p.unexpectedPeek k)) := by
  by_cases h : p.peek.kind = k <;> simp [run_bind, expect, h]

/-! ### Where actions end -/

/-- Every result leaves the parser at a token of the input. -/
def Lands (a : Action σ α) : Prop :=
  ∀ p x, (a.run p).1 = some x → (a.run p).2.current.kind ≠ .eof

/-- From a token of the input, every result leaves the parser at one. -/
def Stays (a : Action σ α) : Prop :=
  ∀ p x, p.current.kind ≠ .eof → (a.run p).1 = some x → (a.run p).2.current.kind ≠ .eof

/-- An action that lands from anywhere does so from a token of the input. -/
theorem Lands.stays {a : Action σ α} (h : a.Lands) : a.Stays := fun p x _ => h p x

/-- An action that does nothing stays. -/
theorem stays_pure (x : α) : (pure x : Action σ α).Stays := fun _ _ h _ => h

/-- An action that looks ahead stays. -/
theorem stays_peekIs (k : Kind) : (peekIs k : Action σ Bool).Stays := fun _ _ h _ => h

/-- A failure lands, since it has no result. -/
theorem lands_reject (d : Parser σ → Diagnostic) : (reject d : Action σ α).Lands :=
  fun p x h => by simp [reject] at h

/-- An expected token is one of the input, unless the end of the input was expected. -/
theorem lands_expect {k : Kind} (hk : k ≠ .eof) : (expect k : Action σ Unit).Lands := by
  intro p x h
  simp only [expect] at h ⊢
  by_cases hp : p.peek.kind = k
  · simp only [hp, if_true]
    exact hp ▸ hk
  · simp [hp] at h

/-- An action lands if its second part does. -/
theorem Lands.of_second {a : Action σ α} {f : α → Action σ β} (h : ∀ x, (f x).Lands) :
    (a >>= f).Lands := by
  intro p y hy
  rw [run_bind] at hy ⊢
  split at hy
  · rename_i x q hq
    exact h x q y hy
  · simp at hy

/-- An action lands if its first part does and its second part stays. -/
theorem Lands.bind {a : Action σ α} {f : α → Action σ β} (ha : a.Lands) (h : ∀ x, (f x).Stays) :
    (a >>= f).Lands := by
  intro p y hy
  rw [run_bind] at hy ⊢
  split at hy
  · rename_i x q hq
    have hl := ha p x (by rw [hq])
    rw [hq] at hl
    exact h x q y hl hy
  · simp at hy

/-- An action stays if both of its parts do. -/
theorem Stays.bind {a : Action σ α} {f : α → Action σ β} (ha : a.Stays) (h : ∀ x, (f x).Stays) :
    (a >>= f).Stays := by
  intro p y hp hy
  rw [run_bind] at hy ⊢
  split at hy
  · rename_i x q hq
    have hl := ha p x hp (by rw [hq])
    rw [hq] at hl
    exact h x q y hl hy
  · simp at hy

/-- An action lands inside of one more expression if it lands outside of it. -/
theorem Lands.inExpr {a : Action σ α} (h : a.Lands) : a.inExpr.Lands :=
  fun p x hx => h p.enterExpr x hx

end Action

/-- An action whose results end in the current token. -/
structure Phrase (σ : Type) [TokenSource σ] (α : Type) extends Action σ α where
  lands : toAction.Lands

end MonkeySyntax

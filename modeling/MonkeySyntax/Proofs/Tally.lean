/-
# One error for each dropped statement

An action that fails has reported one error, and the statement around it is dropped for it: errors
and dropped statements come in pairs.  The journal notes every statement that was dropped, however
deep in blocks it stood, so the pairing is a count: `Parser.Accounts owed p q` says that from `p`
to `q` the errors grew by the number of drops the journal notes, and by `owed` more.

An action with a result owes nothing, and one that failed owes the drop of its statement.  That is
a law (`Law.tally`), and so every statement and every program keeps it.
-/

import MonkeySyntax.Proofs.Law

namespace MonkeySyntax

variable {σ : Type}

/-- From `p` to `q` the errors grew by one for each statement dropped, and by `owed` more. -/
def Parser.Accounts (owed : Nat) (p q : Parser σ) : Prop :=
  ∃ errors events, q.errors = p.errors ++ errors ∧ q.journal = events ++ p.journal ∧
    errors.length = events.count .dropped + owed

namespace Parser.Accounts

variable {m n : Nat} {p q r : Parser σ}

/-- Where nothing happens, nothing is owed. -/
theorem refl (p : Parser σ) : p.Accounts 0 p := ⟨[], [], by simp⟩

/-- What is owed on the way is owed in the end. -/
theorem trans (h : p.Accounts m q) (k : q.Accounts n r) : p.Accounts (m + n) r := by
  obtain ⟨errors, events, he, hj, hl⟩ := h
  obtain ⟨errors', events', he', hj', hl'⟩ := k
  refine ⟨errors ++ errors', events' ++ events, by simp [he', he], by simp [hj', hj], ?_⟩
  simp only [List.length_append, List.count_append]
  omega

/-- A step that leaves errors and journal alone changes no account. -/
theorem of_eq (he : q.errors = p.errors) (hj : q.journal = p.journal) : p.Accounts 0 q :=
  ⟨[], [], by simp [he, hj]⟩

/-- An error owes a drop. -/
theorem report (p : Parser σ) (d : Diagnostic) : p.Accounts 1 (p.report d) :=
  ⟨[d], [], by simp [Parser.report]⟩

/-- A change of depth owes nothing. -/
theorem atDepths (p : Parser σ) (m n : Nat) : p.Accounts 0 (p.atDepths m n) :=
  ⟨[], [.depths m n], by simp [Parser.atDepths]⟩

/-- To begin a statement owes nothing. -/
theorem began (p : Parser σ) (t : Token) : p.Accounts 0 (p.note (.began t)) :=
  ⟨[], [.began t], by simp [Parser.note]⟩

/-- A statement that was read owes nothing. -/
theorem kept (p : Parser σ) : p.Accounts 0 (p.note .kept) := ⟨[], [.kept], by simp [Parser.note]⟩

/-- A drop settles the account of the error before it. -/
theorem dropped (h : p.Accounts 1 q) : p.Accounts 0 (q.note .dropped) := by
  obtain ⟨errors, events, he, hj, hl⟩ := h
  exact ⟨errors, .dropped :: events, he, by simp [Parser.note, hj], by simp [hl]⟩

end Parser.Accounts

namespace Parsing

/-- From `p`, a statement ended with as many new errors as there are statements dropped from it on,
itself and those in its blocks.  What the journal noted last is how the statement itself ended. -/
def PairsUp (p : Parser σ) (outcome : Option Stmt × Parser σ) : Prop :=
  ∃ errors events,
    outcome.2.errors = p.errors ++ errors ∧
    outcome.2.journal = events ++ p.journal ∧
    errors.length = events.count .dropped ∧
    events.head? = some (if outcome.1.isSome then .kept else .dropped)

/-- A statement that was dropped left an error. -/
theorem PairsUp.errors_ne {p : Parser σ} {outcome : Option Stmt × Parser σ}
    (h : PairsUp p outcome) (hs : outcome.1 = none) : outcome.2.errors ≠ p.errors := by
  obtain ⟨errors, events, he, -, hl, hd⟩ := h
  rw [hs] at hd
  have hpos : 0 < events.count .dropped := by
    rw [List.count_pos_iff]
    exact List.mem_of_head? hd
  intro heq
  rw [heq] at he
  have hnil : errors = [] := List.self_eq_append_right.1 he
  rw [hnil, List.length_nil] at hl
  omega

end Parsing

variable [TokenSource σ]

open MonkeySyntax.Parser

/-- The law of accounts: nothing is owed after a result, and one drop after a failure. -/
def Law.tally : Law σ where
  kept := Accounts 0
  lost := Accounts 1
  refl := .refl
  trans h k := h.trans k
  trans_lost h k := h.trans k
  kept_advance _ := .of_eq rfl rfl
  lost_report := .report
  lost_advance h := h.trans (.of_eq rfl rfl)
  kept_inExpr h := ((Accounts.atDepths _ _ _).trans h).trans (.atDepths _ _ _)
  lost_inExpr h := ((Accounts.atDepths _ _ _).trans h).trans (.atDepths _ _ _)
  kept_inBlock h := ((Accounts.atDepths _ _ _).trans h).trans (.atDepths _ _ _)
  lost_inBlock h := ((Accounts.atDepths _ _ _).trans h).trans (.atDepths _ _ _)
  kept_noted h := ((Accounts.began _ _).trans h).trans (.kept _)
  kept_dropped h := ((Accounts.began _ _).trans h).dropped

namespace Parsing

/-- **A statement has as many errors as drops in it,** its own among them if it is dropped. -/
theorem pairsUp_statement {expr : Power → Phrase σ Expr}
    (h : ∀ bp, Law.tally.Follows (expr bp).toAction) (p : Parser σ) :
    PairsUp p ((statement expr).run p) := by
  have hs := Law.follows_anyStatement h (p.note (.began p.current))
  rcases hr : (anyStatement expr).run (p.note (.began p.current)) with ⟨_ | s, q⟩
  · obtain ⟨errors, events, he, hj, hl⟩ := hs.of_none hr
    have hrun : (statement expr).run p = (none, q.note .dropped) := by
      simp only [statement, Action.noted, hr, Option.isSome_none, Bool.false_eq_true, if_false]
    rw [hrun]
    refine ⟨errors, .dropped :: (events ++ [.began p.current]), he, ?_, ?_, rfl⟩
    · simp [Parser.note, hj]
    · simp [hl]
  · obtain ⟨errors, events, he, hj, hl⟩ := hs.of_some hr
    have hrun : (statement expr).run p = (some s, q.note .kept) := by
      simp only [statement, Action.noted, hr, Option.isSome_some, if_true]
    rw [hrun]
    refine ⟨errors, .kept :: (events ++ [.began p.current]), he, ?_, ?_, rfl⟩
    · simp [Parser.note, hj]
    · simp [hl]

/-- A program has as many errors as statements that were dropped, at any depth. -/
theorem length_errors_program (s : σ) :
    (Parser.start s).program.2.errors.length
      = (Parser.start s).program.2.journal.count .dropped := by
  obtain ⟨errors, events, he, hj, hl⟩ := Law.tally.kept_statements (Parser.start s)
  have herrors : (Parser.start s).errors = [] := rfl
  have hjournal : (Parser.start s).journal = [] := rfl
  simp only [Parser.program, he, hj, herrors, hjournal, List.nil_append, List.append_nil, hl,
    Nat.add_zero]

/-- **Errors and dropped statements come in pairs.**  Every statement, at the top or in a block at
any depth, adds one error for each statement dropped from it on, and an error at least if it was
dropped itself.  So a program has as many errors as dropped statements, and none if and only if
nothing was dropped. -/
theorem errors_pair_with_drops :
    (∀ p : Parser σ, PairsUp p ((statement expression).run p)) ∧
    (∀ room, ∀ p : Parser σ, PairsUp p ((statement (exprAt room)).run p)) ∧
    (∀ p : Parser σ, ((statement expression).run p).1 = none →
      ((statement expression).run p).2.errors ≠ p.errors) ∧
    ∀ s : σ,
      (Parser.start s).program.2.errors.length
        = (Parser.start s).program.2.journal.count .dropped ∧
      ((Parser.start s).program.2.errors = [] ↔ .dropped ∉ (Parser.start s).program.2.journal) := by
  refine ⟨pairsUp_statement Law.tally.follows_expression,
    fun room => pairsUp_statement (Law.tally.follows_exprAt room),
    fun p => (pairsUp_statement Law.tally.follows_expression p).errors_ne,
    fun s => ⟨length_errors_program s, ?_⟩⟩
  rw [← List.length_eq_zero_iff, length_errors_program, List.count_eq_zero]

end Parsing

end MonkeySyntax

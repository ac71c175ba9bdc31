/-
# Laws that every action follows

A law relates the parser before an action to the one after it, whatever the result: `kept` if there
is a result, `lost` if the action failed.  What a law has to provide is one line for each step that
a parser can take.  That every action of the grammar then follows it is shown once, rule by rule
(`Law.follows_expression`), with any grammar and from any parser.

| step | law |
| --- | --- |
| nothing, one action after another | `refl`, `trans`, `trans_lost` |
| a token onward | `kept_advance`, and `lost_advance` for the `;` after a failed statement |
| a failure | `lost_report` |
| into an expression and out of it | `kept_inExpr`, `lost_inExpr` |
| into a block and out of it | `kept_inBlock`, `lost_inBlock` |
| a statement that was read, one that was dropped | `kept_noted`, `kept_dropped` |

A dropped statement is where a failure ends: the statement is lost, and what is around it is kept.

At one depth a law is a course that does not look at the results (`Law.course`), so what is shown
here is how it goes into blocks and deeper expressions and comes out again.
-/

import MonkeySyntax.Proofs.Course

namespace MonkeySyntax

/-- What actions do to a parser, whatever they read. -/
structure Law (σ : Type) [TokenSource σ] where
  /-- What an action with a result does. -/
  kept : Parser σ → Parser σ → Prop
  /-- What an action that fails does. -/
  lost : Parser σ → Parser σ → Prop
  refl (p : Parser σ) : kept p p
  trans {p q r : Parser σ} : kept p q → kept q r → kept p r
  trans_lost {p q r : Parser σ} : kept p q → lost q r → lost p r
  kept_advance (p : Parser σ) : kept p p.advance
  lost_report (p : Parser σ) (d : Diagnostic) : lost p (p.report d)
  lost_advance {p q : Parser σ} : lost p q → lost p q.advance
  kept_inExpr {p q : Parser σ} : kept p.enterExpr q → kept p q.exitExpr
  lost_inExpr {p q : Parser σ} : lost p.enterExpr q → lost p q.exitExpr
  kept_inBlock {p q : Parser σ} : kept p.enterBlock q → kept p q.exitBlock
  lost_inBlock {p q : Parser σ} : lost p.enterBlock q → lost p q.exitBlock
  kept_noted {p q : Parser σ} : kept (p.note (.began p.current)) q → kept p (q.note .kept)
  kept_dropped {p q : Parser σ} : lost (p.note (.began p.current)) q → kept p (q.note .dropped)

namespace Law

open MonkeySyntax.Action MonkeySyntax.Parsing

variable {σ : Type} [TokenSource σ] {α β : Type} {L : Law σ}

/-- The course of the actions that keep a law. -/
def course (L : Law σ) : Course σ where
  kept _ := L.kept
  lost := L.lost
  refl := L.refl
  trans := L.trans
  trans_lost := L.trans_lost
  less _ h := h
  kept_advance := L.kept_advance
  lost_report := L.lost_report
  lost_advance := L.lost_advance

/-- An action does what the law says. -/
def Follows (L : Law σ) (a : Action σ α) : Prop :=
  ∀ p, a.Ends p (fun _ q => L.kept p q) (L.lost p)

/-- An action does what the law says of actions with a result, even if it fails. -/
def Settles (L : Law σ) (a : Action σ α) : Prop :=
  ∀ p, a.Ends p (fun _ q => L.kept p q) (L.kept p)

/-! ### Actions put together -/

theorem follows_pure (x : α) : L.Follows (pure x) := fun p => L.refl p

theorem follows_current : L.Follows current := fun p => L.refl p

theorem follows_currentPower : L.Follows currentPower := fun p => L.refl p

theorem follows_currentName : L.Follows currentName := fun p => L.refl p

theorem follows_currentIs (k : Kind) : L.Follows (currentIs k) := fun p => L.refl p

theorem follows_peekIs (k : Kind) : L.Follows (peekIs k) := fun p => L.refl p

theorem follows_advance : L.Follows advance := fun p => L.kept_advance p

/-- A failure follows every law, whatever it reports. -/
theorem follows_reject (d : Parser σ → Diagnostic) : L.Follows (reject d : Action σ α) :=
  fun p => L.lost_report p (d p)

/-- An expected token is a step onward, or a failure. -/
theorem follows_expect (k : Kind) : L.Follows (expect k) := L.course.follows_expect k

/-- A sequence follows a law if its parts do. -/
theorem Follows.bind {a : Action σ α} {f : α → Action σ β} (ha : L.Follows a)
    (hf : ∀ x, L.Follows (f x)) : L.Follows (a >>= f) :=
  Course.Follows.bind (C := L.course) (μ := fun _ => 0) (ρ := fun _ => 0) ha hf

/-- The `;` after a statement is a step onward, after a result or after a failure. -/
theorem Follows.thenSemicolon {a : Action σ α} (h : L.Follows a) : L.Follows (thenSemicolon a) :=
  Course.Follows.thenSemicolon (C := L.course) (μ := fun _ => 0) h

/-- Into an expression and out of it again, whatever happened in it. -/
theorem Follows.inExpr {a : Action σ α} (h : L.Follows a) : L.Follows (inExpr a) := fun p =>
  (ends_inExpr ..).2 <| (h p.enterExpr).mono (fun _ _ => L.kept_inExpr) fun _ => L.lost_inExpr

/-- Into a block and out of it again, whatever happened in it. -/
theorem Follows.inBlock {a : Action σ α} (h : L.Follows a) : L.Follows (inBlock a) := fun p =>
  (ends_inBlock ..).2 <| (h p.enterBlock).mono (fun _ _ => L.kept_inBlock) fun _ => L.lost_inBlock

/-- A statement that is noted settles: if it failed, it was dropped. -/
theorem Follows.noted {a : Action σ α} (h : L.Follows a) : L.Settles (noted a) := fun _ =>
  (ends_noted ..).2 <| (h _).mono (fun _ _ => L.kept_noted) fun _ => L.kept_dropped

/-- What settles may be attempted, with or without a result. -/
theorem Settles.attempt {a : Action σ α} (h : L.Settles a) : L.Follows (attempt a) := fun p =>
  (ends_attempt ..).2 <| (h p).mono (fun _ _ hq => hq) fun _ hq => hq

/-- A repetition follows a law if its item does. -/
theorem Follows.many {go : Parser σ → Bool} {item : Action σ α} {shrinks : Shrinks go item}
    (h : L.Follows item) : L.Follows (many go item shrinks) :=
  Course.Follows.many (C := L.course) (μ := fun _ => 0) h

/-! ### Statements, blocks and lists -/

section

variable {expr : Power → Phrase σ Expr} (h : ∀ bp, L.Follows (expr bp).toAction)

include h

/-- A binding follows the law, if expressions do. -/
theorem follows_letStatement : L.Follows (letStatement expr) :=
  Course.follows_letStatement (C := L.course) h

/-- So does a `return`. -/
theorem follows_returnStatement : L.Follows (returnStatement expr) :=
  Course.follows_returnStatement (C := L.course) h

/-- So does an expression alone. -/
theorem follows_expressionStatement : L.Follows (expressionStatement expr) :=
  Course.follows_expressionStatement (C := L.course) h

/-- So does a statement of whichever form. -/
theorem follows_anyStatement : L.Follows (anyStatement expr) :=
  Course.follows_anyStatement (C := L.course) h

/-- **A statement settles:** dropped or not, what is around it goes on. -/
theorem settles_statement : L.Settles (statement expr) := (follows_anyStatement h).noted

omit h in
/-- Between two statements of a block there is at most a step onward. -/
theorem follows_afterStatement (s : Option Stmt) :
    L.Follows (afterStatement s : Action σ Unit) := L.course.follows_afterStatement s

/-- A statement of a block follows the law even if it is dropped. -/
theorem follows_blockItem : L.Follows (blockItem expr) :=
  Course.follows_blockItem (C := L.course) (μ := fun _ => 0) (settles_statement h).attempt

/-- A block follows the law, with all of its statements. -/
theorem follows_block : L.Follows (block expr).toAction :=
  follows_current.bind fun _ => follows_advance.bind fun _ =>
    (follows_blockItem h).many.inBlock.bind fun _ => follows_pure _

omit h in
/-- Parameters follow every law, as no expression is in them. -/
theorem follows_parameters : L.Follows (parameters : Action σ (List Identifier)) :=
  L.course.follows_parameters

/-- A list of expressions follows the law, if each of them does. -/
theorem follows_expressions (close : Mark) : L.Follows (expressions expr close) :=
  Course.follows_expressions (C := L.course) h close

/-- A key and its value follow the law. -/
theorem follows_pair : L.Follows (pair expr) := Course.follows_pair (C := L.course) h

/-! ### Expressions -/

/-- An alternative follows the law, with its block. -/
theorem follows_alternative : L.Follows (alternative expr) :=
  Course.follows_alternative (C := L.course) (follows_block h)

omit h in
/-- A name or a literal follows every law. -/
theorem follows_primary : L.Follows (primary : Phrase σ Expr).toAction := L.course.follows_primary

/-- What a prefix rule reads follows the law. -/
theorem follows_applyPrefix (rule : PrefixRule) : L.Follows (applyPrefix expr rule).toAction :=
  Course.follows_applyPrefix (C := L.course) h (follows_block h) rule

/-- What an infix rule reads follows the law. -/
theorem follows_applyInfix (rule : InfixRule) (left : Expr) :
    L.Follows (applyInfix expr rule left).toAction :=
  Course.follows_applyInfix (C := L.course) h rule left

/-- What extends an expression follows the law, round by round. -/
theorem follows_extend (bp : Power) (left : Expr) : L.Follows (extend expr bp left) :=
  Course.follows_extend (C := L.course) h bp left

/-- An operand follows the law, and a token that begins none is a failure. -/
theorem follows_operandAction : L.Follows (operandAction expr) :=
  Course.follows_operandAction (C := L.course) h (follows_block h)

/-- An expression follows the law, if those inside of it do. -/
theorem follows_exprUnder (bp : Power) : L.Follows (exprUnder expr bp).toAction :=
  Course.follows_exprUnder (C := L.course) h (follows_block h) bp

end

/-- **Every expression is read by the law,** by induction on the room. -/
theorem follows_exprAt (L : Law σ) (room : Nat) (bp : Power) :
    L.Follows (exprAt room bp : Phrase σ Expr).toAction := by
  induction room generalizing bp with
  | zero => exact follows_reject _
  | succ room ih => exact (follows_exprUnder ih bp).inExpr

/-- **Every expression is read by the law.** -/
theorem follows_expression (L : Law σ) (bp : Power) :
    L.Follows (expression bp : Phrase σ Expr).toAction := fun p => L.follows_exprAt _ bp p

/-- **Every program is read by the law,** and no failure gets out of it. -/
theorem kept_statements (L : Law σ) (p : Parser σ) : L.kept p p.statements.2 :=
  L.course.kept_statements
    (fun p _ => ((settles_statement L.follows_expression).attempt p).mono
      (fun _ q hq => L.trans hq (L.kept_advance q)) fun _ _ => trivial)
    p

end Law
end MonkeySyntax

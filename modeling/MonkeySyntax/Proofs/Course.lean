/-
# The course of an action

A `Course` relates the parser before an action to the one after it, for actions that stay at one
depth: `kept n` if there is a result that holds `n` statements, `lost` if the action failed.  What
happens inside of a deeper expression or of a block is not its matter.  It has to be told how the
readers of both follow it, and every rule of the grammar that reads by them follows it then.

| step | course |
| --- | --- |
| nothing, one action after another | `refl`, `trans`, `trans_lost` |
| a token onward | `kept_advance`, and `lost_advance` for the `;` after a failed statement |
| a failure | `lost_report` |

`C.Follows μ a` says that the action `a` follows the course `C`, with `μ x` statements in the result
`x`.  In a sequence the first result accounts for a part of the statements of the last, so what
comes after it accounts for the others: that is the subtraction in `Follows.bind`.
-/

import MonkeySyntax.Proofs.Ends
import MonkeySyntax.Tree.Parts

namespace MonkeySyntax

/-- What actions do to a parser at one depth, by the statements in their results. -/
structure Course (σ : Type) [TokenSource σ] where
  /-- What an action does whose result holds so many statements. -/
  kept : Nat → Parser σ → Parser σ → Prop
  /-- What an action that fails does. -/
  lost : Parser σ → Parser σ → Prop
  refl (p : Parser σ) : kept 0 p p
  trans {m n : Nat} {p q r : Parser σ} : kept m p q → kept n q r → kept (m + n) p r
  trans_lost {n : Nat} {p q r : Parser σ} : kept n p q → lost q r → lost p r
  less {m n : Nat} {p q : Parser σ} : m ≤ n → kept n p q → kept m p q
  kept_advance (p : Parser σ) : kept 0 p p.advance
  lost_report (p : Parser σ) (d : Diagnostic) : lost p (p.report d)
  lost_advance {p q : Parser σ} : lost p q → lost p q.advance

namespace Course

open MonkeySyntax.Action MonkeySyntax.Parsing

variable {σ : Type} [TokenSource σ] {α β : Type} {C : Course σ}

/-- An action follows a course, with `μ x` statements in its result `x`. -/
def Follows (C : Course σ) (μ : α → Nat) (a : Action σ α) : Prop :=
  ∀ p, a.Ends p (fun x q => C.kept (μ x) p q) (C.lost p)

/-! ### Actions put together -/

section

variable {μ : α → Nat} {ρ : β → Nat}

/-- A result that holds no statement is no step. -/
theorem follows_pure {x : α} (hx : μ x = 0) : C.Follows μ (pure x) := fun p => by
  rw [ends_pure, hx]
  exact C.refl p

theorem follows_current : C.Follows (fun _ => 0) current := fun p => C.refl p

theorem follows_currentName : C.Follows (fun _ => 0) currentName := fun p => C.refl p

theorem follows_currentPower : C.Follows (fun _ => 0) currentPower := fun p => C.refl p

theorem follows_currentIs (k : Kind) : C.Follows (fun _ => 0) (currentIs k) := fun p => C.refl p

theorem follows_peekIs (k : Kind) : C.Follows (fun _ => 0) (peekIs k) := fun p => C.refl p

theorem follows_advance : C.Follows (fun _ => 0) advance := fun p => C.kept_advance p

/-- A failure is lost, whatever it reports. -/
theorem follows_reject (d : Parser σ → Diagnostic) : C.Follows μ (reject d) :=
  fun p => C.lost_report p (d p)

/-- An expected token is one step, or a failure. -/
theorem follows_expect (k : Kind) : C.Follows (fun _ => 0) (expect k) := fun p =>
  (ends_expect ..).2 ⟨fun _ => C.kept_advance p, fun _ => C.lost_report p _⟩

/-- **One action, then another,** which accounts for the statements that the first result does not
hold. -/
theorem Follows.bind {a : Action σ α} {f : α → Action σ β} (ha : C.Follows μ a)
    (hf : ∀ x, C.Follows (fun y => ρ y - μ x) (f x)) : C.Follows ρ (a >>= f) := fun p =>
  (ends_bind ..).2 <| (ha p).imp fun x q hq =>
    (hf x q).mono
      (fun _ _ hr => C.less (Nat.sub_le_iff_le_add'.1 (Nat.le_refl _)) (C.trans hq hr))
      fun _ => C.trans_lost hq

/-- The `;` after a statement is one token more, after a result or after a failure. -/
theorem Follows.thenSemicolon {a : Action σ α} (h : C.Follows μ a) :
    C.Follows μ (thenSemicolon a) := fun p =>
  (ends_thenSemicolon ..).2 <| (h p).mono
    (fun _ q hq => by
      rcases q.skipSemicolon_eq false with hskip | hskip <;> rw [hskip]
      · exact C.trans hq (C.kept_advance q)
      · exact hq)
    fun q hq => by
      rcases q.skipSemicolon_eq true with hskip | hskip <;> rw [hskip]
      · exact C.lost_advance hq
      · exact hq

/-- A repetition follows a course if every round does that it goes on for. -/
theorem follows_many {go : Parser σ → Bool} {item : Action σ α} {shrinks : Shrinks go item}
    (h : ∀ p, go p = true → item.Ends p (fun x q => C.kept (μ x) p q) (C.lost p)) :
    C.Follows (total μ) (many go item shrinks) := fun p =>
  ends_many (P := fun _ => True) (R := fun p xs q => C.kept (total μ xs) p q) (B := C.lost)
    (fun p _ _ => C.refl p)
    (fun p _ hgo => (h p hgo).mono
      (fun _ _ hq => ⟨trivial, fun _ _ _ => C.trans hq, fun _ => C.trans_lost hq⟩)
      fun _ hq => hq)
    p trivial

/-- A repetition follows a course if its item does. -/
theorem Follows.many {go : Parser σ → Bool} {item : Action σ α} {shrinks : Shrinks go item}
    (h : C.Follows μ item) : C.Follows (total μ) (many go item shrinks) :=
  follows_many fun p _ => h p

end

/-! ### Statements -/

section

variable {expr : Power → Phrase σ Expr}
  (h : ∀ bp, C.Follows (fun e => e.stmts.length) (expr bp).toAction)

include h

/-- A binding holds the statements of its value. -/
theorem follows_letStatement : C.Follows (fun s => s.stmts.length) (letStatement expr) :=
  follows_current.bind fun _ => (follows_expect _).bind fun _ => follows_currentName.bind fun _ =>
    (follows_expect _).bind fun _ => follows_advance.bind fun _ =>
      (h _).thenSemicolon.bind fun _ => follows_pure (by simp [Stmt.stmts])

/-- A `return` holds the statements of its value, or none. -/
theorem follows_returnStatement : C.Follows (fun s => s.stmts.length) (returnStatement expr) := by
  refine follows_current.bind fun t => (follows_peekIs _).bind fun b => ?_
  split
  · exact follows_advance.bind fun _ => follows_pure (by simp [Stmt.stmts])
  · refine (follows_peekIs _).bind fun c => ?_
    split
    · exact follows_pure (by simp [Stmt.stmts])
    · refine (follows_peekIs _).bind fun e => ?_
      split
      · exact follows_pure (by simp [Stmt.stmts])
      · exact follows_advance.bind fun _ => (h _).thenSemicolon.bind fun _ =>
          follows_pure (by simp [Stmt.stmts])

/-- An expression alone holds the statements in it. -/
theorem follows_expressionStatement :
    C.Follows (fun s => s.stmts.length) (expressionStatement expr) :=
  follows_current.bind fun _ => (h _).thenSemicolon.bind fun _ =>
    follows_pure (by simp [Stmt.stmts])

/-- A statement follows the course of whichever form it is. -/
theorem follows_anyStatement : C.Follows (fun s => s.stmts.length) (anyStatement expr) := by
  refine follows_current.bind fun t => ?_
  split
  · exact follows_letStatement h
  · exact follows_returnStatement h
  · exact follows_expressionStatement h

end

/-- Between two statements of a block at most one token is passed. -/
theorem follows_afterStatement (s : Option Stmt) : C.Follows (fun _ => 0) (afterStatement s) := by
  refine (follows_currentIs _).bind fun c => ?_
  split
  · exact follows_advance
  · exact follows_pure rfl

/-- The statements of a block, if dropped or not they follow the course. -/
theorem follows_blockItem {expr : Power → Phrase σ Expr} {μ : Option Stmt → Nat}
    (h : C.Follows μ (attempt (statement expr))) : C.Follows μ (blockItem expr) := by
  refine (follows_currentIs _).bind fun b => ?_
  split
  · exact follows_reject _
  · exact h.bind fun s => (follows_afterStatement s).bind fun _ => follows_pure (by simp)

/-- **A block follows a course** if the statements in it follow one that leads out of the block. -/
theorem follows_block {D : Course σ} {expr : Power → Phrase σ Expr}
    (hbody : D.Follows (total Stmt.count) (many inBody (blockItem expr) (blockItem_shrinks expr)))
    (hkept : ∀ n p q, D.kept n p.advance.enterBlock q → C.kept n p q.exitBlock)
    (hlost : ∀ p q, D.lost p.advance.enterBlock q → C.lost p q.exitBlock) :
    C.Follows (fun b => b.stmts.length) (block expr).toAction := by
  intro p
  simp only [block, blockAction, ends_bind, ends_current, ends_advance, ends_inBlock, ends_pure]
  refine (hbody p.advance.enterBlock).mono (fun ss q hq => ?_) fun q => hlost p q
  rw [Block.stmts, Stmt.length_stmtsAll_filterMap]
  exact hkept _ p q hq

/-! ### Lists -/

/-- Parameters hold no statement. -/
theorem follows_parameters : C.Follows (fun _ => 0) (parameters : Action σ (List Identifier)) := by
  have hnext : C.Follows (fun _ => 0) (nextParameter : Action σ Identifier) :=
    follows_advance.bind fun _ => (follows_expect _).bind fun _ =>
      follows_currentName
  refine (follows_expect _).bind fun _ => (follows_peekIs _).bind fun b => ?_
  split
  · exact follows_advance.bind fun _ => follows_pure rfl
  · refine (follows_expect _).bind fun _ => follows_currentName.bind fun _ =>
      hnext.many.bind fun _ => ?_
    exact (follows_expect _).bind fun _ => follows_pure (by simp)

section

variable {expr : Power → Phrase σ Expr}
  (h : ∀ bp, C.Follows (fun e => e.stmts.length) (expr bp).toAction)

include h

/-- A list of expressions holds the statements of each of them. -/
theorem follows_expressions (close : Mark) :
    C.Follows (fun es => (Expr.stmtsAll es).length) (expressions expr close) := by
  have hnext : C.Follows (fun e => e.stmts.length) (nextExpression expr) :=
    follows_advance.bind fun _ => follows_advance.bind fun _ => h _
  refine (follows_peekIs _).bind fun b => ?_
  split
  · exact (follows_expect _).bind fun _ => follows_pure (by simp [Expr.stmtsAll])
  · refine follows_advance.bind fun _ => (h _).bind fun e => hnext.many.bind fun es => ?_
    exact (follows_expect _).bind fun _ =>
      follows_pure (by simp [Expr.stmtsAll, Expr.length_stmtsAll])

/-- A pair holds the statements of its key and of its value. -/
theorem follows_pair :
    C.Follows (fun p => p.1.stmts.length + p.2.stmts.length) (pair expr) := by
  have hkey : C.Follows (fun e => e.stmts.length) (key expr) :=
    follows_advance.bind fun _ => (h _).bind fun _ => (follows_expect _).bind fun _ =>
      follows_pure (by simp)
  refine hkey.bind fun k => follows_advance.bind fun _ => (h _).bind fun v =>
    (follows_peekIs _).bind fun b => ?_
  split
  · exact follows_pure (by simp)
  · exact (follows_expect _).bind fun _ => follows_pure (by simp)

/-- A hash holds the statements of its pairs. -/
theorem follows_pairs : C.Follows (fun ps => (Expr.stmtsPairs ps).length) (pairs expr) :=
  (follows_pair h).many.bind fun _ => (follows_expect _).bind fun _ =>
    follows_pure (by simp [Expr.length_stmtsPairs])

/-! ### Expressions -/

variable (hb : C.Follows (fun b => b.stmts.length) (block expr).toAction)

omit h in
include hb in
/-- An alternative holds the statements of its block, if there is one. -/
theorem follows_alternative :
    C.Follows (fun b => (b.map fun b => b.stmts.length).getD 0) (alternative expr) := by
  refine (follows_peekIs _).bind fun b => ?_
  split
  · exact follows_advance.bind fun _ => (follows_expect _).bind fun _ => hb.bind fun _ =>
      follows_pure (by simp)
  · exact follows_pure rfl

omit h in
/-- A name or a literal holds no statement. -/
theorem follows_primary :
    C.Follows (fun e => e.stmts.length) (primary : Phrase σ Expr).toAction := by
  refine follows_current.bind fun t => ?_
  split
  case h_2 =>
    split
    · exact follows_pure (by simp [Expr.stmts])
    · exact follows_reject _
  all_goals first | exact follows_pure (by simp [Expr.stmts]) | exact follows_reject _

include hb in
/-- What a prefix rule reads holds the statements of its expressions and blocks. -/
theorem follows_applyPrefix (rule : PrefixRule) :
    C.Follows (fun e => e.stmts.length) (applyPrefix expr rule).toAction := by
  cases rule with
  | primary => exact follows_primary
  | operator =>
    exact follows_current.bind fun _ => follows_advance.bind fun _ => (h _).bind fun _ =>
      follows_pure (by simp [Expr.stmts])
  | grouping =>
    exact follows_advance.bind fun _ => (h _).bind fun _ => (follows_expect _).bind fun _ =>
      follows_pure (by simp)
  | conditional =>
    refine follows_current.bind fun _ => follows_advance.bind fun _ => (h _).bind fun _ =>
      (follows_expect _).bind fun _ => hb.bind fun _ => (follows_alternative hb).bind fun a => ?_
    cases a with
    | none => exact follows_pure (by simp [Expr.stmts])
    | some a => exact follows_pure (by simp [Expr.stmts])
  | function =>
    exact follows_current.bind fun _ => follows_parameters.bind fun _ =>
      (follows_expect _).bind fun _ => hb.bind fun _ => follows_pure (by simp [Expr.stmts])
  | array =>
    exact follows_current.bind fun _ => (follows_expressions h _).bind fun _ =>
      follows_pure (by simp [Expr.stmts])
  | hash =>
    exact follows_current.bind fun _ => (follows_pairs h).bind fun _ =>
      follows_pure (by simp [Expr.stmts])

/-- What an infix rule reads comes to the statements of the left operand. -/
theorem follows_applyInfix (rule : InfixRule) (left : Expr) :
    C.Follows (fun e => e.stmts.length - left.stmts.length)
      (applyInfix expr rule left).toAction := by
  cases rule with
  | binary =>
    exact follows_current.bind fun _ => follows_currentPower.bind fun _ =>
      follows_advance.bind fun _ => (h _).bind fun _ => follows_pure (by simp [Expr.stmts])
  | call =>
    exact follows_current.bind fun _ => (follows_expressions h _).bind fun _ =>
      follows_pure (by simp [Expr.stmts])
  | index =>
    exact follows_current.bind fun _ => follows_advance.bind fun _ => (h _).bind fun _ =>
      (follows_expect _).bind fun _ => follows_pure (by simp [Expr.stmts])

/-- What extends an expression comes to the statements that it held before. -/
theorem follows_extend (bp : Power) (left : Expr) :
    C.Follows (fun e => e.stmts.length - left.stmts.length) (extend expr bp left) := fun p =>
  (ends_extend (I := fun e q => C.kept (e.stmts.length - left.stmts.length) p q) (B := C.lost p)
    (fun e q rule hq _ => (follows_applyInfix h rule e q.advance).mono
      (fun e' _ hr => C.less (by dsimp only; omega) (C.trans (C.trans hq (C.kept_advance q)) hr))
      fun _ => C.trans_lost (C.trans hq (C.kept_advance q)))
    left p (C.less (by omega) (C.refl p))).imp fun _ _ hq => hq.1

include hb in
/-- An operand follows the course of its prefix rule, or fails without one. -/
theorem follows_operandAction :
    C.Follows (fun e => e.stmts.length) (operandAction expr) := by
  intro p
  rw [ends_iff]
  simp only [operandAction]
  split
  · exact ends_iff.1 (follows_applyPrefix h hb _ p)
  · exact ends_iff.1 (follows_reject Parser.noPrefix p)

include hb in
/-- **An expression follows a course** if those inside of it and the blocks in it do. -/
theorem follows_exprUnder (bp : Power) :
    C.Follows (fun e => e.stmts.length) (exprUnder expr bp).toAction :=
  (follows_operandAction h hb).bind fun left => follows_extend h bp left

end

/-- **A program follows a course** if each of its statements does, with the token after it. -/
theorem kept_statements
    (h : ∀ p : Parser σ, p.current.kind ≠ .eof →
      (attempt (statement expression)).Ends p (fun s q => C.kept (Stmt.count s) p q.advance)
        fun _ => True)
    (p : Parser σ) : C.kept (Stmt.stmtsAll p.statements.1).length p p.statements.2 := by
  refine Parser.statements_ind (R := fun p ss q => C.kept (Stmt.stmtsAll ss).length p q)
    (fun p _ => C.refl p) (fun p hp => ?_) p
  refine ((ends_attempt ..).1 (h p hp)).mono (fun s q hq ss r hr => ?_) fun q hq ss r hr => ?_
  · rw [← List.singleton_append, Stmt.stmtsAll_append, List.length_append]
    exact C.trans hq hr
  · exact C.less (Nat.le_add_left ..) (C.trans hq hr)

end Course
end MonkeySyntax

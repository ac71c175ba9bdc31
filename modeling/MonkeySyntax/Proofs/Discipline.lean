/-
# What is kept at every step of a parser

A `Discipline` is what a parser can be trusted with wherever it is: three properties of its window
and of the errors so far, and a reason for each kind of step why they go over into each other.

| property | holds |
| --- | --- |
| `before n` | at the first token of something that is to be read |
| `after n` | at the last token of something that was read |
| `failed n` | where something could not be read |

`n` counts the curly brackets that the parser is inside of: a `{` that it reads as the beginning of
a block or a hash adds one, and the `}` that it reads as the end of it takes one away.

What holds of every step holds of every piece of syntax that is read: each one leads from `before n`
to `after n`, or to `failed n` if it cannot be read (`Discipline.Keeps`).
-/

import MonkeySyntax.Proofs.Ends

namespace MonkeySyntax

/-- Neither kind of curly bracket. -/
def Kind.NoCurly (k : Kind) : Prop := k ≠ .mark .openCurly ∧ k ≠ .mark .closeCurly

instance (k : Kind) : Decidable k.NoCurly :=
  inferInstanceAs (Decidable (k ≠ .mark .openCurly ∧ k ≠ .mark .closeCurly))

/-- What can be wrong with a token at which an expression is to start. -/
inductive Token.Fault (t : Token) : Diagnostic → Prop
  | noPrefix : Fault t ⟨.noPrefixRule t.kind, t.start⟩
  | range (ht : t.kind = .integer) : Fault t ⟨.integerRange t.value, t.start⟩
  | tooDeep : Fault t ⟨.nestingTooDeep nestingLimit, t.start⟩

/-- Properties of a window and the errors so far that every step of a parser keeps. -/
structure Discipline (σ : Type) [TokenSource σ] where
  before : Nat → Window σ → List Diagnostic → Prop
  after : Nat → Window σ → List Diagnostic → Prop
  failed : Nat → Window σ → List Diagnostic → Prop
  move {n : Nat} {w : Window σ} {es : List Diagnostic} : after n w es → before n w.advance es
  /-- A token that is no bracket is read by itself. -/
  pass {n : Nat} {w : Window σ} {es : List Diagnostic} :
    before n w es → w.current.kind.NoCurly → after n w es
  opened {n : Nat} {w : Window σ} {es : List Diagnostic} :
    before n w es → w.current.kind = .mark .openCurly → before (n + 1) w.advance es
  closed {n : Nat} {w : Window σ} {es : List Diagnostic} :
    before (n + 1) w es → w.current.kind = .mark .closeCurly → after n w es
  /-- A block ends at the `}` at which a statement of it failed. -/
  closed_failed {n : Nat} {w : Window σ} {es : List Diagnostic} :
    failed (n + 1) w es → w.current.kind = .mark .closeCurly → after n w es
  fault {n : Nat} {w : Window σ} {es : List Diagnostic} {d : Diagnostic} :
    before n w es → w.current.Fault d → failed n w (es ++ [d])
  /-- Another token had to follow. -/
  missing {n : Nat} {w : Window σ} {es : List Diagnostic} {k : Kind} :
    after n w es → w.peek.kind ≠ k → k ≠ .mark .closeCurly →
      failed n w (es ++ [⟨.unexpectedToken k w.peek.kind, w.peek.start⟩])
  /-- The input ended in a block. -/
  cutOff {n : Nat} {w : Window σ} {es : List Diagnostic} :
    before (n + 1) w es → w.current.kind = .eof →
      failed (n + 1) w (es ++ [⟨.unexpectedToken (.mark .closeCurly) .eof, w.current.start⟩])
  /-- What could not be read ends what it stands in. -/
  giveUp {n : Nat} {w : Window σ} {es : List Diagnostic} : failed (n + 1) w es → failed n w es
  /-- A statement that failed takes a `;` with it. -/
  skip {n : Nat} {w : Window σ} {es : List Diagnostic} :
    failed n w es → w.current.kind ≠ .mark .closeCurly → failed n w.advance es
  /-- The next statement is read after one that failed. -/
  resume {n : Nat} {w : Window σ} {es : List Diagnostic} :
    failed n w es → w.current.kind ≠ .mark .closeCurly → before n w.advance es

namespace Discipline

open MonkeySyntax.Action

variable {σ : Type} [TokenSource σ]

/-- A parser of Monkey, inside of `b` blocks, with a property `x` of its window and its errors. -/
structure At (x : Window σ → List Diagnostic → Prop) (b : Nat) (p : Parser σ) : Prop where
  grammar : p.grammar = .standard
  depth : p.blockDepth = b
  holds : x p.window p.errors

section

variable (D : Discipline σ) (n b : Nat)

/-- A parser at the first token of something that is to be read. -/
abbrev Before : Parser σ → Prop := At (D.before n) b

/-- A parser at the last token of something that was read. -/
abbrev After : Parser σ → Prop := At (D.after n) b

/-- A parser where something could not be read. -/
abbrev Failed : Parser σ → Prop := At (D.failed n) b

/-- Past a statement that failed outside of all blocks any token may be skipped. -/
def Loose : Prop := ∀ w es, D.failed n w es → D.failed n w.advance es

/-- In a block the input may end, for which there is an error. -/
def CutsOff : Prop := ∀ w es, D.before n w es → w.current.kind = .eof →
  D.failed n w (es ++ [⟨.unexpectedToken (.mark .closeCurly) .eof, w.current.start⟩])

/-- Every expression is read from `Before` to `After`, or it fails at `Failed`. -/
def Keeps (expr : Power → Phrase σ Expr) : Prop :=
  ∀ n b bp p, D.Before n b p → (expr bp).Ends p (fun _ => D.After n b) (D.Failed n b)

end

section

variable {D : Discipline σ} {x : Window σ → List Diagnostic → Prop} {n b : Nat} {p q : Parser σ}

omit [TokenSource σ] in
/-- What is kept depends on the window and the errors alone, not on depths or journal. -/
theorem At.of_eq {c : Nat} (h : At x b p) (hg : q.grammar = p.grammar) (hw : q.window = p.window)
    (he : q.errors = p.errors) (hd : q.blockDepth = c) : At x c q :=
  ⟨hg.trans h.grammar, hd, by rw [hw, he]; exact h.holds⟩

omit [TokenSource σ] in
/-- An entry in the journal changes nothing that is kept. -/
theorem At.note (h : At x b p) (e : Event) : At x b (p.note e) := h.of_eq rfl rfl rfl h.depth

/-- Past the last token of one thing is the first of the next. -/
theorem After.advance (h : D.After n b p) : D.Before n b p.advance :=
  ⟨h.grammar, h.depth, D.move h.holds⟩

/-- A token that is no curly bracket may be all that is read. -/
theorem Before.pass (h : D.Before n b p) (hp : p.current.kind.NoCurly) : D.After n b p :=
  ⟨h.grammar, h.depth, D.pass h.holds hp⟩

/-- Past a `{` one more bracket is open. -/
theorem Before.open (h : D.Before n b p) (hp : p.current.kind = .mark .openCurly) :
    D.Before (n + 1) b p.advance := ⟨h.grammar, h.depth, D.opened h.holds hp⟩

/-- The `}` of an open bracket ends what it stands around. -/
theorem Before.close (h : D.Before (n + 1) b p) (hp : p.current.kind = .mark .closeCurly) :
    D.After n b p := ⟨h.grammar, h.depth, D.closed h.holds hp⟩

/-- The `}` of an open bracket ends even what could not be read. -/
theorem Failed.close (h : D.Failed (n + 1) b p) (hp : p.current.kind = .mark .closeCurly) :
    D.After n b p := ⟨h.grammar, h.depth, D.closed_failed h.holds hp⟩

/-- A fault of the current token ends in failure. -/
theorem Before.fault {d : Diagnostic} (h : D.Before n b p) (hd : p.current.Fault d) :
    D.Failed n b (p.report d) := ⟨h.grammar, h.depth, D.fault h.holds hd⟩

/-- Who fails may leave open what was opened. -/
theorem Failed.giveUp (h : D.Failed (n + 1) b p) : D.Failed n b p :=
  ⟨h.grammar, h.depth, D.giveUp h.holds⟩

/-- Past a token that is no `}`, a statement may begin after a failure. -/
theorem Failed.resume (h : D.Failed n b p) (hp : p.current.kind ≠ .mark .closeCurly) :
    D.Before n b p.advance := ⟨h.grammar, h.depth, D.resume h.holds hp⟩

/-- The next token, if it is no curly bracket, may be read with what came before. -/
theorem After.onto {k : Kind} (h : D.After n b p) (hp : p.peek.kind = k) (hk : k.NoCurly) :
    D.After n b p.advance := h.advance.pass (hp ▸ hk)

/-- **A token that has to follow** is at least no `}`. -/
theorem After.expect {k : Kind} {ok : Unit → Parser σ → Prop} (h : D.After n b p)
    (hk : k ≠ .mark .closeCurly)
    (hok : p.peek.kind = k → D.Before n b p.advance → ok () p.advance) :
    (Action.expect k).Ends p ok (D.Failed n b) := by
  rw [ends_expect]
  exact ⟨fun hp => hok hp h.advance, fun hp => ⟨h.grammar, h.depth, D.missing h.holds hp hk⟩⟩

/-- A token that has to follow and is no bracket. -/
theorem After.expectPlain {k : Kind} {ok : Unit → Parser σ → Prop} (h : D.After n b p)
    (hk : k.NoCurly) (hok : D.After n b p.advance → ok () p.advance) :
    (Action.expect k).Ends p ok (D.Failed n b) :=
  h.expect hk.2 fun hp hq => hok (hq.pass (hp ▸ hk))

/-- The `;` after what was read is read with it. -/
theorem After.skipSemicolon (h : D.After n b p) : D.After n b (p.skipSemicolon false) := by
  simp only [Parser.skipSemicolon, Bool.false_and, Bool.false_eq_true, if_false]
  split
  · rename_i hs
    exact h.onto hs (by decide)
  · exact h

/-- Recovery within a block leaves its `}` where it is. -/
theorem Failed.skipSemicolon (h : D.Failed n b p) (hb : D.Loose n ∨ 0 < b) :
    D.Failed n b (p.skipSemicolon true) := by
  unfold Parser.skipSemicolon
  split
  · exact h
  · rename_i hstay
    split
    · refine ⟨h.grammar, h.depth, ?_⟩
      rcases hb with hloose | hb
      · exact hloose _ _ h.holds
      · refine D.skip h.holds fun hclose => hstay ?_
        have hdepth := h.depth
        have hclose' : p.current.kind = .mark .closeCurly := hclose
        simp [hclose', Parser.inBlock]
        omega
    · exact h

end

end Discipline
end MonkeySyntax

/-
# Two runs side by side

A `Pairing` says how two runs of the parser go together, each on a source of its own: which windows
of theirs are at the same place (`meets`), and what the second run finds where the first finds a
token (`swap`).  If the two kinds of token agree everywhere, the runs take the same decisions, and
what the second one reads is what the first one reads with other tokens.  The second run may have a
`grammar` of its own, as long as it has the same rules for the tokens that are found.

The runs may part (`parts`), but only after a `;` that is the last token of the first run.  No rule
of the grammar moves past a `;` on its own account, so it matters in three places.

| where | why the runs stay together |
| --- | --- |
| in the middle of a statement | its last token so far is no `;` (`Amid`) |
| at the `;` that may follow a failed statement | the second run has no other `;` after it |
| in a block | the first run ends in an error, and it is one that had to be `strict` |

`P.Tracks m R S a a'` says that from parsers in the relation `R` the actions `a` and `a'` end alike:
both fail, or the result of `a'` is that of `a` under `m` and the parsers after it are in `S`.
-/

import MonkeySyntax.Proofs.Leads
import MonkeySyntax.Proofs.Standard
import MonkeySyntax.Tree.Map

namespace MonkeySyntax

/-- What can be wrong at a token. -/
inductive Complaint where
  | unexpected (expected : Kind)
  | noPrefix
  | range
  | tooDeep
  deriving DecidableEq, Repr

/-- The error that a complaint about a token is. -/
def Complaint.about : Complaint → Token → Diagnostic
  | unexpected k, t => ⟨.unexpectedToken k t.kind, t.start⟩
  | noPrefix, t => ⟨.noPrefixRule t.kind, t.start⟩
  | range, t => ⟨.integerRange t.value, t.start⟩
  | tooDeep, t => ⟨.nestingTooDeep nestingLimit, t.start⟩

/-- How two runs of the parser go together. -/
structure Pairing (σ τ : Type) [TokenSource σ] [TokenSource τ] where
  /-- What the second run finds where the first finds a token. -/
  swap : Token → Token
  /-- The tokens that the first run comes to. -/
  seen : Token → Prop
  /-- The errors of the second run from before the two met. -/
  earlier : List Diagnostic
  /-- Only a first run without errors counts. -/
  strict : Prop
  /-- The grammar of the second run.  That of the first is the standard one. -/
  grammar : Grammar
  /-- The windows of the two runs are at the same place. -/
  meets : Window σ → Window τ → Prop
  /-- The windows are at the last place that they have in common. -/
  parts : Window σ → Window τ → Prop
  kind_swap {t : Token} : seen t → (swap t).kind = t.kind
  int64_swap {t : Token} : seen t → t.kind = .integer →
    Numeral.int64? (swap t).value = Numeral.int64? t.value
  prefixRule_eq {t : Token} : seen t →
    grammar.prefixRule t.kind = Grammar.standard.prefixRule t.kind
  infixRule_eq {t : Token} : seen t → grammar.infixRule t.kind = Grammar.standard.infixRule t.kind
  seen_current {w : Window σ} {v : Window τ} : meets w v → seen w.current
  current_eq {w : Window σ} {v : Window τ} : meets w v → v.current = swap w.current
  step {w : Window σ} {v : Window τ} : meets w v → meets w.advance v.advance ∨ parts w v
  parts_current {w : Window σ} {v : Window τ} : parts w v → w.current.kind = .mark .semicolon
  parts_peek {w : Window σ} {v : Window τ} : parts w v → w.peek.kind = .eof
  parts_strict {w : Window σ} {v : Window τ} : parts w v →
    strict ∨ v.peek.kind ≠ .mark .semicolon
  /-- Blocks are met only by runs that may end in one. -/
  parts_block {w w' : Window σ} {v v' : Window τ} : meets w v →
    w.current.kind = .keyword .ifWord ∨ w.current.kind = .keyword .fnWord → parts w' v' → strict

namespace Pairing

open MonkeySyntax.Action MonkeySyntax.Parsing

variable {σ τ : Type} [TokenSource σ] [TokenSource τ] {α α' β β' : Type}

section

variable (P : Pairing σ τ)

/-- What the second run reads where the first reads a name. -/
def name : Identifier → Identifier := .map P.swap fun t _ => (P.swap t).value

/-- What the second run reads where the first reads an expression. -/
def expr : Expr → Expr := .map P.swap fun t _ => (P.swap t).value

/-- What the second run reads where the first reads a statement. -/
def stmt : Stmt → Stmt := .map P.swap fun t _ => (P.swap t).value

/-- What the second run reads where the first reads a block. -/
def block : Block → Block := .map P.swap fun t _ => (P.swap t).value

/-- Since they met, both runs had the same complaints about the tokens that they came to. -/
def Complains (errors errors' : List Diagnostic) : Prop :=
  ∃ faults : List (Complaint × Token), (∀ x ∈ faults, P.seen x.2) ∧
    errors = faults.map (fun x => x.1.about x.2) ∧
    errors' = P.earlier ++ faults.map fun x => x.1.about (P.swap x.2)

/-- The two runs are at the same place. -/
structure Abreast (p : Parser σ) (p' : Parser τ) : Prop where
  meets : P.meets p.window p'.window
  grammar : p.grammar = .standard
  grammar_eq : p'.grammar = P.grammar
  exprDepth : p'.exprDepth = p.exprDepth
  blockDepth : p'.blockDepth = p.blockDepth
  complains : P.Complains p.errors p'.errors

/-- The two runs are at the same place, and not at the end of a statement. -/
structure Amid (p : Parser σ) (p' : Parser τ) : Prop extends P.Abreast p p' where
  amid : p.current.kind ≠ .mark .semicolon

/-- The first run does not count. -/
def Lost (p : Parser σ) : Prop := P.strict ∧ p.errors ≠ []

/-- Both outcomes are failures, or the result of the second is that of the first under `m`. -/
def Agree (m : α → β) (S : Parser σ → Parser τ → Prop) :
    Option α × Parser σ → Option β × Parser τ → Prop
  | (some x, q), (some y, q') => y = m x ∧ S q q'
  | (none, q), (none, q') => P.Abreast q q'
  | _, _ => False

/-- From `p` and `p'` the actions `a` and `a'` end alike, or the first run does not count. -/
def Runs (m : α → β) (S : Parser σ → Parser τ → Prop) (a : Action σ α) (a' : Action τ β)
    (p : Parser σ) (p' : Parser τ) : Prop :=
  P.Lost (a.run p).2 ∨ P.Agree m S (a.run p) (a'.run p')

/-- From wherever `R` holds the actions `a` and `a'` end alike, with `S` after their results. -/
structure Tracks (m : α → β) (R S : Parser σ → Parser τ → Prop) (a : Action σ α)
    (a' : Action τ β) : Prop where
  frame : Law.frame.Follows a
  runs : ∀ p p', R p p' → P.Runs m S a a' p p'

end

variable {P : Pairing σ τ} {p q : Parser σ} {p' q' : Parser τ}

/-! ### What two runs at the same place have in common -/

/-- Both runs have one more complaint, about a token and about what the second run finds for it. -/
theorem Complains.snoc {errors errors' : List Diagnostic} (h : P.Complains errors errors')
    {t : Token} (ht : P.seen t) (c : Complaint) :
    P.Complains (errors ++ [c.about t]) (errors' ++ [c.about (P.swap t)]) := by
  obtain ⟨faults, hseen, rfl, rfl⟩ := h
  refine ⟨faults ++ [(c, t)], List.forall_mem_append.2 ⟨hseen, by simpa using ht⟩, ?_, ?_⟩
  · rw [List.map_append, List.map_singleton]
  · rw [List.map_append, List.map_singleton, List.append_assoc]

namespace Abreast

/-- The second run is at what it finds for the current token of the first. -/
theorem current (h : P.Abreast p p') : p'.current = P.swap p.current := P.current_eq h.meets

/-- The first run comes to its current token. -/
theorem seen (h : P.Abreast p p') : P.seen p.current := P.seen_current h.meets

/-- The current tokens are of one kind. -/
theorem current_kind (h : P.Abreast p p') : p'.current.kind = p.current.kind := by
  rw [h.current, P.kind_swap h.seen]

/-- The same prefix rule is for both of them. -/
theorem prefixRule_current (h : P.Abreast p p') :
    p'.grammar.prefixRule p.current.kind = p.grammar.prefixRule p.current.kind := by
  rw [h.grammar_eq, h.grammar, P.prefixRule_eq h.seen]

/-- They bind as tightly as each other. -/
theorem power_current (h : P.Abreast p p') :
    p'.grammar.power p.current.kind = p.grammar.power p.current.kind := by
  rw [Grammar.power, Grammar.power, h.grammar_eq, h.grammar, P.infixRule_eq h.seen]

/-- Depths, errors and journal aside, the runs stay where they are. -/
theorem of_eq (h : P.Abreast p p') (hw : q.window = p.window) (hw' : q'.window = p'.window)
    (hg : q.grammar = p.grammar) (hg' : q'.grammar = p'.grammar) (he : q'.exprDepth = q.exprDepth)
    (hb : q'.blockDepth = q.blockDepth) (hc : P.Complains q.errors q'.errors) : P.Abreast q q' where
  meets := by
    rw [hw, hw']
    exact h.meets
  grammar := hg.trans h.grammar
  grammar_eq := hg'.trans h.grammar_eq
  exprDepth := he
  blockDepth := hb
  complains := hc

/-- What the journals note may differ. -/
theorem note (h : P.Abreast p p') (e e' : Event) : P.Abreast (p.note e) (p'.note e') :=
  h.of_eq rfl rfl rfl rfl h.exprDepth h.blockDepth h.complains

/-- Depths that change alike are alike. -/
theorem atDepths (h : P.Abreast p p') {m m' n n' : Nat} (hm : m' = m) (hn : n' = n) :
    P.Abreast (p.atDepths m n) (p'.atDepths m' n') :=
  h.of_eq rfl rfl rfl rfl hm hn h.complains

/-- Into an expression, side by side. -/
theorem enterExpr (h : P.Abreast p p') : P.Abreast p.enterExpr p'.enterExpr :=
  h.atDepths (congrArg (· + 1) h.exprDepth) h.blockDepth

/-- Out of an expression, side by side. -/
theorem exitExpr (h : P.Abreast p p') : P.Abreast p.exitExpr p'.exitExpr :=
  h.atDepths (congrArg (· - 1) h.exprDepth) h.blockDepth

/-- Into a block, side by side. -/
theorem enterBlock (h : P.Abreast p p') : P.Abreast p.enterBlock p'.enterBlock :=
  h.atDepths h.exprDepth (congrArg (· + 1) h.blockDepth)

/-- Out of a block, side by side. -/
theorem exitBlock (h : P.Abreast p p') : P.Abreast p.exitBlock p'.exitBlock :=
  h.atDepths h.exprDepth (congrArg (· - 1) h.blockDepth)

/-- Both runs have the same complaint about a token. -/
theorem report (h : P.Abreast p p') (c : Complaint) {t : Token} (ht : P.seen t) :
    P.Abreast (p.report (c.about t)) (p'.report (c.about (P.swap t))) :=
  h.of_eq rfl rfl rfl rfl h.exprDepth h.blockDepth (h.complains.snoc ht c)

/-- Both runs have the same complaint about their current tokens. -/
theorem report_current (h : P.Abreast p p') (c : Complaint) :
    P.Abreast (p.report (c.about p.current)) (p'.report (c.about p'.current)) := by
  rw [h.current]
  exact h.report c h.seen

/-- Where windows meet again one token further on, so do the runs. -/
theorem advance (h : P.Abreast p p') (hw : P.meets p.window.advance p'.window.advance) :
    P.Abreast p.advance p'.advance :=
  ⟨hw, h.grammar, h.grammar_eq, h.exprDepth, h.blockDepth, h.complains⟩

end Abreast

namespace Amid

/-- In the middle of a statement the windows meet again one token further on. -/
theorem meets_advance (h : P.Amid p p') : P.meets p.window.advance p'.window.advance :=
  (P.step h.meets).resolve_right fun hparts => h.amid (P.parts_current hparts)

/-- So the runs are side by side there. -/
theorem advance (h : P.Amid p p') : P.Abreast p.advance p'.advance :=
  h.toAbreast.advance h.meets_advance

/-- The second run has next what it finds for the next token of the first. -/
theorem peek (h : P.Amid p p') : p'.peek = P.swap p.peek := P.current_eq h.meets_advance

/-- The first run comes to its next token. -/
theorem seen_peek (h : P.Amid p p') : P.seen p.peek := P.seen_current h.meets_advance

/-- The next tokens are of one kind. -/
theorem peek_kind (h : P.Amid p p') : p'.peek.kind = p.peek.kind := by
  rw [h.peek, P.kind_swap h.seen_peek]

/-- Onto a token that is no `;`. -/
theorem onto (h : P.Amid p p') {k : Kind} (hp : p.peek.kind = k) (hk : k ≠ .mark .semicolon) :
    P.Amid p.advance p'.advance := ⟨h.advance, fun hs => hk (hp.symm.trans hs)⟩

/-- The same infix rule continues both expressions, or none does. -/
theorem nextRule (h : P.Amid p p') (bp : Power) : nextRule bp p' = nextRule bp p := by
  rw [Parsing.nextRule, Parsing.nextRule, h.peek_kind, h.grammar_eq, h.grammar,
    P.infixRule_eq h.seen_peek]

end Amid

/-- Both runs skip a `;`, or neither. -/
theorem Abreast.skipSemicolon (h : P.Abreast p p') (failed : Bool)
    (hp : P.strict → p.current.kind ≠ .mark .semicolon) :
    P.Abreast (p.skipSemicolon failed) (p'.skipSemicolon failed) := by
  have hblock : p'.inBlock = p.inBlock := by rw [Parser.inBlock, Parser.inBlock, h.blockDepth]
  simp only [Parser.skipSemicolon, hblock, h.current_kind]
  split
  · exact h
  · rcases P.step h.meets with hmeets | hparts
    · have hpeek : p'.peek.kind = p.peek.kind := (h.advance hmeets).current_kind
      rw [hpeek]
      split
      · exact h.advance hmeets
      · exact h
    · have heof : p.peek.kind = .eof := P.parts_peek hparts
      have hpeek : p'.peek.kind ≠ .mark .semicolon :=
        (P.parts_strict hparts).resolve_left fun hs => hp hs (P.parts_current hparts)
      rw [if_neg (by rw [heof]; decide), if_neg hpeek]
      exact h

/-! ### Actions put together -/

section

variable {m : α → β} {n : α' → β'} {R R' S S' T : Parser σ → Parser τ → Prop}

/-- Outcomes that agree are two failures or two results. -/
theorem Agree.outcomes {r : Option α × Parser σ} {r' : Option β × Parser τ}
    (h : P.Agree m S r r') :
    (∃ q q', r = (none, q) ∧ r' = (none, q') ∧ P.Abreast q q') ∨
      ∃ x q q', r = (some x, q) ∧ r' = (some (m x), q') ∧ S q q' := by
  obtain ⟨_ | x, q⟩ := r <;> obtain ⟨_ | y, q'⟩ := r'
  · exact .inl ⟨q, q', rfl, rfl, h⟩
  · exact h.elim
  · exact h.elim
  · obtain ⟨rfl, hq⟩ := h
    exact .inr ⟨x, q, q', rfl, rfl, hq⟩

/-- What is asked of the parsers after the results may be less. -/
theorem Runs.mono {a : Action σ α} {a' : Action τ β} (h : P.Runs m S a a' p p')
    (hS : ∀ q q', S q q' → S' q q') : P.Runs m S' a a' p p' := by
  refine h.imp_right fun hagree => ?_
  rcases hagree.outcomes with ⟨q, q', hr, hr', hq⟩ | ⟨x, q, q', hr, hr', hq⟩ <;> rw [hr, hr']
  · exact hq
  · exact ⟨rfl, hS q q' hq⟩

/-- What the first run alone comes to after a result. -/
theorem Runs.and {a : Action σ α} {a' : Action τ β} {Q : Parser σ → Prop}
    (h : P.Runs m S a a' p p') (hQ : ∀ x q, a.run p = (some x, q) → Q q) :
    P.Runs m (fun q q' => S q q' ∧ Q q) a a' p p' := by
  refine h.imp_right fun hagree => ?_
  rcases hagree.outcomes with ⟨q, q', hr, hr', hq⟩ | ⟨x, q, q', hr, hr', hq⟩ <;> rw [hr, hr']
  · exact hq
  · exact ⟨rfl, hq, hQ x q hr⟩

/-- **One action, then another.** -/
theorem Runs.bind {a : Action σ α} {a' : Action τ β} {f : α → Action σ α'} {g : β → Action τ β'}
    (h : P.Runs m S a a' p p')
    (hf : ∀ x q q', S q q' → P.Runs n T (f x) (g (m x)) q q')
    (hlaw : ∀ x, Law.frame.Follows (f x)) : P.Runs n T (a >>= f) (a' >>= g) p p' := by
  rw [Runs, run_bind, run_bind]
  rcases h with ⟨hstrict, hne⟩ | hagree
  · -- errors do not go away, so the first run does not count afterwards either
    refine .inl ⟨hstrict, ?_⟩
    rcases hr : a.run p with ⟨_ | x, q⟩ <;> rw [hr] at hne
    · exact hne
    · exact ((hlaw x).leads q).errors_ne_nil hne
  · rcases hagree.outcomes with ⟨q, q', hr, hr', hq⟩ | ⟨x, q, q', hr, hr', hq⟩ <;> rw [hr, hr']
    · exact .inr hq
    · exact hf x q q' hq

/-- It may start from less and end in less. -/
theorem Tracks.mono {a : Action σ α} {a' : Action τ β} (h : P.Tracks m R S a a')
    (hR : ∀ q q', R' q q' → R q q') (hS : ∀ q q', S q q' → S' q q') : P.Tracks m R' S' a a' :=
  ⟨h.frame, fun p p' hp => (h.runs p p' (hR p p' hp)).mono hS⟩

/-- One action, then another that tracks its counterpart from there. -/
theorem Tracks.bind {a : Action σ α} {a' : Action τ β} {f : α → Action σ α'} {g : β → Action τ β'}
    (h : P.Tracks m R S a a') (hf : ∀ x, P.Tracks n S T (f x) (g (m x))) :
    P.Tracks n R T (a >>= f) (a' >>= g) :=
  ⟨h.frame.bind fun x => (hf x).frame, fun p p' hp =>
    (h.runs p p' hp).bind (fun x => (hf x).runs) fun x => (hf x).frame⟩

/-- Results that correspond track each other. -/
theorem tracks_pure {x : α} {y : β} (hy : y = m x) : P.Tracks m R R (pure x) (pure y) :=
  ⟨Law.follows_pure x, fun _ _ hp => .inr ⟨hy, hp⟩⟩

/-- The current token is tracked by what the second run finds for it. -/
theorem tracks_current (hR : ∀ q q', R q q' → P.Abreast q q') :
    P.Tracks P.swap R R current current :=
  ⟨Law.follows_current, fun p p' hp => .inr ⟨(hR p p' hp).current, hp⟩⟩

/-- A name is tracked by the name that the second run finds. -/
theorem tracks_currentName : P.Tracks P.name P.Amid P.Amid currentName currentName :=
  (tracks_current fun _ _ h => h.toAbreast).bind fun _ => tracks_pure rfl

/-- The same power is found on both sides. -/
theorem tracks_currentPower : P.Tracks id P.Amid P.Amid currentPower currentPower :=
  ⟨Law.follows_currentPower, fun _ _ hp => .inr ⟨by rw [hp.current_kind, hp.power_current, id], hp⟩⟩

/-- A step in the middle of a statement may lead to its end. -/
theorem tracks_advance : P.Tracks id P.Amid P.Abreast advance advance :=
  ⟨Law.follows_advance, fun _ _ hp => .inr ⟨rfl, hp.advance⟩⟩

/-- A step onto a token that is no `;` does not. -/
theorem tracks_onto {k : Kind} (hk : k ≠ .mark .semicolon) :
    P.Tracks id (fun p p' => P.Amid p p' ∧ p.peek.kind = k) P.Amid advance advance :=
  ⟨Law.follows_advance, fun _ _ hp => .inr ⟨rfl, hp.1.onto hp.2 hk⟩⟩

/-- Both runs find the token that is expected, or have the same complaint. -/
theorem tracks_expect {k : Kind} (hk : k ≠ .mark .semicolon) :
    P.Tracks id P.Amid P.Amid (expect k) (expect k) := by
  refine ⟨Law.follows_expect k, fun p p' hp => .inr ?_⟩
  by_cases hpeek : p.peek.kind = k
  · simp only [expect, hp.peek_kind, if_pos hpeek]
    exact ⟨rfl, hp.onto hpeek hk⟩
  · simp only [expect, hp.peek_kind, if_neg hpeek]
    have hreport := hp.toAbreast.report (.unexpected k) hp.seen_peek
    rwa [← hp.peek] at hreport

/-- What the next token is need not matter. -/
theorem Tracks.of_amid {Q : Parser σ → Prop} {a : Action σ α} {a' : Action τ β}
    (h : P.Tracks m P.Amid S a a') : P.Tracks m (fun p p' => P.Amid p p' ∧ Q p) S a a' :=
  h.mono (fun _ _ hq => hq.1) fun _ _ hq => hq

/-- Where the next token decides, both runs decide alike. -/
theorem Tracks.ite_peekIs {k : Kind} {a b : Action σ α} {a' b' : Action τ β}
    (ha : P.Tracks m (fun p p' => P.Amid p p' ∧ p.peek.kind = k) S a a')
    (hb : P.Tracks m P.Amid S b b') :
    P.Tracks m P.Amid S (peekIs k >>= fun c => if c = true then a else b)
      (peekIs k >>= fun c => if c = true then a' else b') := by
  have hlaw : ∀ c : Bool, Law.frame.Follows (if c = true then a else b) := fun c => by
    cases c
    · exact hb.frame
    · exact ha.frame
  refine ⟨(Law.follows_peekIs k).bind hlaw, fun p p' hp => ?_⟩
  rw [Runs, run_peekIs_bind, run_peekIs_bind, hp.peek_kind]
  by_cases hpeek : p.peek.kind = k
  · rw [if_pos (decide_eq_true hpeek), if_pos (decide_eq_true hpeek)]
    exact ha.runs p p' ⟨hp, hpeek⟩
  · rw [if_neg (by simpa using hpeek), if_neg (by simpa using hpeek)]
    exact hb.runs p p' hp

/-- An expression and the `;` after it are tracked up to the end of the statement. -/
theorem Tracks.thenSemicolon {a : Action σ α} {a' : Action τ β}
    (h : P.Tracks m P.Abreast P.Amid a a') :
    P.Tracks m P.Abreast P.Abreast (thenSemicolon a) (thenSemicolon a') := by
  refine ⟨h.frame.thenSemicolon, fun p p' hp => ?_⟩
  have herrors : ((Action.thenSemicolon a).run p).2.errors = (a.run p).2.errors := by
    simp only [Action.thenSemicolon, Parser.skipSemicolon]
    split
    · rfl
    · split <;> rfl
  rcases h.runs p p' hp with ⟨hstrict, hne⟩ | hagree
  · exact .inl ⟨hstrict, herrors ▸ hne⟩
  · rcases hagree.outcomes with ⟨q, q', hr, hr', hq⟩ | ⟨x, q, q', hr, hr', hq⟩
    · have hlost : q.errors ≠ [] := ((h.frame p).of_none hr).2
      by_cases hstrict : P.strict
      · exact .inl ⟨hstrict, by rw [herrors, hr]; exact hlost⟩
      · simp only [Runs, Action.thenSemicolon, hr, hr']
        exact .inr (hq.skipSemicolon true fun hs => absurd hs hstrict)
    · simp only [Runs, Action.thenSemicolon, hr, hr']
      exact .inr ⟨rfl, hq.toAbreast.skipSemicolon false fun _ => hq.amid⟩

/-! ### Actions inside of others -/

/-- An action that runs another from a parser at the same place, and puts the parser after it in
order. -/
theorem Runs.within {a b : Action σ α} {a' b' : Action τ β} (h : P.Runs m S a a' q q')
    (leave : Bool → Parser σ → Parser σ) (leave' : Bool → Parser τ → Parser τ)
    (hb : b.run p = ((a.run q).1, leave (a.run q).1.isSome (a.run q).2))
    (hb' : b'.run p' = ((a'.run q').1, leave' (a'.run q').1.isSome (a'.run q').2))
    (herrors : ∀ c r, (leave c r).errors = r.errors)
    (hS : ∀ r r', S r r' → S' (leave true r) (leave' true r'))
    (habreast : ∀ r r', P.Abreast r r' → P.Abreast (leave false r) (leave' false r')) :
    P.Runs m S' b b' p p' := by
  rw [Runs, hb, hb']
  rcases h with ⟨hstrict, hne⟩ | hagree
  · exact .inl ⟨hstrict, by rwa [herrors]⟩
  · refine .inr ?_
    rcases hagree.outcomes with ⟨r, r', hr, hr', hq⟩ | ⟨x, r, r', hr, hr', hq⟩ <;> rw [hr, hr']
    · exact habreast r r' hq
    · exact ⟨rfl, hS r r' hq⟩

/-- It does not matter inside of how many expressions two actions track each other. -/
theorem Tracks.inExpr {a : Action σ α} {a' : Action τ β} (h : P.Tracks m P.Abreast P.Amid a a') :
    P.Tracks m P.Abreast P.Amid (inExpr a) (inExpr a') :=
  ⟨h.frame.inExpr, fun _ _ hp => (h.runs _ _ hp.enterExpr).within
    (fun _ => Parser.exitExpr) (fun _ => Parser.exitExpr) rfl rfl (fun _ _ => rfl)
    (fun _ _ hr => ⟨hr.toAbreast.exitExpr, hr.amid⟩) fun _ _ hr => hr.exitExpr⟩

/-- Nor does it matter inside of how many blocks. -/
theorem Tracks.inBlock {a : Action σ α} {a' : Action τ β}
    (h : P.Tracks m P.Abreast P.Amid a a') : P.Tracks m P.Abreast P.Amid (inBlock a) (inBlock a') :=
  ⟨h.frame.inBlock, fun _ _ hp => (h.runs _ _ hp.enterBlock).within
    (fun _ => Parser.exitBlock) (fun _ => Parser.exitBlock) rfl rfl (fun _ _ => rfl)
    (fun _ _ hr => ⟨hr.toAbreast.exitBlock, hr.amid⟩) fun _ _ hr => hr.exitBlock⟩

/-- Both runs note a statement as read, or both as dropped. -/
theorem Tracks.noted {a : Action σ α} {a' : Action τ β}
    (h : P.Tracks m P.Abreast P.Abreast a a') :
    P.Tracks m P.Abreast P.Abreast (noted a) (noted a') := by
  have hlaw : Law.frame.Follows (Action.noted a) := fun p =>
    (ends_noted ..).2 <| (h.frame _).mono (fun _ _ hq => hq.noted) fun _ hq => ⟨hq.1.noted, hq.2⟩
  refine ⟨hlaw, fun p p' hp => (h.runs _ _ (hp.note (.began p.current) (.began p'.current))).within
    (fun c r => r.note (if c then .kept else .dropped))
    (fun c r => r.note (if c then .kept else .dropped)) rfl rfl (fun _ _ => rfl)
    (fun _ _ hr => hr.note _ _) fun _ _ hr => hr.note _ _⟩

/-- Both attempts have a result, or neither has. -/
theorem Tracks.attempt {a : Action σ α} {a' : Action τ β}
    (h : P.Tracks m R P.Abreast a a') :
    P.Tracks (Option.map m) R P.Abreast (attempt a) (attempt a') := by
  refine ⟨fun p => (ends_attempt ..).2 <| (h.frame p).mono (fun _ _ hq => hq) fun _ hq => hq.1,
    fun p p' hp => (h.runs p p' hp).imp_right fun hagree => ?_⟩
  rcases hagree.outcomes with ⟨q, q', hr, hr', hq⟩ | ⟨x, q, q', hr, hr', hq⟩ <;>
    simp only [Action.attempt, hr, hr']
  · exact ⟨rfl, hq⟩
  · exact ⟨rfl, hq⟩

end

end Pairing
end MonkeySyntax

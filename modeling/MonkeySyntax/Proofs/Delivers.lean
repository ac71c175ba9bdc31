/-
# What an action delivers

`a.Delivers fits p x stop` says how `a` reads a given `x` from the parser `p`.  If it `fits`, that
is if expressions nest no deeper than there is room for, then `x` is the result, no error is
reported, and `stop` holds of the window after it.  If it does not, the first thing that is wrong is
that expressions nest too deeply, whatever the result.

| action | delivers |
| --- | --- |
| looking at tokens, moving on, a token that has to follow and does | what comes after it |
| one action, then another | if both fit |
| a repetition | if all rounds fit |

What was wrong stays wrong: once an expression was too deep, the rest of an action may do what it
likes, as long as it keeps the errors there are (`Law.frame`).
-/

import MonkeySyntax.Proofs.Leads

namespace MonkeySyntax

namespace Parser

variable {σ : Type}

/-- Between `p` and `q` nothing was wrong. -/
structure Quiet (p q : Parser σ) : Prop where
  grammar : q.grammar = p.grammar
  errors : q.errors = p.errors

/-- Between `p` and `q` something was wrong, and first of all that expressions nest too deeply. -/
def Chokes (p q : Parser σ) : Prop :=
  ∃ position more, q.errors = p.errors ++ ⟨.nestingTooDeep nestingLimit, position⟩ :: more

variable {p q r : Parser σ}

/-- Doing nothing is quiet. -/
theorem Quiet.refl (p : Parser σ) : p.Quiet p := ⟨rfl, rfl⟩

/-- Quiet and quiet again is quiet. -/
theorem Quiet.trans (h : p.Quiet q) (k : q.Quiet r) : p.Quiet r :=
  ⟨k.grammar.trans h.grammar, k.errors.trans h.errors⟩

/-- The first thing that is wrong after a quiet part is the first that is wrong at all. -/
theorem Quiet.chokes (h : p.Quiet q) (k : q.Chokes r) : p.Chokes r := by
  obtain ⟨position, more, hr⟩ := k
  exact ⟨position, more, by rw [hr, h.errors]⟩

/-- Whoever choked does not recover. -/
theorem Chokes.leads [TokenSource σ] (h : p.Chokes q) (k : q.Leads r) : p.Chokes r := by
  obtain ⟨position, more, hq⟩ := h
  obtain ⟨later, hr⟩ := k.errors
  exact ⟨position, more ++ later, by rw [← hr, hq, List.append_assoc, List.cons_append]⟩

end Parser

open MonkeySyntax.Parser

variable {σ : Type} [TokenSource σ]

/-- The windows from which one token is left to `u`. -/
def Window.Behind (u w : Window σ) : Prop := w.advance = u

/-- Behind a window, its token is the next one. -/
theorem Window.Behind.peek {u w : Window σ} (h : u.Behind w) : w.peek = u.current :=
  congrArg Window.current h

/-- A parser that is one token behind `u` sees the token of `u` as its next. -/
theorem Window.Behind.peek_kind {u : Window σ} {p : Parser σ} {k : Kind} (h : u.Behind p.window)
    (hu : u.current.kind = k) : p.peek.kind = k := by
  rw [show p.peek = u.current from h.peek, hu]

namespace Action

variable {α β : Type}

/-- If it fits, `a` reads `x` from `p` up to a window with `stop`.  If not, it chokes. -/
structure Delivers (a : Action σ α) (fits : Prop) (p : Parser σ) (x : α)
    (stop : Window σ → Prop) : Prop where
  reads : fits → ∃ q, a.run p = (some x, q) ∧ p.Quiet q ∧ stop q.window
  chokes : ¬ fits → p.Chokes (a.run p).2

section

variable {fits fits₁ fits₂ : Prop} {p : Parser σ} {x : α} {y : β} {stop mid : Window σ → Prop}

/-- What is delivered fits if and only if something equivalent does, and stops at more windows. -/
theorem Delivers.mono {a : Action σ α} {stop' : Window σ → Prop} (h : a.Delivers fits p x stop)
    (hfits : fits₁ ↔ fits) (hstop : ∀ w, stop w → stop' w) : a.Delivers fits₁ p x stop' where
  reads hf := by
    obtain ⟨q, hr, hq, hw⟩ := h.reads (hfits.1 hf)
    exact ⟨q, hr, hq, hstop _ hw⟩
  chokes hf := h.chokes fun hf' => hf (hfits.2 hf')

/-- A result that is there already is delivered. -/
theorem delivers_pure (hfits : fits) (hstop : stop p.window) :
    (pure x : Action σ α).Delivers fits p x stop :=
  ⟨fun _ => ⟨p, rfl, .refl p, hstop⟩, fun hf => absurd hfits hf⟩

/-- What does not fit is refused for being too deep. -/
theorem delivers_reject {d : Parser σ → Diagnostic} (hfits : ¬ fits)
    (hd : (d p).cause = .nestingTooDeep nestingLimit) :
    (reject d : Action σ α).Delivers fits p x stop where
  reads hf := absurd hf hfits
  chokes _ := ⟨(d p).position, [], by rw [← hd]; rfl⟩

/-! ### Looking and moving on -/

@[simp] theorem delivers_current_bind (f : Token → Action σ α) :
    (current >>= f).Delivers fits p x stop ↔ (f p.current).Delivers fits p x stop :=
  ⟨fun h => ⟨h.1, h.2⟩, fun h => ⟨h.1, h.2⟩⟩

@[simp] theorem delivers_currentIs_bind (k : Kind) (f : Bool → Action σ α) :
    (currentIs k >>= f).Delivers fits p x stop ↔
      (f (p.current.kind = k)).Delivers fits p x stop :=
  ⟨fun h => ⟨h.1, h.2⟩, fun h => ⟨h.1, h.2⟩⟩

@[simp] theorem delivers_peekIs_bind (k : Kind) (f : Bool → Action σ α) :
    (peekIs k >>= f).Delivers fits p x stop ↔ (f (p.peek.kind = k)).Delivers fits p x stop :=
  ⟨fun h => ⟨h.1, h.2⟩, fun h => ⟨h.1, h.2⟩⟩

@[simp] theorem delivers_currentName_bind (f : Identifier → Action σ α) :
    (Parsing.currentName >>= f).Delivers fits p x stop ↔
      (f (Parsing.nameOf p.current)).Delivers fits p x stop :=
  ⟨fun h => ⟨h.1, h.2⟩, fun h => ⟨h.1, h.2⟩⟩

@[simp] theorem delivers_currentPower_bind (f : Power → Action σ α) :
    (currentPower >>= f).Delivers fits p x stop ↔
      (f (p.grammar.power p.current.kind)).Delivers fits p x stop :=
  ⟨fun h => ⟨h.1, h.2⟩, fun h => ⟨h.1, h.2⟩⟩

@[simp] theorem delivers_advance_bind (f : Unit → Action σ α) :
    (advance >>= f).Delivers fits p x stop ↔ (f ()).Delivers fits p.advance x stop :=
  ⟨fun h => ⟨fun hf => (h.1 hf).imp fun _ hq => ⟨hq.1, ⟨hq.2.1.1, hq.2.1.2⟩, hq.2.2⟩, h.2⟩,
    fun h => ⟨fun hf => (h.1 hf).imp fun _ hq => ⟨hq.1, ⟨hq.2.1.1, hq.2.1.2⟩, hq.2.2⟩, h.2⟩⟩

/-- A token that has to follow, and does. -/
theorem delivers_expect_bind {k : Kind} {f : Unit → Action σ α} (hk : p.peek.kind = k)
    (h : (f ()).Delivers fits p.advance x stop) : (expect k >>= f).Delivers fits p x stop := by
  have hrun : (expect k >>= f).run p = (advance >>= f).run p := by
    rw [run_expect_bind, if_pos hk, run_advance_bind]
  have hadvance := (delivers_advance_bind f).2 h
  exact ⟨fun hf => hrun ▸ hadvance.reads hf, fun hf => hrun ▸ hadvance.chokes hf⟩

/-! ### Actions put together -/

/-- Once the first action choked, so did both. -/
theorem chokes_bind {a : Action σ β} {f : β → Action σ α} (ha : p.Chokes (a.run p).2)
    (hlaw : ∀ y, Law.frame.Follows (f y)) : p.Chokes ((a >>= f).run p).2 := by
  rw [run_bind]
  rcases hr : a.run p with ⟨_ | y, q⟩
  · rwa [hr] at ha
  · rw [hr] at ha
    exact Chokes.leads ha ((hlaw y).leads q)

/-- **One action, then another,** fits if both of its parts do. -/
theorem Delivers.bind {a : Action σ β} {f : β → Action σ α} (ha : a.Delivers fits₁ p y mid)
    (hf : ∀ q, q.grammar = p.grammar → mid q.window → (f y).Delivers fits₂ q x stop)
    (hlaw : ∀ y, Law.frame.Follows (f y)) (hfits : fits ↔ fits₁ ∧ fits₂) :
    (a >>= f).Delivers fits p x stop where
  reads h := by
    obtain ⟨q, hr, hq, hmid⟩ := ha.reads (hfits.1 h).1
    obtain ⟨r, hr', hq', hstop⟩ := (hf q hq.grammar hmid).reads (hfits.1 h).2
    exact ⟨r, by simp [run_bind, hr, hr'], hq.trans hq', hstop⟩
  chokes h := by
    by_cases h₁ : fits₁
    · obtain ⟨q, hr, hq, hmid⟩ := ha.reads h₁
      have hq' := (hf q hq.grammar hmid).chokes fun h₂ => h (hfits.2 ⟨h₁, h₂⟩)
      rw [run_bind, hr]
      exact hq.chokes hq'
    · exact chokes_bind (ha.chokes h₁) hlaw

/-- One action, then one that nests nothing. -/
theorem Delivers.andThen {a : Action σ β} {f : β → Action σ α} (ha : a.Delivers fits₁ p y mid)
    (hf : ∀ q, q.grammar = p.grammar → mid q.window → (f y).Delivers True q x stop)
    (hlaw : ∀ y, Law.frame.Follows (f y)) (hfits : fits ↔ fits₁) :
    (a >>= f).Delivers fits p x stop :=
  ha.bind hf hlaw (by rw [hfits, and_true])

/-- One action, whose result is made into another. -/
theorem Delivers.map {a : Action σ β} (g : β → α) (ha : a.Delivers fits₁ p y stop)
    (hfits : fits ↔ fits₁) : (a >>= fun z => pure (g z)).Delivers fits p (g y) stop :=
  ha.andThen (fun _ _ hstop => delivers_pure trivial hstop) (fun _ => Law.follows_pure _) hfits

/-- An attempt delivers what it tries. -/
theorem Delivers.attempt {a : Action σ α} (h : a.Delivers fits p x stop) :
    (attempt a).Delivers fits p (some x) stop where
  reads hf := by
    obtain ⟨q, hr, hq⟩ := h.reads hf
    exact ⟨q, by simp [Action.attempt, hr], hq⟩
  chokes := h.chokes

/-- What is delivered inside of one more expression is delivered. -/
theorem Delivers.inExpr {a : Action σ α} (h : a.Delivers fits p.enterExpr x stop) :
    (inExpr a).Delivers fits p x stop where
  reads hf := by
    obtain ⟨q, hr, hq, hstop⟩ := h.reads hf
    exact ⟨q.exitExpr, by simp [Action.inExpr, hr], ⟨hq.grammar, hq.errors⟩, hstop⟩
  chokes := h.chokes

/-- What is delivered inside of one more block is delivered. -/
theorem Delivers.inBlock {a : Action σ α} (h : a.Delivers fits p.enterBlock x stop) :
    (inBlock a).Delivers fits p x stop where
  reads hf := by
    obtain ⟨q, hr, hq, hstop⟩ := h.reads hf
    exact ⟨q.exitBlock, by simp [Action.inBlock, hr], ⟨hq.grammar, hq.errors⟩, hstop⟩
  chokes := h.chokes

/-- A statement that is noted is delivered like one that is not. -/
theorem Delivers.noted {a : Action σ α} (h : a.Delivers fits (p.note (.began p.current)) x stop) :
    (noted a).Delivers fits p x stop where
  reads hf := by
    obtain ⟨q, hr, hq, hstop⟩ := h.reads hf
    exact ⟨q.note .kept, by simp [Action.noted, hr], ⟨hq.grammar, hq.errors⟩, hstop⟩
  chokes := h.chokes

/-- Skipping a `;` reports nothing. -/
theorem errors_skipSemicolon (p : Parser σ) (failed : Bool) :
    (p.skipSemicolon failed).errors = p.errors := by
  rcases p.skipSemicolon_eq failed with h | h <;> rw [h]
  rfl

/-- An action that chokes has choked before the `;` after it. -/
theorem Delivers.chokes_thenSemicolon {a : Action σ α} (h : a.Delivers fits p x stop)
    (hf : ¬ fits) : p.Chokes ((Action.thenSemicolon a).run p).2 := by
  obtain ⟨position, more, herrors⟩ := h.chokes hf
  exact ⟨position, more, by rw [← herrors]; exact errors_skipSemicolon _ _⟩

/-- What stands before a `;` goes with it. -/
theorem Delivers.thenSemicolon {a : Action σ α} {u : Window σ} (h : a.Delivers fits p x u.Behind)
    (hu : u.current.kind = .mark .semicolon) :
    (thenSemicolon a).Delivers fits p x (· = u) where
  reads hf := by
    obtain ⟨q, hr, hq, hstop⟩ := h.reads hf
    have hskip : q.skipSemicolon false = q.advance := by
      simp [Parser.skipSemicolon, hstop.peek_kind hu]
    exact ⟨q.advance, by simp [Action.thenSemicolon, hr, hskip], ⟨hq.grammar, hq.errors⟩, hstop⟩
  chokes hf := h.chokes_thenSemicolon hf

/-- Before anything else it stays as it is. -/
theorem Delivers.thenOther {a : Action σ α} {u : Window σ} (h : a.Delivers fits p x u.Behind)
    (hu : u.current.kind ≠ .mark .semicolon) :
    (Action.thenSemicolon a).Delivers fits p x u.Behind where
  reads hf := by
    obtain ⟨q, hr, hq, hstop⟩ := h.reads hf
    have hskip : q.skipSemicolon false = q := by
      simp [Parser.skipSemicolon, hstop.peek_kind rfl, hu]
    exact ⟨q, by simp [Action.thenSemicolon, hr, hskip], hq, hstop⟩
  chokes hf := h.chokes_thenSemicolon hf

end

/-! ### Repetitions -/

section

variable {go : Parser σ → Bool} {item : Action σ α} {shrinks : Shrinks go item}
  {fits fits₁ fits₂ : Prop} {p : Parser σ} {x : α} {xs : List α} {stop mid : Window σ → Prop}

/-- A repetition that does not begin delivers no items. -/
theorem delivers_many_nil (hgo : go p = false) (hfits : fits) (hstop : stop p.window) :
    (many go item shrinks).Delivers fits p [] stop where
  reads _ := ⟨p, by simp [run_many, hgo], .refl p, hstop⟩
  chokes hf := absurd hfits hf

/-- **One round, then the others.** -/
theorem Delivers.many_cons (hgo : go p = true) (hx : item.Delivers fits₁ p x mid)
    (hxs : ∀ q, q.grammar = p.grammar → mid q.window →
      (many go item shrinks).Delivers fits₂ q xs stop)
    (hlaw : Law.frame.Follows item) (hfits : fits ↔ fits₁ ∧ fits₂) :
    (many go item shrinks).Delivers fits p (x :: xs) stop := by
  have hrun : (many go item shrinks).run p = _ := run_many_of_go hgo
  have hbind : (item >>= fun x => many go item shrinks >>= fun xs => pure (x :: xs)).Delivers fits p
      (x :: xs) stop :=
    hx.bind (fun q hg hmid => (hxs q hg hmid).map (x :: ·) Iff.rfl)
      (fun _ => hlaw.many.bind fun _ => Law.follows_pure _) hfits
  exact ⟨fun hf => hrun ▸ hbind.reads hf, fun hf => hrun ▸ hbind.chokes hf⟩

end

end Action

end MonkeySyntax

/-
# Two runs through lists, statements and blocks

If the readers of expressions of two runs track each other, so do the lists, the statements and the
blocks that are read by them.

In the loops both runs go on or stop together.  In a block there is one more thing that can happen:
after a statement the first run may come to the end of its input, where it fails, while the second
goes on (`Loose`).
-/

import MonkeySyntax.Proofs.Pairing

namespace MonkeySyntax
namespace Pairing

open MonkeySyntax.Action MonkeySyntax.Parsing

variable {σ τ : Type} [TokenSource σ] [TokenSource τ] {α β : Type} {P : Pairing σ τ}

/-! ### Repetitions -/

section

variable {m : α → β} {R : Parser σ → Parser τ → Prop} {go : Parser σ → Bool}
  {go' : Parser τ → Bool} {item : Action σ α} {item' : Action τ β} {shrinks : Shrinks go item}
  {shrinks' : Shrinks go' item'}

/-- **A repetition tracks another** if their rounds do, but that a round of the first may fail for
good where the second does otherwise. -/
theorem tracks_many_or (hlaw : Law.frame.Follows item)
    (h : ∀ p p', R p p' →
      (go' p' = go p ∧ (go p = true → P.Runs m R item item' p p')) ∨
        (go p = true ∧ ∃ q, item.run p = (none, q) ∧ P.Lost q)) :
    P.Tracks (List.map m) R (fun q q' => R q q' ∧ go q = false) (many go item shrinks)
      (many go' item' shrinks') := by
  refine ⟨hlaw.many, fun p p' hp => ?_⟩
  -- a round leaves fewer tokens, so the rounds after it are tracked by induction on these
  induction hn : p.window.left using Nat.strongRecOn generalizing p p' with
  | ind n ih =>
    subst hn
    rcases h p p' hp with ⟨hgo, hitem⟩ | ⟨hgo, q, hfail, hlost⟩
    · by_cases hp' : go p = true
      · have hround : P.Runs m (fun q q' => R q q' ∧ q.window.left < p.window.left) item item' p
            p' := by
          refine (hitem hp').and fun x q hr => ?_
          have hleft := shrinks p x hp' (by rw [hr])
          rwa [hr] at hleft
        rw [Runs, run_many_of_go hp', run_many_of_go (hgo.trans hp')]
        refine hround.bind (fun x q q' hq => ?_) fun x => hlaw.many.bind fun _ =>
          Law.follows_pure _
        exact Runs.bind (ih _ hq.2 q q' hq.1 rfl) (fun xs r r' hr => .inr ⟨rfl, hr⟩)
          fun _ => Law.follows_pure _
      · rw [Runs, run_many, run_many, if_neg hp', if_neg (by rwa [hgo])]
        exact .inr ⟨rfl, hp, by simpa using hp'⟩
    · refine .inl ?_
      rw [run_many, if_pos hgo, hfail]
      exact hlost

/-- **A repetition tracks another** if their rounds do. -/
theorem Tracks.many (hgo : ∀ p p', R p p' → go' p' = go p)
    (h : P.Tracks m (fun p p' => R p p' ∧ go p = true) R item item') :
    P.Tracks (List.map m) R R (Action.many go item shrinks) (Action.many go' item' shrinks') :=
  (tracks_many_or h.frame fun p p' hp => .inl ⟨hgo p p' hp, fun hp' => h.runs p p' ⟨hp, hp'⟩⟩).mono
    (fun _ _ hp => hp) fun _ _ hq => hq.1

end

variable {expr : Power → Phrase σ Expr} {expr' : Power → Phrase τ Expr}

/-! ### Lists -/

/-- A comma follows on both sides or on neither. -/
theorem commaFollows_eq (p : Parser σ) (p' : Parser τ) (h : P.Amid p p') :
    commaFollows p' = commaFollows p := by
  rw [commaFollows, commaFollows, h.peek_kind]

/-- A comma is passed on both sides. -/
theorem tracks_comma :
    P.Tracks id (fun p p' => P.Amid p p' ∧ commaFollows p = true) P.Amid advance advance :=
  (tracks_onto (k := .mark .comma) (by decide)).mono
    (fun _ _ h => ⟨h.1, of_decide_eq_true h.2⟩) fun _ _ h => h

/-- Parameters are tracked by parameters, name by name. -/
theorem tracks_parameters : P.Tracks (List.map P.name) P.Amid P.Amid parameters parameters := by
  have hnext : P.Tracks P.name (fun p p' => P.Amid p p' ∧ commaFollows p = true) P.Amid
      nextParameter nextParameter :=
    tracks_comma.bind fun _ => (tracks_expect (by decide)).bind fun _ => tracks_currentName
  refine (tracks_expect (by decide)).bind fun _ => .ite_peekIs ?_ ?_
  · exact (tracks_onto (by decide)).bind fun _ => tracks_pure rfl
  · refine (tracks_expect (by decide)).bind fun _ => tracks_currentName.bind fun first => ?_
    refine (Tracks.many commaFollows_eq hnext).bind fun others => ?_
    exact (tracks_expect (by decide)).bind fun _ => tracks_pure rfl

section

variable (h : ∀ bp, P.Tracks P.expr P.Abreast P.Amid (expr bp).toAction (expr' bp).toAction)

include h

/-- A list of expressions is tracked by a list, one by one. -/
theorem tracks_expressions {close : Mark} (hclose : close ≠ .semicolon) :
    P.Tracks (List.map P.expr) P.Amid P.Amid (expressions expr close)
      (expressions expr' close) := by
  have hkind : Kind.mark close ≠ .mark .semicolon := fun hk => hclose (Kind.mark.inj hk)
  have hnext : P.Tracks P.expr (fun p p' => P.Amid p p' ∧ commaFollows p = true) P.Amid
      (nextExpression expr) (nextExpression expr') :=
    tracks_comma.bind fun _ => tracks_advance.bind fun _ => h _
  refine .ite_peekIs (.of_amid ?_) ?_
  · exact (tracks_expect hkind).bind fun _ => tracks_pure rfl
  · refine tracks_advance.bind fun _ => (h _).bind fun first => ?_
    refine (Tracks.many commaFollows_eq hnext).bind fun others => ?_
    exact (tracks_expect hkind).bind fun _ => tracks_pure rfl

/-- A key and its value are tracked by a key and its value. -/
theorem tracks_pair : P.Tracks (Prod.map P.expr P.expr) P.Amid P.Amid (pair expr) (pair expr') := by
  have hkey : P.Tracks P.expr P.Amid P.Amid (key expr) (key expr') :=
    tracks_advance.bind fun _ => (h _).bind fun _ => (tracks_expect (by decide)).bind fun _ =>
      tracks_pure rfl
  refine hkey.bind fun k => tracks_advance.bind fun _ => (h _).bind fun v => .ite_peekIs ?_ ?_
  · exact (tracks_pure rfl).of_amid
  · exact (tracks_expect (by decide)).bind fun _ => tracks_pure rfl

/-- The pairs of a hash are tracked by pairs, one by one. -/
theorem tracks_pairs :
    P.Tracks (List.map (Prod.map P.expr P.expr)) P.Amid P.Amid (pairs expr) (pairs expr') := by
  have hgo : ∀ p p', P.Amid p p' → inHash p' = inHash p := fun p p' hp => by
    rw [inHash, inHash, hp.peek_kind]
  exact (Tracks.many hgo (tracks_pair h).of_amid).bind fun _ =>
    (tracks_expect (by decide)).bind fun _ => tracks_pure rfl

/-! ### Statements -/

/-- A binding is tracked by a binding, up to its `;`. -/
theorem tracks_letStatement :
    P.Tracks P.stmt P.Amid P.Abreast (letStatement expr) (letStatement expr') :=
  (tracks_current fun _ _ h => h.toAbreast).bind fun _ => (tracks_expect (by decide)).bind fun _ =>
    tracks_currentName.bind fun _ => (tracks_expect (by decide)).bind fun _ =>
      tracks_advance.bind fun _ => (h _).thenSemicolon.bind fun _ => tracks_pure rfl

/-- A `return` is tracked by a `return`, with a value or without. -/
theorem tracks_returnStatement :
    P.Tracks P.stmt P.Amid P.Abreast (returnStatement expr) (returnStatement expr') := by
  have hbare : ∀ t : Token, P.Tracks P.stmt P.Amid P.Abreast (pure (.returnValue t none))
      (pure (.returnValue (P.swap t) none)) := fun t =>
    (tracks_pure rfl).mono (fun _ _ h => h) fun _ _ h => h.toAbreast
  refine (tracks_current fun _ _ h => h.toAbreast).bind fun t => .ite_peekIs (.of_amid ?_) ?_
  · exact tracks_advance.bind fun _ => tracks_pure rfl
  · refine .ite_peekIs (hbare t).of_amid (.ite_peekIs (hbare t).of_amid ?_)
    exact tracks_advance.bind fun _ => (h _).thenSemicolon.bind fun _ => tracks_pure rfl

/-- A statement is tracked by a statement of the same form. -/
theorem tracks_anyStatement :
    P.Tracks P.stmt P.Abreast P.Abreast (anyStatement expr) (anyStatement expr') := by
  have hexpr : P.Tracks P.stmt P.Abreast P.Abreast (expressionStatement expr)
      (expressionStatement expr') :=
    (tracks_current fun _ _ h => h).bind fun _ => (h _).thenSemicolon.bind fun _ => tracks_pure rfl
  refine ⟨Law.follows_anyStatement fun bp => (h bp).frame, fun p p' hp => ?_⟩
  simp only [Runs, anyStatement, run_current_bind, hp.current_kind]
  split
  · rename_i hk
    exact (tracks_letStatement h).runs p p' ⟨hp, by rw [hk]; decide⟩
  · rename_i hk
    exact (tracks_returnStatement h).runs p p' ⟨hp, by rw [hk]; decide⟩
  · exact hexpr.runs p p' hp

/-- **A statement tracks a statement.** -/
theorem tracks_statement :
    P.Tracks P.stmt P.Abreast P.Abreast (statement expr) (statement expr') :=
  (tracks_anyStatement h).noted

end

/-! ### Blocks -/

/-- The two runs are at the same place, or the first is at its end and does not count there. -/
def Loose (P : Pairing σ τ) (p : Parser σ) (p' : Parser τ) : Prop :=
  P.Abreast p p' ∨ P.strict ∧ p.current.kind = .eof

section

variable (hstrict : ∀ {w : Window σ} {v : Window τ}, P.parts w v → P.strict)

include hstrict

/-- Past the end of a statement the runs are side by side, or the first is at its end. -/
theorem Abreast.loose_advance {p : Parser σ} {p' : Parser τ} (h : P.Abreast p p') :
    P.Loose p.advance p'.advance :=
  (P.step h.meets).imp h.advance fun hparts => ⟨hstrict hparts, P.parts_peek hparts⟩

/-- Both runs pass the token after a statement of a block, or both stay at a `}`. -/
theorem tracks_afterStatement (s : Option Stmt) :
    P.Tracks id P.Abreast P.Loose (afterStatement s) (afterStatement (s.map P.stmt)) := by
  refine ⟨Law.follows_afterStatement s, fun p p' hp => ?_⟩
  simp only [Runs, afterStatement, run_currentIs_bind, hp.current_kind, Option.isSome_map]
  split
  · exact .inr ⟨rfl, hp.loose_advance hstrict⟩
  · exact .inr ⟨rfl, .inl hp⟩

variable (h : ∀ bp, P.Tracks P.expr P.Abreast P.Amid (expr bp).toAction (expr' bp).toAction)

include h

/-- A statement of a block is tracked by one, or both are dropped, or the input ends on both sides.
-/
theorem tracks_blockItem :
    P.Tracks (Option.map P.stmt) P.Abreast P.Loose (blockItem expr) (blockItem expr') := by
  have hitem : P.Tracks (Option.map P.stmt) P.Abreast P.Loose
      (attempt (statement expr) >>= fun s => afterStatement s >>= fun _ => pure s)
      (attempt (statement expr') >>= fun s => afterStatement s >>= fun _ => pure s) :=
    (tracks_statement h).attempt.bind fun s => (tracks_afterStatement hstrict s).bind fun _ =>
      tracks_pure rfl
  refine ⟨Law.follows_blockItem fun bp => (h bp).frame, fun p p' hp => ?_⟩
  simp only [Runs, blockItem, run_currentIs_bind, hp.current_kind]
  split
  · rename_i he
    have hkind : p.current.kind = .eof := of_decide_eq_true he
    have hreport := hp.report_current (.unexpected (.mark .closeCurly))
    rw [Complaint.about, Complaint.about, hp.current_kind, hkind] at hreport
    exact .inr hreport
  · exact hitem.runs p p' hp

/-- **A block tracks a block.** -/
theorem tracks_block :
    P.Tracks P.block P.Amid P.Amid (Parsing.block expr).toAction
      (Parsing.block expr').toAction := by
  have hlaw : Law.frame.Follows (blockItem expr) := Law.follows_blockItem fun bp => (h bp).frame
  have hbody : P.Tracks (List.map (Option.map P.stmt)) P.Abreast P.Amid
      (many inBody (blockItem expr) (blockItem_shrinks expr))
      (many inBody (blockItem expr') (blockItem_shrinks expr')) := by
    refine (tracks_many_or (R := P.Loose) hlaw ?_).mono (fun _ _ hp => .inl hp) ?_
    · rintro p p' (hp | ⟨hs, he⟩)
      · refine .inl ⟨?_, fun _ => (tracks_blockItem hstrict h).runs p p' hp⟩
        rw [inBody, inBody, hp.current_kind]
      · -- the first run is cut off in a block, and that is an error
        refine .inr ⟨by simp [inBody, he], p.report ⟨.unexpectedToken (.mark .closeCurly) .eof,
          p.current.start⟩, ?_, hs, by simp [Parser.report]⟩
        simp [blockItem, he, reject]
    · rintro q q' ⟨hq, hgo⟩
      have hclose : q.current.kind = .mark .closeCurly := by simpa [inBody] using hgo
      rcases hq with hq | ⟨-, he⟩
      · exact ⟨hq, by rw [hclose]; decide⟩
      · rw [he] at hclose
        cases hclose
  refine (tracks_current fun _ _ hp => hp.toAbreast).bind fun t => tracks_advance.bind fun _ =>
    hbody.inBlock.bind fun body => tracks_pure ?_
  rw [Pairing.block, Block.map, Stmt.mapAll_eq, List.filterMap_map, List.map_filterMap]
  rfl

end

end Pairing
end MonkeySyntax

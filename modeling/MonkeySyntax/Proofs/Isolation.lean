/-
# Programs one after the other

Where a piece of text ends in a `;`, what comes after it is read as if it stood alone: the
statements and the errors are those of the piece, and then those of the rest (`Piece.parse_whole`).

| the piece | the rest |
| --- | --- |
| has no errors | anything |
| has no `fn` and no `if`, but maybe errors | anything that does not start with a `;` |

No other piece will do.  A block that is still open at the end of the piece goes on in the rest.
And if the last statement of the piece fails at its `;`, a `;` at the start of the rest is skipped
as if it were that statement's own.
-/

import MonkeySyntax.Proofs.Pairing.Programs
import MonkeySyntax.Proofs.Reads
import MonkeySyntax.Tree.Equality

namespace MonkeySyntax

open MonkeySyntax.Window

/-- A piece of text that ends in a `;`, and what comes after it: an end of the input, or more text
and then another one. -/
structure Piece where
  /-- The piece, up to its last token. -/
  body : List Token
  semicolon : Token
  last : Token
  rest : List Token
  final : Token
  body_kind : ∀ t ∈ body, t.kind ≠ .eof
  semicolon_kind : semicolon.kind = .mark .semicolon
  last_kind : last.kind = .eof
  final_kind : final.kind = .eof

namespace Piece

variable (P : Piece)

/-- The tokens of the piece alone. -/
def alone : List Token := P.body ++ [P.semicolon, P.last]

/-- The tokens of the piece with the rest. -/
def whole : List Token := P.body ++ P.semicolon :: (P.rest ++ [P.final])

/-- What the rest needs of the piece. -/
def Separate : Prop :=
  (parse P.alone).2.errors = [] ∨
    (∀ t ∈ P.body, t.kind ≠ .keyword .fnWord ∧ t.kind ≠ .keyword .ifWord) ∧
      ∀ t ∈ P.rest.head?, t.kind ≠ .mark .semicolon

/-- The window at which `ts` is what is left of the piece alone, up to its `;`. -/
def before (ts : List Token) : Window Stream :=
  Window.before P.last P.last_kind (ts ++ [P.semicolon, P.last])

/-- The window at which it is what is left of the piece with the rest. -/
def beforeRest (ts : List Token) : Window Stream :=
  Window.before P.final P.final_kind (ts ++ P.semicolon :: (P.rest ++ [P.final]))

/-- A parser of the piece alone starts with all of the piece to come. -/
theorem start_alone : start (Stream.ofList P.alone) = P.before P.body := by
  rw [alone, List.append_cons, Stream.ofList_concat _ P.last_kind, start_eq_before,
    ← List.append_cons]
  rfl

/-- So does a parser of the piece with the rest. -/
theorem start_whole : start (Stream.ofList P.whole) = P.beforeRest P.body := by
  rw [whole, ← List.cons_append, ← List.append_assoc, Stream.ofList_concat _ P.final_kind,
    start_eq_before, List.append_assoc]
  rfl

/-- After the `;` the rest comes as if it stood alone. -/
theorem advance_beforeRest :
    (P.beforeRest []).advance = start (Stream.ofList (P.rest ++ [P.final])) := by
  rw [Stream.ofList_concat _ P.final_kind, start_eq_before]
  exact advance_before ..

/-- Up to the `;`, both runs are at the same token of the piece. -/
theorem exists_current (ts : List Token) : ∃ t ∈ ts ++ [P.semicolon],
    (P.before ts).current = t ∧ (P.beforeRest ts).current = t := by
  cases ts with
  | nil => exact ⟨P.semicolon, List.mem_singleton_self _, current_before .., current_before ..⟩
  | cons t ts => exact ⟨t, List.mem_cons_self .., current_before .., current_before ..⟩

variable {P}

/-- The piece alone and the piece with the rest, side by side up to the `;`. -/
def pairing (h : P.Separate) : Pairing Stream Stream where
  swap := id
  seen _ := True
  earlier := []
  strict := (parse P.alone).2.errors = []
  grammar := .standard
  meets w v := ∃ ts, ts <:+ P.body ∧ w = P.before ts ∧ v = P.beforeRest ts
  parts w v := w = P.before [] ∧ v = P.beforeRest []
  kind_swap _ := rfl
  int64_swap _ _ := rfl
  prefixRule_eq _ := rfl
  infixRule_eq _ := rfl
  seen_current _ := trivial
  current_eq := by
    rintro _ _ ⟨ts, -, rfl, rfl⟩
    obtain ⟨t, -, ht, ht'⟩ := P.exists_current ts
    exact ht'.trans ht.symm
  step := by
    rintro _ _ ⟨ts, hts, rfl, rfl⟩
    cases ts with
    | nil => exact .inr ⟨rfl, rfl⟩
    | cons t ts =>
      exact .inl ⟨ts, (List.suffix_cons t ts).trans hts, advance_before .., advance_before ..⟩
  parts_current := by
    rintro _ _ ⟨rfl, -⟩
    exact P.semicolon_kind
  parts_peek := by
    rintro _ _ ⟨rfl, -⟩
    exact P.last_kind
  parts_strict := by
    rintro _ _ ⟨-, rfl⟩
    refine h.imp_right fun ⟨_, hrest⟩ => ?_
    have hpeek : (P.beforeRest []).peek =
        (Window.before P.final P.final_kind (P.rest ++ [P.final])).current :=
      congrArg Window.current (advance_before ..)
    rw [hpeek]
    cases hr : P.rest with
    | nil =>
      rw [List.nil_append, current_before, P.final_kind]
      decide
    | cons t ts =>
      rw [List.cons_append, current_before]
      exact hrest t (by rw [hr]; rfl)
  parts_block := by
    rintro _ _ _ _ ⟨ts, hts, rfl, -⟩ hblock -
    refine h.resolve_right fun ⟨hbody, _⟩ => ?_
    obtain ⟨t, hmem, ht, -⟩ := P.exists_current ts
    rw [ht] at hblock
    rcases List.mem_append.1 hmem with hmem | hmem
    · have := hbody t (hts.subset hmem)
      exact hblock.elim this.2 this.1
    · rw [List.mem_singleton.1 hmem, P.semicolon_kind] at hblock
      simp at hblock

/-- **What comes after a piece is read as if it stood alone.** -/
theorem parse_whole (h : P.Separate) :
    (parse P.whole).1.body = (parse P.alone).1.body ++ (parse (P.rest ++ [P.final])).1.body ∧
      (parse P.whole).2.errors =
        (parse P.alone).2.errors ++ (parse (P.rest ++ [P.final])).2.errors := by
  have hstart : (pairing h).Abreast (.start (Stream.ofList P.alone))
      (.start (Stream.ofList P.whole)) :=
    ⟨⟨P.body, List.suffix_rfl, P.start_alone, P.start_whole⟩, rfl, rfl, rfl, rfl, [], by simp, rfl,
      rfl⟩
  have hself := Parser.statements_self (p := .start (Stream.ofList P.alone)) rfl rfl
  have hleads := Law.frame.kept_statements (Parser.start (Stream.ofList P.alone))
  rw [Stmt.mapAll_eq] at hself
  rcases Pairing.statements_alike hstart with ⟨hclean, hne⟩ | ⟨q', hfinished, hwhole⟩
  · exact absurd hclean hne
  rcases hfinished with ⟨hq, heof⟩ | ⟨p, p', hp, ⟨-, hw'⟩, hq, rfl⟩
  · -- up to its `;` the piece is not at its end
    obtain ⟨ts, hts, hw, -⟩ := hq.meets
    obtain ⟨t, hmem, ht, -⟩ := P.exists_current ts
    rw [Parser.current, hw, ht] at heof
    rcases List.mem_append.1 hmem with hmem | hmem
    · exact absurd heof (P.body_kind t (hts.subset hmem))
    · rw [List.mem_singleton.1 hmem, P.semicolon_kind] at heof
      cases heof
  · rw [hq] at hleads
    -- past the `;` the second run is where a run on the rest starts
    have hupcoming : ∀ n, p'.advance.window.upcoming n =
        (Parser.start (Stream.ofList (P.rest ++ [P.final]))).window.upcoming n := fun n => by
      rw [Parser.window_advance, hw', P.advance_beforeRest]
      rfl
    obtain ⟨hbody, herrors, -⟩ := Parser.statements_congr hupcoming rfl
      hp.grammar_eq (hp.exprDepth.trans hleads.exprDepth)
      (hp.blockDepth.trans hleads.blockDepth) rfl
    obtain ⟨faults, -, hfaults, hfaults'⟩ := hp.complains
    have hsame : p'.errors = (Parser.start (Stream.ofList P.alone)).statements.2.errors := by
      rw [hq, hfaults']
      exact hfaults.symm
    rw [parse, parse, parse, Parser.program, Parser.program, Parser.program, hwhole]
    refine ⟨?_, herrors.trans ?_⟩
    · rw [hbody]
      exact congrArg (· ++ _) hself
    · exact congrArg (· ++ _) hsame

end Piece

/-- **Programs one after the other.**  If a piece of text ends in a `;`, and either has no errors or
has no block in it and no `;` after it, then its statements and its errors come first, and those of
the rest follow as if it stood alone. -/
theorem parse_append {ts us : List Token} {last final : Token} (hlast : last.kind = .eof)
    (hfinal : final.kind = .eof) (hts : ∀ t ∈ ts, t.kind ≠ .eof)
    (hsemicolon : ts.getLast?.map (·.kind) = some (.mark .semicolon))
    (hseparate : (parse (ts ++ [last])).2.errors = [] ∨
      (∀ t ∈ ts, t.kind ≠ .keyword .fnWord ∧ t.kind ≠ .keyword .ifWord) ∧
        ∀ t ∈ us.head?, t.kind ≠ .mark .semicolon) :
    (parse (ts ++ us ++ [final])).1.body =
        (parse (ts ++ [last])).1.body ++ (parse (us ++ [final])).1.body ∧
      (parse (ts ++ us ++ [final])).2.errors =
        (parse (ts ++ [last])).2.errors ++ (parse (us ++ [final])).2.errors := by
  obtain ⟨s, hs, hkind⟩ := Option.map_eq_some_iff.1 hsemicolon
  obtain ⟨body, rfl⟩ := List.getLast?_eq_some_iff.1 hs
  rw [List.forall_mem_append] at hts
  let P : Piece := ⟨body, s, last, us, final, hts.1, hkind, hlast, hfinal⟩
  have halone : body ++ [s] ++ [last] = P.alone := by rw [List.append_assoc]; rfl
  have hwhole : body ++ [s] ++ us ++ [final] = P.whole := by
    rw [List.append_assoc, List.append_assoc]
    rfl
  rw [halone] at hseparate ⊢
  rw [hwhole]
  exact P.parse_whole (hseparate.imp_right fun ⟨hblock, hrest⟩ =>
    ⟨fun t ht => hblock t (List.mem_append_left _ ht), hrest⟩)

/-- The tokens of `);`, none of them placed in a text. -/
def strayClose : List Token := [⟨.mark .closeParen, ")", .null⟩, ⟨.mark .semicolon, ";", .null⟩]

/-- The hypotheses of `parse_append` are satisfiable by a piece with an error in it: `);` is read as
no statement and one error, the name `a` after it as one statement, and the whole as both. -/
theorem parse_append_strayClose :
    (∀ t ∈ strayClose, t.kind ≠ .keyword .fnWord ∧ t.kind ≠ .keyword .ifWord) ∧
      (parse (strayClose ++ [.eof .null])).2.errors =
        [⟨.noPrefixRule (.mark .closeParen), .null⟩] ∧
      (parse ([⟨.identifier, "a", .null⟩] ++ [.eof .null])).1.body =
        [.expression ⟨.identifier, "a", .null⟩ (.identifier ⟨⟨.identifier, "a", .null⟩, "a"⟩)] ∧
      (parse (strayClose ++ [⟨.identifier, "a", .null⟩] ++ [.eof .null])).1.body =
        (parse (strayClose ++ [.eof .null])).1.body ++
          (parse ([⟨.identifier, "a", .null⟩] ++ [.eof .null])).1.body ∧
      (parse (strayClose ++ [⟨.identifier, "a", .null⟩] ++ [.eof .null])).2.errors =
        (parse (strayClose ++ [.eof .null])).2.errors ++
          (parse ([⟨.identifier, "a", .null⟩] ++ [.eof .null])).2.errors := by
  have hblock : ∀ t ∈ strayClose, t.kind ≠ .keyword .fnWord ∧ t.kind ≠ .keyword .ifWord := by decide
  refine ⟨hblock, by decide +kernel, by decide +kernel, ?_⟩
  exact parse_append rfl rfl (by decide) rfl (.inr ⟨hblock, by simp⟩)

end MonkeySyntax

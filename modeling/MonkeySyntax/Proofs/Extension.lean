/-
# More rules for tokens that do not occur

The tables of a parser can be extended, and entries of theirs replaced.  Entries for tokens of kind
`k` are asked for only where such a token is current or next, so they change nothing about a text
without any: the program, the errors and the window at its end are the same (`parse_extension`).

The end of the input is the exception.  Every run comes to it, so a rule for it can matter.
-/

import MonkeySyntax.Proofs.Pairing.Programs
import MonkeySyntax.Tree.Equality

namespace MonkeySyntax

/-- What a grammar can become by entries for tokens of kind `k`. -/
inductive Grammar.Extends (k : Kind) (g : Grammar) : Grammar → Prop
  | refl : Extends k g g
  | withPrefix {g' : Grammar} (rule : PrefixRule) :
    Extends k g g' → Extends k g (g'.withPrefix k rule)
  | withInfix {g' : Grammar} (power : Power) (rule : InfixRule) :
    Extends k g g' → Extends k g (g'.withInfix k power rule)

namespace Grammar.Extends

variable {k j : Kind} {g g' : Grammar}

/-- Entries for tokens of kind `k` leave the prefix rules of other kinds as they were. -/
theorem prefixRule_eq (h : g.Extends k g') (hj : j ≠ k) : g'.prefixRule j = g.prefixRule j := by
  induction h with
  | refl => rfl
  | withPrefix rule _ ih => exact (if_neg hj).trans ih
  | withInfix power rule _ ih => exact ih

/-- So they do with the infix rules. -/
theorem infixRule_eq (h : g.Extends k g') (hj : j ≠ k) : g'.infixRule j = g.infixRule j := by
  induction h with
  | refl => rfl
  | withPrefix rule _ ih => exact ih
  | withInfix power rule _ ih => exact (if_neg hj).trans ih

end Grammar.Extends

/-- The parser with another grammar. -/
def Parser.reading {σ : Type} (p : Parser σ) (g : Grammar) : Parser σ := { p with grammar := g }

section

variable {σ : Type} [TokenSource σ] {k : Kind} {g : Grammar}

/-- Two runs from one place, of which the second has more rules for tokens of kind `k`.  They stay
together as long as no such token comes. -/
def Pairing.extending (hg : Grammar.standard.Extends k g) : Pairing σ σ where
  swap := id
  seen t := t.kind ≠ k
  earlier := []
  strict := False
  grammar := g
  meets w v := v = w ∧ ∀ n, ∀ t ∈ w.upcoming n, t.kind ≠ k
  parts _ _ := False
  kind_swap _ := rfl
  int64_swap _ _ := rfl
  prefixRule_eq := hg.prefixRule_eq
  infixRule_eq := hg.infixRule_eq
  seen_current h := h.2 0 _ (List.mem_cons_self ..)
  current_eq h := by rw [h.1, id]
  step {w v} h := by
    refine .inl ⟨by rw [h.1], fun n t ht => ?_⟩
    rw [Window.upcoming_advance] at ht
    exact h.2 (n + 1) t (List.mem_of_mem_tail ht)
  parts_current := False.elim
  parts_peek := False.elim
  parts_strict := False.elim
  parts_block _ _ := id

/-- **Rules for tokens that do not come change nothing,** whatever the source. -/
theorem Parser.program_reading (hg : Grammar.standard.Extends k g) {s : σ}
    (hs : ∀ n, ∀ t ∈ (TokenSource.take n s).1, t.kind ≠ k) :
    ((Parser.start s).reading g).program.1 = (Parser.start s).program.1 ∧
      ((Parser.start s).reading g).program.2.errors = (Parser.start s).program.2.errors ∧
      ((Parser.start s).reading g).program.2.window = (Parser.start s).program.2.window := by
  have hstart : (Pairing.extending hg).Abreast (Parser.start s) ((Parser.start s).reading g) :=
    ⟨⟨rfl, fun n => hs (n + 2)⟩, rfl, rfl, rfl, rfl, [], by simp, rfl, rfl⟩
  rcases Pairing.statements_alike hstart with
    ⟨hstrict, -⟩ | ⟨q', ⟨hq, he⟩ | ⟨_, _, _, hparts, _⟩, hrest⟩
  · exact hstrict.elim
  · have he' : q'.current.kind = .eof := by rw [hq.current_kind, he]
    rw [Parser.statements_of_eof he', List.append_nil] at hrest
    have hself := Parser.statements_self (p := Parser.start s) rfl rfl
    rw [Stmt.mapAll_eq] at hself
    obtain ⟨faults, -, hfaults, hfaults'⟩ := hq.complains
    rw [Parser.program, Parser.program, hrest]
    exact ⟨congrArg Program.mk hself, hfaults'.trans hfaults.symm, hq.meets.1⟩
  · exact hparts.elim

end

/-- **Entries for other tokens change nothing.**  If no token of a list is of kind `k`, and `k` is
not the end of the input, then a parser with further rules for tokens of kind `k`, or with other
ones, reads the same program from the list, with the same errors, and ends at the same window. -/
theorem parse_extension {k : Kind} {g : Grammar} {ts : List Token} (hk : k ≠ .eof)
    (hg : Grammar.standard.Extends k g) (hts : ∀ t ∈ ts, t.kind ≠ k) :
    ((Parser.start (Stream.ofList ts)).reading g).program.1 = (parse ts).1 ∧
      ((Parser.start (Stream.ofList ts)).reading g).program.2.errors = (parse ts).2.errors ∧
      ((Parser.start (Stream.ofList ts)).reading g).program.2.window = (parse ts).2.window := by
  refine Parser.program_reading hg fun n t ht => ?_
  rw [Stream.take_eq] at ht
  rcases List.mem_append.1 (List.mem_of_mem_take ht) with hmem | hmem
  · exact hts t hmem
  · rw [List.eq_of_mem_replicate hmem, (Stream.ofList ts).final_kind]
    exact hk.symm

/-- The tokens of `a + ) 1`, none of them placed in a text. -/
def brokenSum : List Token :=
  [⟨.identifier, "a", .null⟩, ⟨.mark .plus, "+", .null⟩, ⟨.mark .closeParen, ")", .null⟩,
    ⟨.integer, "1", .null⟩]

/-- The grammar in which `*` starts an expression, and as an operator binds as tightly as `==`. -/
def starredGrammar : Grammar :=
  (Grammar.standard.withPrefix (.mark .star) .operator).withInfix (.mark .star) .equals .binary

/-- The hypotheses of `parse_extension` are satisfiable by a text with an error in it, `a + ) 1`,
and a grammar with two entries for `*`: either way the error is about the `)`, and the `1` is read.
-/
theorem parse_extension_star :
    Grammar.standard.Extends (.mark .star) starredGrammar ∧
      (∀ t ∈ brokenSum, t.kind ≠ .mark .star) ∧
      (parse brokenSum).1.body =
        [.expression ⟨.integer, "1", .null⟩ (.integer ⟨.integer, "1", .null⟩ 1)] ∧
      (parse brokenSum).2.errors = [⟨.noPrefixRule (.mark .closeParen), .null⟩] ∧
      ((Parser.start (Stream.ofList brokenSum)).reading starredGrammar).program.1 =
        (parse brokenSum).1 ∧
      ((Parser.start (Stream.ofList brokenSum)).reading starredGrammar).program.2.errors =
        (parse brokenSum).2.errors ∧
      ((Parser.start (Stream.ofList brokenSum)).reading starredGrammar).program.2.window =
        (parse brokenSum).2.window := by
  have hg : Grammar.standard.Extends (.mark .star) starredGrammar :=
    .withInfix _ _ (.withPrefix _ .refl)
  have hts : ∀ t ∈ brokenSum, t.kind ≠ .mark .star := by decide
  refine ⟨hg, hts, by decide +kernel, by decide +kernel, ?_⟩
  exact parse_extension (by decide) hg hts

end MonkeySyntax

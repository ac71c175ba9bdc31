/-
# Every spelling is read

What is written by the grammar is read back, whatever brackets it has more than it needs, and the
limit on nesting is met exactly: a spelling in which expressions nest `d` deep is read if and only
if there is room for `d` of them.

The proof follows the spelling (`legible_of_spells`): each rule of `Spells` has a lemma that says
that its conclusion is legible if its parts are.  At the top of a program, where no block ends,
statements are read up to the end of the input (`statements_of_spells`).
-/

import MonkeySyntax.Proofs.Legible.Functions
import MonkeySyntax.Proofs.Legible.Lists
import MonkeySyntax.Proofs.Legible.Operators
import MonkeySyntax.Proofs.Legible.Statements

namespace MonkeySyntax

open MonkeySyntax.Action MonkeySyntax.Parsing MonkeySyntax.Spelling MonkeySyntax.Window
open MonkeySyntax.Parser (Leads)

/-- **Every spelling is legible.** -/
theorem legible_of_spells (σ : Type) [TokenSource σ] {f : Form} {ts : List Token} {d : Nat}
    (h : Spells ⟨False, False⟩ f ts d) : f.Legible σ ts d := by
  induction h with
  | identifier ht =>
    exact legible_primary (by rw [ht]; rfl) fun p hp => by simp [primary, primaryAction, hp, ht]
  | integer ht hv =>
    exact legible_primary (by rw [ht]; rfl) fun p hp => by
      simp [primary, primaryAction, hp, ht, hv]
  | string ht =>
    exact legible_primary (by rw [ht]; rfl) fun p hp => by simp [primary, primaryAction, hp, ht]
  | @boolean _ _ b ht =>
    refine legible_primary (by rw [ht]; cases b <;> rfl) fun p hp => ?_
    cases b <;> simp [primary, primaryAction, hp, ht]
  | prefixOp ht hn h ih => exact legible_prefixOp ht hn ⟨h, ih⟩
  | infixOp ht hn _ hr ihl ihr => exact legible_infixOp ht hn ihl ⟨hr, ihr⟩
  | call ho hc _ _ ihf ihs => exact legible_call ho hc ihf ihs
  | index ho hc _ hi ihl ihi => exact legible_index ho hc ihl ⟨hi, ihi⟩
  | array ho hc _ ih => exact legible_array ho hc ih
  | hash ho hc _ ih => exact legible_hash ho hc ih
  | conditional ht he hb ihe ihb => exact legible_conditional ht ⟨he, ihe⟩ ⟨hb, ihb⟩
  | alternative ht ho he hb ha ihe ihb iha =>
    exact legible_alternative ht ho ⟨he, ihe⟩ ⟨hb, ihb⟩ ⟨ha, iha⟩
  | function ht ho hc hns hb ih => exact legible_function ht ho hc hns ⟨hb, ih⟩
  | grouped ho hc h ih => exact legible_grouped ho hc ⟨h, ih⟩
  | noExprs => exact legible_noExprs
  | exprs he hes ihe ihs => exact legible_exprs ⟨he, ihe⟩ ⟨hes, ihs⟩
  | noMore => exact legible_noMore
  | more hc he hes ihe ihs => exact legible_more hc ⟨he, ihe⟩ ⟨hes, ihs⟩
  | noPairs => exact legible_noPairs
  | lastPair hc hk hv ihk ihv => exact legible_lastPair hc ⟨hk, ihk⟩ ⟨hv, ihv⟩
  | pairs hc hm hk hv _ ihk ihv ihs => exact legible_pairs hc hm ⟨hk, ihk⟩ ⟨hv, ihv⟩ ihs
  | block _ hc _ ih => exact legible_block hc ih
  | letBinding ht hi ha h ih => exact legible_letBinding ht hi ha ⟨h, ih⟩
  | bareReturn ht => exact legible_bareReturn ht
  | returnValue ht h ih => exact legible_returnValue ht ⟨h, ih⟩
  | expression h ih => exact legible_expression ⟨h, ih⟩
  | noStmts => exact legible_noStmts
  | stmts hs hending _ ihs ihss =>
    rcases hending with hm | hbare
    · exact legible_stmts hm ⟨hs, ihs⟩ ihss
    · exact hbare.elim
  | junk hjunk => exact hjunk.elim

section

variable {σ : Type} [TokenSource σ]

/-- **A statement is read with the room that is left** where it begins. -/
theorem run_anyStatement_expression (p : Parser σ) :
    (anyStatement expression).run p =
      (anyStatement (exprAt (nestingLimit - p.exprDepth))).run p := by
  have hname : ∀ {α : Type} (f : Identifier → Action σ α) (q : Parser σ),
      (currentName >>= f).run q = (f (nameOf q.current)).run q := fun _ _ => rfl
  have hdepth : ∀ q : Parser σ, q.advance.exprDepth = q.exprDepth := fun _ => rfl
  have hvalue : ∀ {α : Type} (f : Expr → Action σ α) (q : Parser σ), q.exprDepth = p.exprDepth →
      (thenSemicolon (expression .lowest).toAction >>= f).run q =
        (thenSemicolon (exprAt (nestingLimit - p.exprDepth) .lowest).toAction >>= f).run q := by
    intro α f q hq
    rw [← hq]
    rfl
  simp only [anyStatement, run_current_bind]
  split
  · simp only [letStatement, run_current_bind, run_expect_bind, hname, run_advance_bind, hdepth,
      hvalue]
  · simp only [returnStatement, run_current_bind, run_peekIs_bind]
    split
    · rfl
    · simp only [run_peekIs_bind]
      split
      · rfl
      · simp only [run_peekIs_bind]
        split
        · rfl
        · simp only [run_advance_bind, hdepth, hvalue]
  · simp only [expressionStatement, run_current_bind, hvalue]

/-- At the top a statement has all the room there is. -/
theorem delivers_statement {s : Stmt} {p : Parser σ} {fits : Prop} {stop : Window σ → Prop}
    (hp : p.exprDepth = 0)
    (h : (anyStatement (exprAt nestingLimit)).Delivers fits (p.note (.began p.current)) s stop) :
    (statement expression).Delivers fits p s stop := by
  have hrun := run_anyStatement_expression (p.note (.began p.current))
  rw [show (p.note (.began p.current)).exprDepth = 0 from hp, Nat.sub_zero] at hrun
  exact Delivers.noted ⟨fun hf => hrun ▸ h.reads hf, fun hf => hrun ▸ h.chokes hf⟩

/-- **One statement at the top, then the others.**  If it is too deep, that is the first thing that
is wrong, whatever follows. -/
theorem statements_of_delivers {fits : Prop} {s : Stmt} {p : Parser σ} {stop : Window σ → Prop}
    (h : (statement expression).Delivers fits p s stop) (heof : p.current.kind ≠ .eof) :
    (fits → ∃ q, p.statements = (s :: q.advance.statements.1, q.advance.statements.2) ∧ p.Quiet q ∧
      q.exprDepth = p.exprDepth ∧ stop q.window) ∧ (¬ fits → p.Chokes p.statements.2) := by
  constructor
  · intro hf
    obtain ⟨q, hrun, hq, hstop⟩ := h.reads hf
    have hleads : p.Leads q :=
      (Law.settles_statement (Law.follows_expression Law.frame) p).of_some hrun
    exact ⟨q, Parser.statements_of_run heof hrun, hq, hleads.exprDepth, hstop⟩
  · intro hf
    have hchokes := h.chokes hf
    rcases hrun : (statement expression).run p with ⟨x, q⟩
    rw [hrun] at hchokes
    rw [Parser.statements_of_run heof hrun]
    exact hchokes.leads ((Leads.advance q).trans (Law.frame.kept_statements q.advance))

/-- **Statements are read up to what follows them,** if there is room for the expressions in them.
If not, that is the first thing that is wrong. -/
theorem statements_after_spells {d : Nat} {ss : List Stmt} {ts : List Token}
    (h : Spells ⟨False, False⟩ (.body ss) ts d) :
    ∀ (p : Parser σ) u, p.grammar = .standard → p.exprDepth = 0 → p.window.Reads ts u →
      (d ≤ nestingLimit → ∃ q, p.statements = (ss ++ q.statements.1, q.statements.2) ∧ p.Quiet q ∧
        q.exprDepth = 0 ∧ q.window = u) ∧ (nestingLimit < d → p.Chokes p.statements.2) := by
  generalize hf : Form.body ss = f at h
  induction h generalizing ss with
  | noStmts =>
    cases hf
    intro p u _ hp hr
    obtain rfl := reads_nil_iff.1 hr
    exact ⟨fun _ => ⟨p, rfl, .refl p, hp, rfl⟩, fun hd => absurd hd (Nat.not_lt_zero _)⟩
  | @stmts d d' s ss ts us vs hs hending _ _ ih =>
    cases hf
    rcases hending with hm | hbare
    · intro p u hg hp hr
      obtain ⟨w, hts, hrest⟩ := reads_append_iff.1 hr
      obtain ⟨rfl, hvs⟩ := reads_cons_iff.1 hrest
      have heof : p.current.kind ≠ .eof := by
        obtain ⟨t, ts, rfl, -, ht⟩ := hs.exists_head_stmt
        rwa [show p.current = t from (reads_cons_iff.1 hts).1]
      have hfirst := statements_of_delivers (delivers_statement hp
        (legible_of_spells σ hs nestingLimit (p.note (.began p.current)) w hg hts hm)) heof
      by_cases hd : d ≤ nestingLimit
      · obtain ⟨q, hstatements, hq, hdepth, hw⟩ := hfirst.1 hd
        have hrest := ih rfl q.advance u (hq.grammar.trans hg) (hdepth.trans hp)
          (by rwa [← hw] at hvs)
        rw [hstatements]
        constructor
        · intro hmax
          obtain ⟨r, hr, hqr, hdepth, hu⟩ := hrest.1 (Nat.le_trans (Nat.le_max_right d d') hmax)
          exact ⟨r, by rw [hr, List.cons_append], hq.trans ⟨hqr.grammar, hqr.errors⟩, hdepth, hu⟩
        · intro hmax
          exact hq.chokes (hrest.2 (by omega))
      · exact ⟨fun hmax => absurd (Nat.le_trans (Nat.le_max_left d d') hmax) hd,
          fun _ => hfirst.2 hd⟩
    · exact hbare.elim
  | junk h => exact h.elim
  | _ => cases hf

/-- **Statements are read up to the end of the input.** -/
theorem statements_of_spells {d : Nat} {ss : List Stmt} {ts : List Token}
    (h : Spells ⟨False, False⟩ (.body ss) ts d) :
    ∀ (p : Parser σ) u, p.grammar = .standard → p.exprDepth = 0 → p.window.Reads ts u →
      u.current.kind = .eof →
        (d ≤ nestingLimit → p.statements.1 = ss ∧ p.statements.2.errors = p.errors) ∧
          (nestingLimit < d → p.Chokes p.statements.2) := by
  intro p u hg hp hr hu
  obtain ⟨hfits, hchokes⟩ := statements_after_spells h p u hg hp hr
  refine ⟨fun hd => ?_, hchokes⟩
  obtain ⟨q, hstatements, hq, -, rfl⟩ := hfits hd
  have heof : q.current.kind = .eof := hu
  rw [hstatements, Parser.statements_of_eof heof, List.append_nil]
  exact ⟨rfl, hq.errors⟩

end

/-- **Every spelling of a program is read,** if expressions nest in it no deeper than the limit:
the program is what it spells, and nothing is wrong.  If they nest deeper, the first thing that is
wrong is just that. -/
theorem parse_of_spells {p : Program} {ts : List Token} {d : Nat} {final : Token}
    (hfinal : final.kind = .eof) (h : Spells ⟨False, False⟩ (.body p.body) ts d) :
    (d ≤ nestingLimit →
      (parse (ts ++ [final])).1 = p ∧ (parse (ts ++ [final])).2.errors = []) ∧
    (nestingLimit < d → ∃ position more,
      (parse (ts ++ [final])).2.errors = ⟨.nestingTooDeep nestingLimit, position⟩ :: more) := by
  obtain ⟨u, hr, hu⟩ := reads_start ts hfinal
  obtain ⟨hfits, hchokes⟩ :=
    statements_of_spells h (Parser.start (Stream.ofList (ts ++ [final]))) u rfl rfl hr hu
  constructor
  · intro hd
    obtain ⟨hbody, herrors⟩ := hfits hd
    exact ⟨congrArg Program.mk hbody, herrors⟩
  · exact hchokes

/-- The tokens of `(-a) + b;`, none of them placed in a text. -/
def groupedSum : List Token :=
  [⟨.mark .openParen, "(", .null⟩, ⟨.mark .dash, "-", .null⟩, ⟨.identifier, "a", .null⟩,
    ⟨.mark .closeParen, ")", .null⟩, ⟨.mark .plus, "+", .null⟩, ⟨.identifier, "b", .null⟩,
    ⟨.mark .semicolon, ";", .null⟩]

/-- The program that they spell. -/
def groupedSumProgram : Program :=
  ⟨[.expression ⟨.mark .openParen, "(", .null⟩
    (.infixOp ⟨.mark .plus, "+", .null⟩
      (.prefixOp ⟨.mark .dash, "-", .null⟩ "-" (.identifier ⟨⟨.identifier, "a", .null⟩, "a"⟩))
      "+" (.identifier ⟨⟨.identifier, "b", .null⟩, "b"⟩))]⟩

/-- The hypotheses of `parse_of_spells` are satisfiable by a spelling with brackets in it: it is
three expressions deep, and is read as the program it spells, without an error. -/
theorem parse_groupedSum :
    Spells ⟨False, False⟩ (.body groupedSumProgram.body) groupedSum 3 ∧
      (parse (groupedSum ++ [.eof .null])).1 = groupedSumProgram ∧
      (parse (groupedSum ++ [.eof .null])).2.errors = [] := by
  have hnegation : Spells ⟨False, False⟩ (.expr 0 (.prefixOp ⟨.mark .dash, "-", .null⟩ "-"
      (.identifier ⟨⟨.identifier, "a", .null⟩, "a"⟩)))
      [⟨.mark .dash, "-", .null⟩, ⟨.identifier, "a", .null⟩] 2 :=
    .prefixOp (.inr rfl) (by decide) (.identifier rfl)
  have hsum := Spells.infixOp (L := ⟨False, False⟩) (n := 0) (q := .sum)
    (t := ⟨.mark .plus, "+", .null⟩) rfl (by decide)
    (.grouped (o := ⟨.mark .openParen, "(", .null⟩) (c := ⟨.mark .closeParen, ")", .null⟩)
      rfl rfl hnegation)
    (.identifier (t := ⟨.identifier, "b", .null⟩) rfl)
  have hspells : Spells ⟨False, False⟩ (.body groupedSumProgram.body) groupedSum 3 :=
    .stmts (.expression hsum) (.semicolon (t := ⟨.mark .semicolon, ";", .null⟩) rfl) .noStmts
  exact ⟨hspells, (parse_of_spells rfl hspells).1 (by decide)⟩

end MonkeySyntax

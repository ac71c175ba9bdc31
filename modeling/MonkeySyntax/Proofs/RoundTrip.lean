/-
# Printing a program and reading it again

If a program is plain and all its statements but perhaps the last are `let`s and `return`s, then its
text is a spelling of it (`Spelling.Script`).  So it is read as the same program, but for tokens, if
there is room for the expressions in it: every operator is printed with brackets, which may nest
deeper than those that were there.  If there is no room, that is the first thing that is wrong.
-/

import MonkeySyntax.Proofs.Reprints
import MonkeySyntax.Proofs.Soundness

namespace MonkeySyntax

open MonkeySyntax.Action MonkeySyntax.Cursor MonkeySyntax.Parsing MonkeySyntax.Window

/-- A way to write statements with a `;` after each, or after each but the last, which is an
expression then. -/
inductive Spelling.Script : List Stmt → List Token → Nat → Prop
  | closed {d : Nat} {ss : List Stmt} {ts : List Token} :
    Spells ⟨False, False⟩ (.body ss) ts d → Script ss ts d
  | opened {d d' : Nat} {ss : List Stmt} {ts us : List Token} {t : Token} {e : Expr} :
    Spells ⟨False, False⟩ (.body ss) ts d → Spells ⟨False, False⟩ (.expr 0 e) (t :: us) d' →
      Script (ss ++ [.expression t e]) (ts ++ t :: us) (max d d')

open MonkeySyntax.Spelling

namespace Spelling.Script

/-- One more statement before the others. -/
theorem cons {d d' : Nat} {s : Stmt} {ss : List Stmt} {ts us : List Token} {m : Token}
    (hs : Spells ⟨False, False⟩ (.stmt s) ts d) (hm : m.kind = .mark .semicolon)
    (h : Script ss us d') : Script (s :: ss) (ts ++ m :: us) (max d d') := by
  cases h with
  | closed h => exact .closed (.stmts hs (.semicolon hm) h)
  | @opened e e' ss ts us t x h hx =>
    have hopened := Script.opened (.stmts hs (.semicolon hm) h) hx
    rwa [Nat.max_assoc, List.append_assoc, List.singleton_append, List.cons_append,
      List.cons_append] at hopened

/-- **A script is read up to the end of the input,** if there is room for the expressions in it.  If
not, that is the first thing that is wrong. -/
theorem delivers {σ : Type} [TokenSource σ] {d : Nat} {ss : List Stmt} {ts : List Token}
    {p : Parser σ} {u : Window σ} (h : Script ss ts d) (hg : p.grammar = .standard)
    (hp : p.exprDepth = 0) (hr : p.window.Reads ts u) (hu : u.current.kind = .eof) :
    (d ≤ nestingLimit → p.statements.1 = ss ∧ p.statements.2.errors = p.errors) ∧
      (nestingLimit < d → p.Chokes p.statements.2) := by
  cases h with
  | closed h => exact statements_of_spells h p u hg hp hr hu
  | @opened d d' ss ts us t e h he =>
    obtain ⟨w, hts, hus⟩ := reads_append_iff.1 hr
    obtain ⟨hfits, hchokes⟩ := statements_after_spells h p w hg hp hts
    by_cases hd : d ≤ nestingLimit
    · obtain ⟨q, hstatements, hq, hdepth, rfl⟩ := hfits hd
      have hgq := hq.grammar.trans hg
      have hcurrent : q.current = t := (reads_cons_iff.1 hus).1
      have heof : q.current.kind ≠ .eof := by
        obtain ⟨t', us', rule, hhead, hrule⟩ := he.exists_head
        rw [hcurrent, (List.cons.inj hhead).1]
        intro hk
        rw [hk] at hrule
        cases hrule
      -- nothing but the end of the input follows, so the expression is read without a `;`
      have hvalue : (exprAt nestingLimit .lowest).Delivers (d' ≤ nestingLimit)
          (q.note (.began q.current)) e u.Behind :=
        Form.Spelt.lowest ⟨he, legible_of_spells σ he⟩ hgq hus (hu ▸ ⟨Nat.le_refl 0, by decide⟩)
      have hlast := statements_of_delivers (delivers_statement hdepth
        (expression_delivers he hcurrent (hvalue.thenOther (by rw [hu]; decide)))) heof
      rw [hstatements]
      constructor
      · intro hmax
        obtain ⟨r, hr, hqr, -, hbehind⟩ := hlast.1 (Nat.le_trans (Nat.le_max_right d d') hmax)
        have hend : r.advance.current.kind = .eof := by
          rw [show r.advance.current = u.current from congrArg Window.current hbehind, hu]
        rw [hr, Parser.statements_of_eof hend]
        exact ⟨rfl, hqr.errors.trans hq.errors⟩
      · intro hmax
        exact hq.chokes (hlast.2 (by omega))
    · exact ⟨fun hmax => absurd (Nat.le_trans (Nat.le_max_left d d') hmax) hd,
        fun _ => hchokes (Nat.lt_of_not_le hd)⟩

end Spelling.Script

/-! ### The text of a program -/

/-- Lists of statements that are the same but for their tokens. -/
abbrev Stmt.AllLike : List Stmt → List Stmt → Prop := Alike (List.map Stmt.untoken) Stmt.printAll

section

variable {s : Stmt} {ss : List Stmt}

/-- A closed statement is printed with its `;`. -/
theorem Stmt.Reprints.of_closed (h : s.Reprints) (hclosed : s.isClosed) (hplain : s.isPlain) :
    Lexes Opening Unmerged s.print.toList
      (RespellsBefore Form.stmt (Stmt.Like · s) .semicolon) := by
  cases s with
  | letBinding => exact h hplain
  | returnValue => exact h hplain
  | expression => cases hclosed
  | block => cases hclosed

/-- A statement that is not closed is an expression. -/
theorem Stmt.Reprints.of_open (h : s.Reprints) (hclosed : ¬ s.isClosed) :
    ∃ t e, s = .expression t e ∧ e.Reprints := by
  cases s with
  | letBinding => exact absurd rfl hclosed
  | returnValue => exact absurd rfl hclosed
  | expression t e => exact ⟨t, e, rfl, h⟩
  | block => exact h.elim

/-- The text of a statement makes no longer mark of a `;` before it. -/
theorem unmerged_printAll (hreprints : ∀ s ∈ ss, s.Reprints) (hplain : Stmt.allPlain ss) :
    ∀ ch ∈ (Stmt.printAll ss).toList.head?, Unmerged ch := by
  cases ss with
  | nil => simp [Stmt.printAll]
  | cons s ss =>
    have hs := hreprints s (List.mem_cons_self ..)
    have hfirst : s.isPlain := (Bool.and_eq_true_iff.1 hplain).1
    have hstarts : ∃ ch tail, s.print.toList = ch :: tail ∧ Opening ch := by
      by_cases hclosed : s.isClosed
      · exact (hs.of_closed hclosed hfirst).starts
      · obtain ⟨t, e, rfl, he⟩ := hs.of_open hclosed
        exact (he hfirst).starts
    obtain ⟨ch, tail, htext, hch⟩ := hstarts
    rw [Stmt.printAll, String.toList_append, htext]
    rintro _ ⟨⟩
    exact hch.2

/-- **The text of a plain program is a script,** if all its statements but perhaps the last are
closed. -/
theorem lexes_printAll (hreprints : ∀ s ∈ ss, s.Reprints) (hplain : Stmt.allPlain ss)
    (hclosed : ∀ s ∈ ss.dropLast, s.isClosed) (c : Cursor)
    (hc : c.rest = (Stmt.printAll ss).toList) :
    ∃ ts d, c.Hands ts d ∧ d.rest = [] ∧ ∃ ss' n, Stmt.AllLike ss' ss ∧ Script ss' ts n := by
  induction ss generalizing c with
  | nil => exact ⟨[], c, hands_nil_iff.2 rfl, hc, [], 0, ⟨rfl, rfl⟩, .closed .noStmts⟩
  | cons s ss ih =>
    obtain ⟨hs, hss⟩ := List.forall_mem_cons.1 hreprints
    obtain ⟨hfirst, hothers⟩ := Bool.and_eq_true_iff.1 hplain
    rw [Stmt.printAll, String.toList_append] at hc
    by_cases hcs : s.isClosed
    · obtain ⟨_, c', hts, hrest, s', d, us, m, hs', hus, hm, rfl⟩ :=
        (hs.of_closed hcs hfirst).reads c _ hc (unmerged_printAll hss hothers)
      have hinit : ∀ s ∈ ss.dropLast, s.isClosed := fun s' hs' => hclosed s' <| by
        cases ss with
        | nil => cases hs'
        | cons => exact List.mem_cons_of_mem _ hs'
      obtain ⟨vs, c'', hvs, hend, ss', d', hss', hscript⟩ := ih hss hothers hinit c' hrest
      refine ⟨_, c'', hts.append hvs, hend, s' :: ss', max d d', ?_, ?_⟩
      · exact ⟨congrArg₂ List.cons hs'.untoken_eq hss'.untoken_eq,
          by rw [Stmt.printAll, Stmt.printAll, hs'.print_eq, hss'.print_eq]⟩
      · rw [List.append_assoc]
        exact hscript.cons hus hm
    · -- only the last statement may be no closed one
      obtain rfl : ss = [] := by
        cases ss with
        | nil => rfl
        | cons => exact absurd (hclosed s (List.mem_cons_self ..)) hcs
      obtain ⟨t, e, rfl, he⟩ := hs.of_open hcs
      obtain ⟨ts, c', hts, hrest, e', d, he', hspells⟩ := (he hfirst).reads c [] hc (by simp)
      obtain ⟨t', us, -, rfl, -⟩ := (hspells 0).exists_head
      refine ⟨_, c', hts, hrest, [.expression t' e'], max 0 d, ?_, .opened .noStmts (hspells 0)⟩
      exact ⟨congrArg (fun x => [Stmt.expression _ x]) he'.untoken_eq,
        congrArg (· ++ "") he'.print_eq⟩

end

/-! ### Windows of a text -/

/-- The windows of a text pass over the tokens that a cursor hands out. -/
theorem Cursor.Hands.reads {c d : Cursor} {ts : List Token} (h : c.Hands ts d) :
    (start c).Reads ts (start d) := by
  induction ts generalizing c with
  | nil =>
    obtain rfl := hands_nil_iff.1 h
    exact .nil _
  | cons t ts ih =>
    obtain ⟨rfl, hts⟩ := hands_cons_iff.1 h
    exact .cons (ih hts)

/-- At the end of a text there is nothing but the end of the input. -/
theorem Cursor.start_of_nil {c : Cursor} (h : c.rest = []) : (start c).current.kind = .eof := by
  rw [show (start c).current = c.next.1 from rfl, next_of_nil h]
  rfl

/-- What is read of a text is written as its kind is. -/
theorem Window.Reads.written {w v : Window Cursor} {ts : List Token} (h : w.Reads ts v)
    (hcurrent : w.current.Written) (hpeek : w.peek.Written) : ∀ t ∈ ts, t.Written := by
  induction h with
  | nil => exact List.forall_mem_nil _
  | cons _ ih => exact List.forall_mem_cons.2 ⟨hcurrent, ih hpeek (written_next _)⟩

/-- **Printing is undone by reading.**  If a text is read without an error, and the program in it is
plain and has only closed statements but perhaps for the last, then what is printed of it is read
without an error as the same program but for tokens, which is printed alike.  Or it is too deep, and
that is the first thing that is wrong with it. -/
theorem parseText_print {text : String} {file : Option String} {p : Program} {q : Parser Cursor}
    (hparse : parseText text file = (p, q)) (hclean : q.errors = []) (hplain : p.isPlain)
    (hclosed : ∀ s ∈ p.body.dropLast, s.isClosed) (file' : Option String) :
    (∃ position more, (parseText p.print file').2.errors =
      ⟨.nestingTooDeep nestingLimit, position⟩ :: more) ∨
    (parseText p.print file').2.errors = [] ∧
      (parseText p.print file').1.untoken = p.untoken ∧
      (parseText p.print file').1.print = p.print := by
  obtain rfl : (parseText text file).1 = p := congrArg Prod.fst hparse
  obtain rfl : (parseText text file).2 = q := congrArg Prod.snd hparse
  -- what was read is a spelling of the program, and the tokens of a text are written as they are
  obtain ⟨-, hstand⟩ := statements_stand (.start (Cursor.ofText text file)) rfl
  obtain ⟨ts, d, hreads, -, hspells⟩ := hstand.mono (k := False) fun hj => hj hclean
  have hreprints : ∀ s ∈ (parseText text file).1.body, s.Reprints :=
    reprints_of_spells hspells (hreads.written (written_next _) (written_next _))
  -- so the text of the program is a script of it
  obtain ⟨us, c, hus, hend, ss, n, hlike, hscript⟩ := lexes_printAll hreprints hplain hclosed
    (.ofText (parseText text file).1.print file') rfl
  have hreads' : (Parser.start (Cursor.ofText (parseText text file).1.print file')).window.Reads us
      (start c) := hus.reads
  have hdelivers := hscript.delivers rfl rfl hreads' (start_of_nil hend)
  by_cases hn : n ≤ nestingLimit
  · obtain ⟨hbody, herrors⟩ := hdelivers.1 hn
    have hprogram : (parseText (parseText text file).1.print file').1 = ⟨ss⟩ :=
      congrArg Program.mk hbody
    refine .inr ⟨herrors, ?_, ?_⟩
    · rw [hprogram, Program.untoken, Program.untoken, Program.map, Program.map, Stmt.mapAll_eq,
        Stmt.mapAll_eq]
      exact congrArg Program.mk hlike.untoken_eq
    · rw [hprogram]
      exact hlike.print_eq
  · exact .inl (hdelivers.2 (Nat.lt_of_not_le hn))

/-- The program in the text `-a`. -/
def negatedName : Program :=
  ⟨[.expression ⟨.mark .dash, "-", ⟨⟨0, "shell"⟩, ⟨1, "shell"⟩⟩⟩
    (.prefixOp ⟨.mark .dash, "-", ⟨⟨0, "shell"⟩, ⟨1, "shell"⟩⟩⟩ "-"
      (.identifier ⟨⟨.identifier, "a", ⟨⟨1, "shell"⟩, ⟨2, "shell"⟩⟩⟩, "a"⟩))]⟩

/-- The hypotheses of `parseText_print` are satisfiable: `-a` is read without an error as a plain
program, and what is printed for it, `(-a)`, is read without one as the same tree. -/
theorem parseText_print_negatedName : negatedName.print = "(-a)" ∧
    ∃ q, parseText "-a" none = (negatedName, q) ∧ q.errors = [] ∧ negatedName.isPlain ∧
      (∀ s ∈ negatedName.body.dropLast, s.isClosed) ∧
      (parseText negatedName.print none).2.errors = [] ∧
      (parseText negatedName.print none).1.untoken = negatedName.untoken ∧
      (parseText negatedName.print none).1.print = negatedName.print := by
  -- the two tokens of the text
  have hdash : (Cursor.ofText "-a" none).next =
      (⟨.mark .dash, "-", ⟨⟨0, "shell"⟩, ⟨1, "shell"⟩⟩⟩, ⟨['a'], 1, "shell"⟩) := by
    have hfirst : Pattern.first? "-a".toList = some (.mark .dash, ['-'], ['a']) := by decide
    exact next_of_first? (c := .ofText "-a" none) hfirst
  have hname : (⟨['a'], 1, "shell"⟩ : Cursor).next =
      (⟨.identifier, "a", ⟨⟨1, "shell"⟩, ⟨2, "shell"⟩⟩⟩, ⟨[], 2, "shell"⟩) := by
    have hfirst : Pattern.first? ['a'] = some (.word, ['a'], []) := by decide
    exact next_of_first? (c := ⟨['a'], 1, "shell"⟩) hfirst
  have hhands : (Cursor.ofText "-a" none).Hands
      [⟨.mark .dash, "-", ⟨⟨0, "shell"⟩, ⟨1, "shell"⟩⟩⟩,
        ⟨.identifier, "a", ⟨⟨1, "shell"⟩, ⟨2, "shell"⟩⟩⟩] ⟨[], 2, "shell"⟩ := by
    rw [hands_cons_iff, hdash, hands_cons_iff, hname, hands_nil_iff]
    exact ⟨rfl, rfl, rfl⟩
  -- are a spelling of the program
  have hnone : Spells ⟨False, False⟩ (.body []) [] 0 := .noStmts
  have hscript : Script negatedName.body _ _ :=
    .opened hnone (.prefixOp (.inr rfl) (by decide) (.identifier rfl))
  have hreads : (Parser.start (Cursor.ofText "-a" none)).window.Reads _ _ := hhands.reads
  obtain ⟨hbody, herrors⟩ := (hscript.delivers rfl rfl hreads (start_of_nil rfl)).1 (by decide)
  have hparse : parseText "-a" none = (negatedName, (parseText "-a" none).2) :=
    Prod.ext (congrArg Program.mk hbody) rfl
  have hclosed : ∀ s ∈ negatedName.body.dropLast, s.isClosed := by simp [negatedName]
  have hprinted : (parseText negatedName.print none).2.errors = [] := by decide +kernel
  obtain ⟨position, more, hdeep⟩ | hback := parseText_print hparse herrors rfl hclosed none
  · rw [hprinted] at hdeep
    cases hdeep
  · exact ⟨rfl, _, hparse, herrors, rfl, hclosed, hback⟩

end MonkeySyntax

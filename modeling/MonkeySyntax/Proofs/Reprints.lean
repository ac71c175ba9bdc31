/-
# What is printed is read back

A plain expression is printed with brackets around each of its operators, so the text of it may
stand anywhere an expression may, and is a spelling of an expression that is the same but for its
tokens.

| piece | printed as | what may come after it |
| --- | --- | --- |
| expression | itself | what ends a word and makes no longer mark |
| list | itself and the bracket after it | what makes no longer mark |
| `let`, `return` | itself and the `;` after it | what makes no longer mark |

The proof follows the spelling that the expression was read from.  That is where the texts of its
tokens come from: every one of them was written as its kind is (`Token.Written`).
-/

import Mathlib.Logic.Basic
import MonkeySyntax.Proofs.Lexemes
import MonkeySyntax.Proofs.Spelling
import MonkeySyntax.Proofs.Standard
import MonkeySyntax.Tree.Map
import MonkeySyntax.Tree.Plain
import MonkeySyntax.Tree.Print

namespace MonkeySyntax

open MonkeySyntax.Cursor MonkeySyntax.Parsing MonkeySyntax.Spelling

/-! ### Trees that are alike -/

/-- An expression with all tokens the same. -/
def Expr.untoken : Expr → Expr := .map (fun _ => .eof .null) fun _ s => s

/-- A statement with all tokens the same. -/
def Stmt.untoken : Stmt → Stmt := .map (fun _ => .eof .null) fun _ s => s

/-- The same but for tokens, and printed alike. -/
structure Alike {α β γ : Type} (untoken : α → β) (print : α → γ) (x y : α) : Prop where
  untoken_eq : untoken x = untoken y
  print_eq : print x = print y

/-- Expressions that are the same but for their tokens. -/
abbrev Expr.Like : Expr → Expr → Prop := Alike Expr.untoken Expr.print

/-- Lists of such expressions. -/
abbrev Expr.AllLike : List Expr → List Expr → Prop :=
  Alike (List.map Expr.untoken) Expr.printAll

/-- Lists of pairs of such expressions. -/
abbrev Expr.PairsLike : List (Expr × Expr) → List (Expr × Expr) → Prop :=
  Alike (List.map (Prod.map Expr.untoken Expr.untoken)) Expr.printPairs

/-- Statements that are the same but for their tokens. -/
abbrev Stmt.Like : Stmt → Stmt → Prop := Alike Stmt.untoken Stmt.print

section

variable {l l' r r' : Expr} {es es' : List Expr} {ps ps' : List (Expr × Expr)} {t t' : Token}

/-- Operators on expressions that are alike are alike. -/
theorem Expr.Like.prefixOp (op : String) (hr : r'.Like r) :
    (Expr.prefixOp t' op r').Like (.prefixOp t op r) :=
  ⟨congrArg (Expr.prefixOp _ op) hr.untoken_eq, by simp only [Expr.print, hr.print_eq]⟩

/-- Operators between expressions that are alike are alike. -/
theorem Expr.Like.infixOp (op : String) (hl : l'.Like l) (hr : r'.Like r) :
    (Expr.infixOp t' l' op r').Like (.infixOp t l op r) :=
  ⟨congrArg₂ (Expr.infixOp _ · op ·) hl.untoken_eq hr.untoken_eq,
    by simp only [Expr.print, hl.print_eq, hr.print_eq]⟩

/-- What is indexed alike is alike. -/
theorem Expr.Like.index (hl : l'.Like l) (hr : r'.Like r) :
    (Expr.index t' l' r').Like (.index t l r) :=
  ⟨congrArg₂ (Expr.index _) hl.untoken_eq hr.untoken_eq,
    by simp only [Expr.print, hl.print_eq, hr.print_eq]⟩

/-- Calls with the same arguments but for tokens are alike. -/
theorem Expr.Like.call (hl : l'.Like l) (hes : AllLike es' es) :
    (Expr.call t' l' es').Like (.call t l es) := by
  refine ⟨?_, by simp only [Expr.print, hl.print_eq, hes.print_eq]⟩
  simp only [Expr.untoken, Expr.map, Expr.mapAll_eq]
  exact congrArg₂ (Expr.call _) hl.untoken_eq hes.untoken_eq

/-- Arrays of elements that are alike are alike. -/
theorem Expr.Like.array (hes : AllLike es' es) : (Expr.array t' es').Like (.array t es) := by
  refine ⟨?_, by simp only [Expr.print, hes.print_eq]⟩
  simp only [Expr.untoken, Expr.map, Expr.mapAll_eq]
  exact congrArg (Expr.array _) hes.untoken_eq

/-- Hashes of pairs that are alike are alike. -/
theorem Expr.Like.hash (hps : PairsLike ps' ps) : (Expr.hash t' ps').Like (.hash t ps) := by
  refine ⟨?_, by simp only [Expr.print, hps.print_eq]⟩
  simp only [Expr.untoken, Expr.map, Expr.mapPairs_eq]
  exact congrArg (Expr.hash _) hps.untoken_eq

/-- Lists that begin alike and go on alike are alike. -/
theorem Expr.Like.cons (hl : l'.Like l) (hes : AllLike es' es) :
    AllLike (l' :: es') (l :: es) :=
  ⟨congrArg₂ List.cons hl.untoken_eq hes.untoken_eq,
    congrArg₂ List.cons hl.print_eq hes.print_eq⟩

/-- Pairs that begin alike and go on alike are alike. -/
theorem Expr.Like.pairsCons (hl : l'.Like l) (hr : r'.Like r) (hps : PairsLike ps' ps) :
    PairsLike ((l', r') :: ps') ((l, r) :: ps) :=
  ⟨congrArg₂ List.cons (congrArg₂ Prod.mk hl.untoken_eq hr.untoken_eq) hps.untoken_eq,
    by simp only [Expr.printPairs, hl.print_eq, hr.print_eq, hps.print_eq]⟩

end

/-! ### Pieces and their texts -/

/-- Texts with a comma and a blank before each. -/
def commas (texts : List String) : List Char := texts.flatMap fun t => ',' :: ' ' :: t.toList

/-- The first of several texts is written with a comma and a blank after it. -/
theorem toList_commaSeparated_cons (t u : String) (ts : List String) :
    (commaSeparated (t :: u :: ts)).toList =
      t.toList ++ ',' :: ' ' :: (commaSeparated (u :: ts)).toList := by
  rw [commaSeparated, String.intercalate_cons_cons, String.toList_append, String.toList_append,
    List.append_assoc]
  rfl

/-- Texts between commas are the first, and then each of the others with a comma before it. -/
theorem toList_commaSeparated (t : String) (ts : List String) :
    (commaSeparated (t :: ts)).toList = t.toList ++ commas ts := by
  induction ts generalizing t with
  | nil => simp [commaSeparated, commas]
  | cons u ts ih =>
    rw [toList_commaSeparated_cons, ih]
    rfl

/-- Tokens that are a spelling of an expression like `e`, wherever an expression may stand. -/
def Expr.Respells (e : Expr) (ts : List Token) : Prop :=
  ∃ e' d, Expr.Like e' e ∧ ∀ n, Spells ⟨False, False⟩ (.expr n e') ts d

/-- Tokens that are a spelling of a piece of syntax, and then one mark. -/
def RespellsBefore {α : Type} (form : α → Form) (like : α → Prop) (m : Mark) (ts : List Token) :
    Prop :=
  ∃ x d us t, like x ∧ Spells ⟨False, False⟩ (form x) us d ∧ t.kind = .mark m ∧ ts = us ++ [t]

/-- If it is plain, an expression is read as it is printed. -/
def Expr.Reprints (e : Expr) : Prop :=
  e.isPlain → Lexes Opening Closing e.print.toList e.Respells

/-- If it is plain, a `let` or a `return` is read as it is printed, and so is the expression of an
expression statement. -/
def Stmt.Reprints : Stmt → Prop
  | .expression _ e => e.Reprints
  | .block _ => False
  | s => s.isPlain → Lexes Opening Unmerged s.print.toList
    (RespellsBefore Form.stmt (Stmt.Like · s) .semicolon)

/-- If it is plain, a piece of syntax is read as it is printed, with the bracket after it if it is a
list. -/
def Form.Reprints : Form → Prop
  | .expr _ e => e.Reprints
  | .exprs es => Expr.allPlain es → ∀ m, m = .closeParen ∨ m = .closeBracket →
    Lexes Opening Unmerged ((commaSeparated (Expr.printAll es)).toList ++ m.text.toList)
      (RespellsBefore Form.exprs (Expr.AllLike · es) m)
  | .moreExprs es => Expr.allPlain es → ∀ m, m = .closeParen ∨ m = .closeBracket →
    Lexes Closing Unmerged (commas (Expr.printAll es) ++ m.text.toList)
      (RespellsBefore Form.moreExprs (Expr.AllLike · es) m)
  | .pairs ps => Expr.allPlainPairs ps →
    Lexes Opening Unmerged
      ((commaSeparated (Expr.printPairs ps)).toList ++ Mark.closeCurly.text.toList)
      (RespellsBefore Form.pairs (Expr.PairsLike · ps) .closeCurly)
  | .block _ => True
  | .stmt s => s.Reprints
  | .body ss => ∀ s ∈ ss, s.Reprints

/-! ### Expressions -/

section

variable {t : Token} {l r e i : Expr} {es : List Expr} {ps : List (Expr × Expr)} {v : Int64}

/-- A name is printed as it was written. -/
theorem reprints_identifier (ht : t.kind = .identifier) (hw : t.Written) :
    (Expr.identifier (nameOf t)).Reprints := by
  intro _
  refine (lexes_word hw (.inl ht)).endsWord.imp ?_
  rintro _ ⟨u, hu, hv, rfl⟩
  refine ⟨.identifier (nameOf u), 1, ?_, fun n => .identifier (hu.trans ht)⟩
  exact ⟨by simp only [Expr.untoken, Expr.map, Identifier.map, nameOf, hv], hv⟩

/-- A number is printed with the digits that it was written with. -/
theorem reprints_integer (ht : t.kind = .integer) (hv : Numeral.int64? t.value = some v)
    (hw : t.Written) : (Expr.integer t v).Reprints := by
  intro _
  refine (lexes_number hw ht).endsWord.imp ?_
  rintro _ ⟨u, hu, huv, rfl⟩
  exact ⟨.integer u v, 1, ⟨rfl, huv⟩, fun n => .integer (hu.trans ht) (huv ▸ hv)⟩

/-- A truth value is printed as its keyword. -/
theorem reprints_boolean {b : Bool} (ht : t.kind = .keyword (if b then .trueWord else .falseWord))
    (hw : t.Written) : (Expr.boolean t b).Reprints := by
  intro _
  refine (lexes_word hw (.inr ⟨_, ht⟩)).endsWord.imp ?_
  rintro _ ⟨u, hu, hv, rfl⟩
  exact ⟨.boolean u b, 1, ⟨rfl, hv⟩, fun n => .boolean (hu.trans ht)⟩

/-- What is printed in brackets may stand anywhere if what is between them is an expression. -/
theorem lexes_grouped {cs : List Char}
    (htext : e.print.toList = Mark.openParen.text.toList ++ (cs ++ Mark.closeParen.text.toList))
    (h : Lexes Unmerged Closing cs fun ts =>
      ∃ e' d, Expr.Like e' e ∧ Spells ⟨False, False⟩ (.expr 0 e') ts d) :
    Lexes Opening Closing e.print.toList e.Respells := by
  have hopen : Lexes Opening Unmerged Mark.openParen.text.toList _ :=
    lexes_mark .openParen (by decide)
  rw [htext]
  refine (hopen.append (h.append (lexes_mark .closeParen (by decide)))).endsMark.imp ?_
  rintro _ ⟨_, _, ⟨o, ho, -, rfl⟩, ⟨ts, _, ⟨e', d, he', hts⟩, ⟨c, hc, -, rfl⟩, rfl⟩, rfl⟩
  exact ⟨e', d + 1, he', fun n => .grouped ho hc hts⟩

/-- A prefix operator is printed in brackets, with its operand after it. -/
theorem reprints_prefixOp {m : Mark} (ht : t.kind = .mark m) (hm : m = .not ∨ m = .dash)
    (hw : t.Written) (hr : r.Reprints) : (Expr.prefixOp t t.value r).Reprints := by
  intro hplain
  have hoperator : Lexes Unmerged Unmerged m.text.toList (Sole (.mark m) m.text) :=
    lexes_mark m (by rcases hm with rfl | rfl <;> decide)
  have htext : (Expr.prefixOp t t.value r).print.toList = Mark.openParen.text.toList ++
      ((m.text.toList ++ r.print.toList) ++ Mark.closeParen.text.toList) := by
    simp [Expr.print, Mark.text, hw.mark m ht]
  refine lexes_grouped htext ((hoperator.append (hr hplain).afterMark).imp ?_)
  rintro _ ⟨_, ts, ⟨u, hu, hv, rfl⟩, ⟨r', d, hr', hts⟩, rfl⟩
  refine ⟨.prefixOp u u.value r', d + 1, ?_,
    .prefixOp (by simpa [hu] using hm) (Nat.zero_le _) (hts _)⟩
  rw [hv, hw.mark m ht]
  exact hr'.prefixOp m.text

/-- A binary operator is printed in brackets, with a blank on either side. -/
theorem reprints_infixOp {m : Mark} {q : Power} (ht : t.kind = .mark m)
    (hm : Grammar.standard.infixRule (.mark m) = some (q, .binary)) (hw : t.Written)
    (hl : l.Reprints) (hr : r.Reprints) : (Expr.infixOp t l t.value r).Reprints := by
  intro hplain
  obtain ⟨hleft, hright⟩ := Bool.and_eq_true_iff.1 hplain
  have htext : (Expr.infixOp t l t.value r).print.toList = Mark.openParen.text.toList ++
      ((l.print.toList ++ (' ' :: m.text.toList ++ ' ' :: r.print.toList)) ++
        Mark.closeParen.text.toList) := by
    simp [Expr.print, Mark.text, hw.mark m ht]
  refine lexes_grouped htext (((hl hleft).afterMark.append
    ((lexes_spacedMark m (by decide)).append ((hr hright).spaced (by decide)))).imp ?_)
  rintro _ ⟨ls, _, ⟨l', d, hl', hls⟩, ⟨_, rs, ⟨u, hu, hv, rfl⟩, ⟨r', d', hr', hrs⟩, rfl⟩, rfl⟩
  refine ⟨.infixOp u l' u.value r', max d (d' + 1), ?_,
    .infixOp (hu ▸ hm) (Nat.zero_le _) (hls _) (hrs _)⟩
  rw [hv, hw.mark m ht]
  exact hl'.infixOp m.text hr'

/-- An index is printed in brackets, which make a group of it. -/
theorem reprints_index (hl : l.Reprints) (hi : i.Reprints) : (Expr.index t l i).Reprints := by
  intro hplain
  obtain ⟨hleft, hindex⟩ := Bool.and_eq_true_iff.1 hplain
  have htext : (Expr.index t l i).print.toList = Mark.openParen.text.toList ++
      ((l.print.toList ++ (Mark.openBracket.text.toList ++
        (i.print.toList ++ Mark.closeBracket.text.toList))) ++ Mark.closeParen.text.toList) := by
    simp [Expr.print, Mark.text]
  refine lexes_grouped htext (((hl hleft).afterMark.append ((lexes_mark .openBracket
    (by decide)).append ((hi hindex).afterMark.append (lexes_mark .closeBracket
      (by decide))))).endsMark.imp ?_)
  rintro _ ⟨ls, _, ⟨l', d, hl', hls⟩, ⟨_, _, ⟨o, ho, -, rfl⟩,
    ⟨ts, _, ⟨i', d', hi', hts⟩, ⟨c, hc, -, rfl⟩, rfl⟩, rfl⟩, rfl⟩
  exact ⟨.index o l' i', max d (d' + 1), hl'.index hi', .index ho hc (hls _) (hts _)⟩

/-- A call is printed as its callee and the list of arguments in brackets. -/
theorem reprints_call (hl : l.Reprints) (hes : (Form.exprs es).Reprints) :
    (Expr.call t l es).Reprints := by
  intro hplain
  obtain ⟨hleft, hall⟩ := Bool.and_eq_true_iff.1 hplain
  have htext : (Expr.call t l es).print.toList = l.print.toList ++ (Mark.openParen.text.toList ++
      ((commaSeparated (Expr.printAll es)).toList ++ Mark.closeParen.text.toList)) := by
    simp [Expr.print, Mark.text]
  rw [htext]
  refine ((hl hleft).append ((lexes_mark .openParen (by decide)).append
    (hes hall .closeParen (.inl rfl)).afterMark)).endsMark.imp ?_
  rintro _ ⟨ls, _, ⟨l', d, hl', hls⟩,
    ⟨_, _, ⟨o, ho, -, rfl⟩, ⟨es', d', us, c, hes', hus, hc, rfl⟩, rfl⟩, rfl⟩
  exact ⟨.call o l' es', max d (d' + 1), hl'.call hes', fun n => .call ho hc (hls _) hus⟩

/-- An array is printed as the list of its elements in brackets. -/
theorem reprints_array (hes : (Form.exprs es).Reprints) : (Expr.array t es).Reprints := by
  intro hplain
  have htext : (Expr.array t es).print.toList = Mark.openBracket.text.toList ++
      ((commaSeparated (Expr.printAll es)).toList ++ Mark.closeBracket.text.toList) := by
    simp [Expr.print, Mark.text]
  rw [htext]
  refine ((lexes_mark .openBracket (by decide)).append
    (hes hplain .closeBracket (.inr rfl)).afterMark).endsMark.imp ?_
  rintro _ ⟨_, _, ⟨o, ho, -, rfl⟩, ⟨es', d, us, c, hes', hus, hc, rfl⟩, rfl⟩
  exact ⟨.array o es', d + 1, .array hes', fun n => .array ho hc hus⟩

/-- A hash is printed as the list of its pairs in brackets. -/
theorem reprints_hash (hps : (Form.pairs ps).Reprints) : (Expr.hash t ps).Reprints := by
  intro hplain
  have htext : (Expr.hash t ps).print.toList = Mark.openCurly.text.toList ++
      ((commaSeparated (Expr.printPairs ps)).toList ++ Mark.closeCurly.text.toList) := by
    simp [Expr.print, Mark.text]
  rw [htext]
  refine ((lexes_mark .openCurly (by decide)).append (hps hplain).afterMark).endsMark.imp ?_
  rintro _ ⟨_, _, ⟨o, ho, -, rfl⟩, ⟨ps', d, us, c, hps', hus, hc, rfl⟩, rfl⟩
  exact ⟨.hash o ps', d + 1, .hash hps', fun n => .hash ho hc hus⟩

/-! ### Lists -/

/-- The bracket after a list may come after any lexeme, and after a mark. -/
theorem closing_of_bracket {m : Mark} (hm : m = .closeParen ∨ m = .closeBracket) :
    Closing m.initial ∧ Opening m.initial := by
  rcases hm with rfl | rfl <;> decide

/-- After the last expression of a list its bracket comes. -/
theorem reprints_noMore : (Form.moreExprs []).Reprints := by
  intro _ m hm
  refine (lexes_mark m (closing_of_bracket hm).1).imp ?_
  rintro _ ⟨c, hc, -, rfl⟩
  exact ⟨[], 0, [], c, ⟨rfl, rfl⟩, .noMore, hc, rfl⟩

/-- A further expression is printed after a comma. -/
theorem reprints_more (he : e.Reprints) (hes : (Form.moreExprs es).Reprints) :
    (Form.moreExprs (e :: es)).Reprints := by
  intro hplain m hm
  obtain ⟨hfirst, hothers⟩ := Bool.and_eq_true_iff.1 hplain
  have htext : commas (Expr.printAll (e :: es)) ++ m.text.toList = Mark.comma.text.toList ++
      ' ' :: (e.print.toList ++ (commas (Expr.printAll es) ++ m.text.toList)) := by
    simp [commas, Expr.printAll, Mark.text]
  rw [htext]
  refine ((lexes_mark .comma (by decide)).append
    (((he hfirst).append (hes hothers m hm)).spaced (by decide))).imp ?_
  rintro _ ⟨_, _, ⟨k, hk, -, rfl⟩, ⟨ts, _, ⟨e', d, he', hts⟩,
    ⟨es', d', us, c, hes', hus, hc, rfl⟩, rfl⟩, rfl⟩
  refine ⟨e' :: es', max d d', k :: (ts ++ us), c, he'.cons hes', .more hk (hts 0) hus, hc, ?_⟩
  rw [List.singleton_append, List.cons_append, List.append_assoc]

/-- Of an empty list only the bracket is printed. -/
theorem reprints_noExprs : (Form.exprs []).Reprints := by
  intro _ m hm
  refine (lexes_mark m (closing_of_bracket hm).2).imp ?_
  rintro _ ⟨c, hc, -, rfl⟩
  exact ⟨[], 0, [], c, ⟨rfl, rfl⟩, .noExprs, hc, rfl⟩

/-- A list is printed as its first expression and those after it. -/
theorem reprints_exprs (he : e.Reprints) (hes : (Form.moreExprs es).Reprints) :
    (Form.exprs (e :: es)).Reprints := by
  intro hplain m hm
  obtain ⟨hfirst, hothers⟩ := Bool.and_eq_true_iff.1 hplain
  rw [Expr.printAll, toList_commaSeparated, List.append_assoc]
  refine ((he hfirst).append (hes hothers m hm)).imp ?_
  rintro _ ⟨ts, _, ⟨e', d, he', hts⟩, ⟨es', d', us, c, hes', hus, hc, rfl⟩, rfl⟩
  refine ⟨e' :: es', max d d', ts ++ us, c, he'.cons hes', .exprs (hts 0) hus, hc, ?_⟩
  rw [List.append_assoc]

/-- Of a hash without pairs only the bracket is printed. -/
theorem reprints_noPairs : (Form.pairs []).Reprints := by
  intro _
  refine (lexes_mark .closeCurly (by decide)).imp ?_
  rintro _ ⟨c, hc, -, rfl⟩
  exact ⟨[], 0, [], c, ⟨rfl, rfl⟩, .noPairs, hc, rfl⟩

/-- A key and a value. -/
theorem lexes_pair (hl : l.Reprints) (hr : r.Reprints) (hplain : (l.isPlain && r.isPlain) = true) :
    Lexes Opening Closing (l.print ++ ": " ++ r.print).toList
      (Then l.Respells (Then (Sole (.mark .colon) Mark.colon.text) r.Respells)) := by
  obtain ⟨hleft, hright⟩ := Bool.and_eq_true_iff.1 hplain
  have htext : (l.print ++ ": " ++ r.print).toList =
      l.print.toList ++ (Mark.colon.text.toList ++ ' ' :: r.print.toList) := by
    simp [Mark.text]
  rw [htext]
  exact (hl hleft).append ((lexes_mark .colon (by decide)).append ((hr hright).spaced (by decide)))

/-- The last pair is printed without a comma after it. -/
theorem reprints_lastPair (hl : l.Reprints) (hr : r.Reprints) :
    (Form.pairs [(l, r)]).Reprints := by
  intro hplain
  have hpair := lexes_pair hl hr (Bool.and_eq_true_iff.1 hplain).1
  rw [Expr.printPairs, toList_commaSeparated, Expr.printPairs, commas, List.flatMap_nil,
    List.append_nil]
  refine (hpair.append (lexes_mark .closeCurly (by decide))).imp ?_
  rintro _ ⟨_, _, ⟨ls, _, ⟨l', d, hl', hls⟩, ⟨_, rs, ⟨k, hk, -, rfl⟩, ⟨r', d', hr', hrs⟩, rfl⟩,
    rfl⟩, ⟨c, hc, -, rfl⟩, rfl⟩
  exact ⟨[(l', r')], max d d', ls ++ k :: rs, c, hl'.pairsCons hr' ⟨rfl, rfl⟩,
    .lastPair hk (hls 0) (hrs 0), hc, rfl⟩

/-- A pair is printed with its colon, and the others after a comma. -/
theorem reprints_pairs (hl : l.Reprints) (hr : r.Reprints) (hps : (Form.pairs ps).Reprints) :
    (Form.pairs ((l, r) :: ps)).Reprints := by
  cases ps with
  | nil => exact reprints_lastPair hl hr
  | cons p ps =>
    intro hplain
    obtain ⟨hfirst, hothers⟩ := Bool.and_eq_true_iff.1 hplain
    have htext : (commaSeparated (Expr.printPairs ((l, r) :: p :: ps))).toList ++
        Mark.closeCurly.text.toList = (l.print ++ ": " ++ r.print).toList ++
          (Mark.comma.text.toList ++ ' ' :: ((commaSeparated (Expr.printPairs (p :: ps))).toList ++
            Mark.closeCurly.text.toList)) := by
      rw [Expr.printPairs, Expr.printPairs, toList_commaSeparated_cons, List.append_assoc]
      rfl
    rw [htext]
    refine ((lexes_pair hl hr hfirst).append ((lexes_mark .comma (by decide)).append
      ((hps hothers).spaced (by decide)))).imp ?_
    rintro _ ⟨_, _, ⟨ls, _, ⟨l', d, hl', hls⟩, ⟨_, rs, ⟨k, hk, -, rfl⟩, ⟨r', d', hr', hrs⟩, rfl⟩,
      rfl⟩, ⟨_, _, ⟨m, hm, -, rfl⟩, ⟨ps', d'', us, c, hps', hus, hc, rfl⟩, rfl⟩, rfl⟩
    refine ⟨(l', r') :: ps', max d (max d' d''), ls ++ k :: (rs ++ m :: us), c,
      hl'.pairsCons hr' hps', .pairs hk hm (hls 0) (hrs 0) hus, hc, ?_⟩
    simp

/-! ### Statements -/

/-- A binding is printed with its `;`, so it is read as it was. -/
theorem reprints_letBinding {i : Token} (ht : t.kind = .keyword .letWord)
    (hi : i.kind = .identifier) (hwt : t.Written) (hwi : i.Written) (he : e.Reprints) :
    (Stmt.letBinding t (nameOf i) e).Reprints := by
  intro hplain
  have htext : (Stmt.letBinding t (nameOf i) e).print.toList = t.value.toList ++
      (' ' :: i.value.toList ++ (' ' :: Mark.assign.text.toList ++
        ' ' :: (e.print.toList ++ Mark.semicolon.text.toList))) := by
    simp [Stmt.print, nameOf, Mark.text]
  have hvalue := (he hplain).append (lexes_mark .semicolon (by decide))
  rw [htext]
  refine ((lexes_word hwt (.inr ⟨_, ht⟩)).append (((lexes_word hwi (.inl hi)).spaced
    (by decide)).append ((lexes_spacedMark .assign (by decide)).append
      (hvalue.spaced (by decide))))).imp ?_
  rintro _ ⟨_, _, ⟨u, hu, huv, rfl⟩, ⟨_, _, ⟨j, hj, hjv, rfl⟩, ⟨_, _, ⟨a, ha, -, rfl⟩,
    ⟨ts, _, ⟨e', d, he', hts⟩, ⟨c, hc, -, rfl⟩, rfl⟩, rfl⟩, rfl⟩, rfl⟩
  refine ⟨.letBinding u (nameOf j) e', d, u :: j :: a :: ts, c, ⟨?_, ?_⟩,
    .letBinding (hu.trans ht) (hj.trans hi) ha (hts 0), hc, rfl⟩
  · rw [Stmt.untoken, Stmt.map, Stmt.map, Identifier.map, nameOf, hjv]
    exact congrArg (Stmt.letBinding _ _) he'.untoken_eq
  · simp only [Stmt.print, nameOf, huv, hjv, he'.print_eq]

/-- A `return` without a value is printed with its `;`. -/
theorem reprints_bareReturn (ht : t.kind = .keyword .returnWord) (hw : t.Written) :
    (Stmt.returnValue t none).Reprints := by
  intro _
  rw [Stmt.print, String.toList_append]
  refine ((lexes_word hw (.inr ⟨_, ht⟩)).append (lexes_mark .semicolon (by decide))).imp ?_
  rintro _ ⟨_, _, ⟨u, hu, hv, rfl⟩, ⟨c, hc, -, rfl⟩, rfl⟩
  exact ⟨.returnValue u none, 0, [u], c, ⟨rfl, by simp only [Stmt.print, hv]⟩,
    .bareReturn (hu.trans ht), hc, rfl⟩

/-- A `return` is printed with its value and its `;`. -/
theorem reprints_returnValue (ht : t.kind = .keyword .returnWord) (hw : t.Written)
    (he : e.Reprints) : (Stmt.returnValue t (some e)).Reprints := by
  intro hplain
  have htext : (Stmt.returnValue t (some e)).print.toList = t.value.toList ++
      ' ' :: (e.print.toList ++ Mark.semicolon.text.toList) := by
    simp [Stmt.print, Mark.text]
  have hvalue := (he hplain).append (lexes_mark .semicolon (by decide))
  rw [htext]
  refine ((lexes_word hw (.inr ⟨_, ht⟩)).append (hvalue.spaced (by decide))).imp ?_
  rintro _ ⟨_, _, ⟨u, hu, hv, rfl⟩, ⟨ts, _, ⟨e', d, he', hts⟩, ⟨c, hc, -, rfl⟩, rfl⟩, rfl⟩
  refine ⟨.returnValue u (some e'), d, u :: ts, c, ⟨?_, ?_⟩, .returnValue (hu.trans ht) (hts 0),
    hc, rfl⟩
  · exact congrArg (fun x => Stmt.returnValue _ (some x)) he'.untoken_eq
  · simp only [Stmt.print, hv, he'.print_eq]

end

/-- **Whatever was read, is read as it is printed.** -/
theorem reprints_of_spells {L : Leeway} {f : Form} {ts : List Token} {d : Nat}
    (h : Spells L f ts d) (hw : ∀ t ∈ ts, t.Written) : f.Reprints := by
  have hinside : ∀ {o c : Token} {us : List Token}, (∀ t ∈ o :: (us ++ [c]), t.Written) →
      ∀ t ∈ us, t.Written := fun h t ht => h t (by simp [ht])
  induction h with
  | identifier ht => exact reprints_identifier ht (hw _ (List.mem_singleton_self _))
  | integer ht hv => exact reprints_integer ht hv (hw _ (List.mem_singleton_self _))
  | string ht => exact fun h => Bool.noConfusion h
  | boolean ht => exact reprints_boolean ht (hw _ (List.mem_singleton_self _))
  | prefixOp ht hn h ih =>
    obtain ⟨hwt, hws⟩ := List.forall_mem_cons.1 hw
    rcases ht with ht | ht
    · exact reprints_prefixOp ht (.inl rfl) hwt (ih hws)
    · exact reprints_prefixOp ht (.inr rfl) hwt (ih hws)
  | infixOp ht _ _ _ ihl ihr =>
    obtain ⟨hwl, hwr⟩ := List.forall_mem_append.1 hw
    obtain ⟨hwt, hwr⟩ := List.forall_mem_cons.1 hwr
    obtain ⟨m, hm⟩ := Grammar.mark_of_binary ht
    exact reprints_infixOp hm (hm ▸ ht) hwt (ihl hwl) (ihr hwr)
  | call _ _ _ _ ihl ihs =>
    obtain ⟨hwl, hws⟩ := List.forall_mem_append.1 hw
    exact reprints_call (ihl hwl) (ihs (hinside hws))
  | index _ _ _ _ ihl ihi =>
    obtain ⟨hwl, hws⟩ := List.forall_mem_append.1 hw
    exact reprints_index (ihl hwl) (ihi (hinside hws))
  | array _ _ _ ih =>
    exact reprints_array (ih (hinside hw))
  | hash _ _ _ ih =>
    exact reprints_hash (ih (hinside hw))
  | conditional | alternative | function => exact fun h => Bool.noConfusion h
  | grouped _ _ _ ih => exact ih (hinside hw)
  | noExprs => exact reprints_noExprs
  | exprs _ _ ihe ihs =>
    obtain ⟨hwe, hws⟩ := List.forall_mem_append.1 hw
    exact reprints_exprs (ihe hwe) (ihs hws)
  | noMore => exact reprints_noMore
  | more _ _ _ ihe ihs =>
    obtain ⟨hwe, hws⟩ := List.forall_mem_append.1 (List.forall_mem_cons.1 hw).2
    exact reprints_more (ihe hwe) (ihs hws)
  | noPairs => exact reprints_noPairs
  | lastPair _ _ _ ihk ihv =>
    obtain ⟨hwk, hwv⟩ := List.forall_mem_append.1 hw
    exact reprints_lastPair (ihk hwk) (ihv (List.forall_mem_cons.1 hwv).2)
  | pairs _ _ _ _ _ ihk ihv ihs =>
    obtain ⟨hwk, hws⟩ := List.forall_mem_append.1 hw
    obtain ⟨hwv, hws⟩ := List.forall_mem_append.1 (List.forall_mem_cons.1 hws).2
    exact reprints_pairs (ihk hwk) (ihv hwv) (ihs (List.forall_mem_cons.1 hws).2)
  | block => trivial
  | letBinding ht hi _ _ ih =>
    obtain ⟨hwt, hws⟩ := List.forall_mem_cons.1 hw
    obtain ⟨hwi, hws⟩ := List.forall_mem_cons.1 hws
    exact reprints_letBinding ht hi hwt hwi (ih (List.forall_mem_cons.1 hws).2)
  | bareReturn ht => exact reprints_bareReturn ht (hw _ (List.mem_singleton_self _))
  | returnValue ht _ ih =>
    obtain ⟨hwt, hws⟩ := List.forall_mem_cons.1 hw
    exact reprints_returnValue ht hwt (ih hws)
  | expression _ ih => exact ih hw
  | noStmts => exact List.forall_mem_nil _
  | stmts _ _ _ ihs ihb =>
    obtain ⟨hws, hwb⟩ := List.forall_mem_append.1 hw
    exact List.forall_mem_cons.2 ⟨ihs hws, ihb (List.forall_mem_append.1 hwb).2⟩
  | junk _ _ ih => exact ih (List.forall_mem_append.1 hw).2

end MonkeySyntax

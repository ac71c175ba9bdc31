/-
# How syntax trees are written

`Spells leeway f ts d` says that the tokens `ts` are a way to write the piece of syntax `f`, and
that expressions nest `d` deep in it.  It is the grammar of Monkey as a relation, without a reader:

| piece | written as |
| --- | --- |
| `let` | `let` name `=` expression |
| `return` | `return`, or `return` expression |
| expression statement | expression |
| block | `{` statements `}` |
| statements | statement `;` statement `;` … |
| name, literal | the token |
| prefix, infix | operator operand, operand operator operand |
| conditional | `if` condition block, or `if` condition block `else` block |
| function | `fn` `(` name `,` … `)` block |
| call, array | expression `(` expression `,` … `)`, `[` expression `,` … `]` |
| index | expression `[` expression `]` |
| hash | `{` key `:` value `,` … `}`, with or without a comma after the last pair |

Any expression may stand in brackets.  An operand has to, unless its own operator binds tightly
enough: that is what the level of an expression is for.  At level `n` no operator of the expression
itself, outside of brackets, ranks below `n`.  A left operand stands at the rank of the operator
after it, which keeps chains of one power together, and a right operand one above.

Every node's token is the one that the table shows it by: an operator, a keyword, an opening
bracket.  The token of an expression statement is the first one of its spelling.
-/

import MonkeySyntax.Numeral
import MonkeySyntax.Parsing.Grammar
import MonkeySyntax.Parsing.Statement

namespace MonkeySyntax

/-- What a spelling may do that the grammar does not ask for. -/
structure Leeway where
  /-- A statement may stand without a `;` after it. -/
  bare : Prop
  /-- Tokens that belong to no statement may stand before one or after the last. -/
  junk : Prop

/-- A piece of syntax. -/
inductive Form where
  /-- An expression none of whose own operators ranks below `level`. -/
  | expr (level : Nat) (e : Expr)
  /-- Expressions with commas in between. -/
  | exprs (es : List Expr)
  /-- Expressions with a comma before each. -/
  | moreExprs (es : List Expr)
  /-- Keys and values with commas in between, and perhaps one after the last. -/
  | pairs (ps : List (Expr × Expr))
  | block (b : Block)
  | stmt (s : Stmt)
  /-- Statements one after the other. -/
  | body (ss : List Stmt)

namespace Spelling

open MonkeySyntax.Parsing

/-- Names with a comma before each. -/
inductive MoreNames : List Identifier → List Token → Prop
  | nil : MoreNames [] []
  | cons {c t : Token} {ns : List Identifier} {ts : List Token} :
    c.kind = .mark .comma → t.kind = .identifier → MoreNames ns ts →
      MoreNames (nameOf t :: ns) (c :: t :: ts)

/-- Names with commas in between. -/
inductive Names : List Identifier → List Token → Prop
  | nil : Names [] []
  | cons {t : Token} {ns : List Identifier} {ts : List Token} :
    t.kind = .identifier → MoreNames ns ts → Names (nameOf t :: ns) (t :: ts)

/-- What follows a statement: a `;`, or nothing if that may be. -/
inductive Ending (bare : Prop) : List Token → Prop
  | semicolon {t : Token} : t.kind = .mark .semicolon → Ending bare [t]
  | none : bare → Ending bare []

end Spelling

open MonkeySyntax.Parsing MonkeySyntax.Spelling

/-- The ways to write a piece of syntax, and how deep expressions nest in each. -/
inductive Spells (L : Leeway) : Form → List Token → Nat → Prop
  | identifier {n : Nat} {t : Token} :
    t.kind = .identifier → Spells L (.expr n (.identifier (nameOf t))) [t] 1
  | integer {n : Nat} {t : Token} {v : Int64} :
    t.kind = .integer → Numeral.int64? t.value = some v → Spells L (.expr n (.integer t v)) [t] 1
  | string {n : Nat} {t : Token} :
    t.kind = .string → Spells L (.expr n (.string t t.value)) [t] 1
  | boolean {n : Nat} {t : Token} {b : Bool} :
    t.kind = .keyword (if b then .trueWord else .falseWord) →
      Spells L (.expr n (.boolean t b)) [t] 1
  | prefixOp {n d : Nat} {t : Token} {e : Expr} {ts : List Token} :
    t.kind = .mark .not ∨ t.kind = .mark .dash → n ≤ Power.prefixed.rank →
      Spells L (.expr Power.prefixed.rank e) ts d →
      Spells L (.expr n (.prefixOp t t.value e)) (t :: ts) (d + 1)
  | infixOp {n d d' : Nat} {q : Power} {t : Token} {l r : Expr} {ls rs : List Token} :
    Grammar.standard.infixRule t.kind = some (q, .binary) → n ≤ q.rank →
      Spells L (.expr q.rank l) ls d → Spells L (.expr (q.rank + 1) r) rs d' →
      Spells L (.expr n (.infixOp t l t.value r)) (ls ++ t :: rs) (max d (d' + 1))
  | call {n d d' : Nat} {o c : Token} {f : Expr} {es : List Expr} {fs ts : List Token} :
    o.kind = .mark .openParen → c.kind = .mark .closeParen →
      Spells L (.expr Power.call.rank f) fs d → Spells L (.exprs es) ts d' →
      Spells L (.expr n (.call o f es)) (fs ++ o :: (ts ++ [c])) (max d (d' + 1))
  | index {n d d' : Nat} {o c : Token} {l i : Expr} {ls ts : List Token} :
    o.kind = .mark .openBracket → c.kind = .mark .closeBracket →
      Spells L (.expr Power.index.rank l) ls d → Spells L (.expr 0 i) ts d' →
      Spells L (.expr n (.index o l i)) (ls ++ o :: (ts ++ [c])) (max d (d' + 1))
  | array {n d : Nat} {o c : Token} {es : List Expr} {ts : List Token} :
    o.kind = .mark .openBracket → c.kind = .mark .closeBracket → Spells L (.exprs es) ts d →
      Spells L (.expr n (.array o es)) (o :: (ts ++ [c])) (d + 1)
  | hash {n d : Nat} {o c : Token} {ps : List (Expr × Expr)} {ts : List Token} :
    o.kind = .mark .openCurly → c.kind = .mark .closeCurly → Spells L (.pairs ps) ts d →
      Spells L (.expr n (.hash o ps)) (o :: (ts ++ [c])) (d + 1)
  | conditional {n d d' : Nat} {t : Token} {e : Expr} {b : Block} {ts us : List Token} :
    t.kind = .keyword .ifWord → Spells L (.expr 0 e) ts d → Spells L (.block b) us d' →
      Spells L (.expr n (.conditional t e b none)) (t :: (ts ++ us)) (max d d' + 1)
  | alternative {n d d' d'' : Nat} {t o : Token} {e : Expr} {b a : Block}
      {ts us vs : List Token} :
    t.kind = .keyword .ifWord → o.kind = .keyword .elseWord →
      Spells L (.expr 0 e) ts d → Spells L (.block b) us d' → Spells L (.block a) vs d'' →
      Spells L (.expr n (.conditional t e b (some a))) (t :: (ts ++ (us ++ o :: vs)))
        (max d (max d' d'') + 1)
  | function {n d : Nat} {t o c : Token} {ns : List Identifier} {b : Block}
      {ts us : List Token} :
    t.kind = .keyword .fnWord → o.kind = .mark .openParen → c.kind = .mark .closeParen →
      Names ns ts → Spells L (.block b) us d →
      Spells L (.expr n (.function t ns b)) (t :: o :: (ts ++ c :: us)) (d + 1)
  /-- An expression in brackets, which leave no trace in the tree. -/
  | grouped {n d : Nat} {o c : Token} {e : Expr} {ts : List Token} :
    o.kind = .mark .openParen → c.kind = .mark .closeParen → Spells L (.expr 0 e) ts d →
      Spells L (.expr n e) (o :: (ts ++ [c])) (d + 1)
  | noExprs : Spells L (.exprs []) [] 0
  | exprs {d d' : Nat} {e : Expr} {es : List Expr} {ts us : List Token} :
    Spells L (.expr 0 e) ts d → Spells L (.moreExprs es) us d' →
      Spells L (.exprs (e :: es)) (ts ++ us) (max d d')
  | noMore : Spells L (.moreExprs []) [] 0
  | more {d d' : Nat} {c : Token} {e : Expr} {es : List Expr} {ts us : List Token} :
    c.kind = .mark .comma → Spells L (.expr 0 e) ts d → Spells L (.moreExprs es) us d' →
      Spells L (.moreExprs (e :: es)) (c :: (ts ++ us)) (max d d')
  | noPairs : Spells L (.pairs []) [] 0
  | lastPair {d d' : Nat} {c : Token} {k v : Expr} {ts us : List Token} :
    c.kind = .mark .colon → Spells L (.expr 0 k) ts d → Spells L (.expr 0 v) us d' →
      Spells L (.pairs [(k, v)]) (ts ++ c :: us) (max d d')
  | pairs {d d' d'' : Nat} {c m : Token} {k v : Expr} {ps : List (Expr × Expr)}
      {ts us vs : List Token} :
    c.kind = .mark .colon → m.kind = .mark .comma → Spells L (.expr 0 k) ts d →
      Spells L (.expr 0 v) us d' → Spells L (.pairs ps) vs d'' →
      Spells L (.pairs ((k, v) :: ps)) (ts ++ c :: (us ++ m :: vs)) (max d (max d' d''))
  | block {d : Nat} {o c : Token} {ss : List Stmt} {ts : List Token} :
    o.kind = .mark .openCurly → c.kind = .mark .closeCurly → Spells L (.body ss) ts d →
      Spells L (.block (.mk o ss)) (o :: (ts ++ [c])) d
  | letBinding {d : Nat} {t i a : Token} {e : Expr} {ts : List Token} :
    t.kind = .keyword .letWord → i.kind = .identifier → a.kind = .mark .assign →
      Spells L (.expr 0 e) ts d →
      Spells L (.stmt (.letBinding t (nameOf i) e)) (t :: i :: a :: ts) d
  | bareReturn {t : Token} :
    t.kind = .keyword .returnWord → Spells L (.stmt (.returnValue t none)) [t] 0
  | returnValue {d : Nat} {t : Token} {e : Expr} {ts : List Token} :
    t.kind = .keyword .returnWord → Spells L (.expr 0 e) ts d →
      Spells L (.stmt (.returnValue t (some e))) (t :: ts) d
  | expression {d : Nat} {t : Token} {e : Expr} {ts : List Token} :
    Spells L (.expr 0 e) (t :: ts) d → Spells L (.stmt (.expression t e)) (t :: ts) d
  | noStmts : Spells L (.body []) [] 0
  | stmts {d d' : Nat} {s : Stmt} {ss : List Stmt} {ts us vs : List Token} :
    Spells L (.stmt s) ts d → Ending L.bare us → Spells L (.body ss) vs d' →
      Spells L (.body (s :: ss)) (ts ++ (us ++ vs)) (max d d')
  | junk {d : Nat} {ss : List Stmt} {ts us : List Token} :
    L.junk → Spells L (.body ss) us d → Spells L (.body ss) (ts ++ us) d

/-- An end of a statement stays one where more are allowed. -/
theorem Spelling.Ending.mono {a b : Prop} (hab : a → b) {ts : List Token} (h : Ending a ts) :
    Ending b ts := by
  cases h with
  | semicolon ht => exact .semicolon ht
  | none h => exact .none (hab h)

namespace Spells

variable {L M : Leeway} {f : Form} {ts : List Token} {d : Nat}

/-- What is written with some leeway is written with more. -/
theorem mono (hb : L.bare → M.bare) (hj : L.junk → M.junk) (h : Spells L f ts d) :
    Spells M f ts d := by
  induction h with
  | identifier ht => exact .identifier ht
  | integer ht hv => exact .integer ht hv
  | string ht => exact .string ht
  | boolean ht => exact .boolean ht
  | prefixOp ht hn _ ih => exact .prefixOp ht hn ih
  | infixOp ht hn _ _ ihl ihr => exact .infixOp ht hn ihl ihr
  | call ho hc _ _ ihf ihs => exact .call ho hc ihf ihs
  | index ho hc _ _ ihl ihi => exact .index ho hc ihl ihi
  | array ho hc _ ih => exact .array ho hc ih
  | hash ho hc _ ih => exact .hash ho hc ih
  | conditional ht _ _ ihe ihb => exact .conditional ht ihe ihb
  | alternative ht ho _ _ _ ihe ihb iha => exact .alternative ht ho ihe ihb iha
  | function ht ho hc hn _ ih => exact .function ht ho hc hn ih
  | grouped ho hc _ ih => exact .grouped ho hc ih
  | noExprs => exact .noExprs
  | exprs _ _ ihe ihs => exact .exprs ihe ihs
  | noMore => exact .noMore
  | more hc _ _ ihe ihs => exact .more hc ihe ihs
  | noPairs => exact .noPairs
  | lastPair hc _ _ ihk ihv => exact .lastPair hc ihk ihv
  | pairs hc hm _ _ _ ihk ihv ihs => exact .pairs hc hm ihk ihv ihs
  | block ho hc _ ih => exact .block ho hc ih
  | letBinding ht hi ha _ ih => exact .letBinding ht hi ha ih
  | bareReturn ht => exact .bareReturn ht
  | returnValue ht _ ih => exact .returnValue ht ih
  | expression _ ih => exact .expression ih
  | noStmts => exact .noStmts
  | stmts _ hu _ ihs ihb => exact .stmts ihs (hu.mono hb) ihb
  | junk h _ ih => exact .junk (hj h) ih

/-- An expression is one level deep at least. -/
theorem depth_pos {n : Nat} {e : Expr} (h : Spells L (.expr n e) ts d) : 0 < d := by
  cases h <;> omega

/-- The first token of an expression is one that an expression can start with. -/
theorem exists_head {n : Nat} {e : Expr} (h : Spells L (.expr n e) ts d) :
    ∃ t us rule, ts = t :: us ∧ Grammar.standard.prefixRule t.kind = some rule := by
  generalize hf : Form.expr n e = f at h
  induction h generalizing n e with
  | identifier ht | integer ht | string ht | function ht | conditional ht | alternative ht
  | array ht | hash ht | grouped ht =>
    exact ⟨_, _, _, rfl, by rw [ht]; rfl⟩
  | @boolean _ _ b ht => exact ⟨_, _, .primary, rfl, by rw [ht]; cases b <;> rfl⟩
  | prefixOp ht => exact ⟨_, _, .operator, rfl, by rcases ht with ht | ht <;> rw [ht] <;> rfl⟩
  | infixOp _ _ _ _ ih | call _ _ _ _ ih | index _ _ _ _ ih =>
    obtain ⟨t, us, rule, rfl, ht⟩ := ih rfl
    exact ⟨t, _, rule, rfl, ht⟩
  | _ => cases hf

/-- The first token of a block is its opening bracket. -/
theorem exists_head_block {b : Block} (h : Spells L (.block b) ts d) :
    ∃ t us, ts = t :: us ∧ t.kind = .mark .openCurly := by
  cases h with
  | block ho _ _ => exact ⟨_, _, rfl, ho⟩

/-- The first token of a statement is one that a statement can start with. -/
theorem exists_head_stmt {s : Stmt} (h : Spells L (.stmt s) ts d) :
    ∃ t us, ts = t :: us ∧ t.kind ≠ .mark .closeCurly ∧ t.kind ≠ .eof := by
  cases h with
  | letBinding ht | bareReturn ht | returnValue ht => exact ⟨_, _, rfl, by simp [ht], by simp [ht]⟩
  | expression h =>
    obtain ⟨t, us, rule, hts, hrule⟩ := h.exists_head
    obtain ⟨rfl, rfl⟩ := List.cons.inj hts
    refine ⟨_, _, rfl, fun hk => ?_, fun hk => ?_⟩ <;>
    · rw [hk] at hrule
      cases hrule

end Spells

/-- No end of the input is in further parameters. -/
theorem Spelling.MoreNames.ne_eof {ns : List Identifier} {ts : List Token} (h : MoreNames ns ts) :
    ∀ t ∈ ts, t.kind ≠ .eof := by
  induction h with
  | nil => simp
  | cons hc ht _ ih => simpa [hc, ht] using ih

/-- No end of the input is in parameters. -/
theorem Spelling.Names.ne_eof {ns : List Identifier} {ts : List Token} (h : Names ns ts) :
    ∀ t ∈ ts, t.kind ≠ .eof := by
  cases h with
  | nil => simp
  | cons ht h => simpa [ht] using h.ne_eof

/-- **No spelling goes past the end of the input,** but for junk. -/
theorem Spells.ne_eof {L : Leeway} (hj : ¬ L.junk) {f : Form} {ts : List Token} {d : Nat}
    (h : Spells L f ts d) : ∀ t ∈ ts, t.kind ≠ .eof := by
  have hmark : ∀ {t : Token} {m : Mark}, t.kind = .mark m → t.kind ≠ .eof := Kind.mark_ne_eof
  have hword : ∀ {t : Token} {w : Keyword}, t.kind = .keyword w → t.kind ≠ .eof := by
    rintro t w ht he
    rw [ht] at he
    cases he
  induction h with
  | identifier ht | integer ht | string ht | boolean ht | bareReturn ht => simp [ht]
  | prefixOp ht _ _ ih => exact List.forall_mem_cons.2 ⟨ht.elim hmark hmark, ih⟩
  | infixOp ht _ _ _ ihl ihr =>
    refine List.forall_mem_append.2 ⟨ihl, List.forall_mem_cons.2 ⟨fun he => ?_, ihr⟩⟩
    rw [he] at ht
    cases ht
  | call ho hc _ _ ihl ihr | index ho hc _ _ ihl ihr =>
    simpa [or_imp, forall_and, hmark ho, hmark hc] using ⟨ihl, ihr⟩
  | array ho hc _ ih | hash ho hc _ ih | grouped ho hc _ ih | block ho hc _ ih =>
    simpa [or_imp, forall_and, hmark ho, hmark hc] using ih
  | conditional ht _ _ ihe ihb => simpa [or_imp, forall_and, hword ht] using ⟨ihe, ihb⟩
  | alternative ht ho _ _ _ ihe ihb iha =>
    simpa [or_imp, forall_and, hword ht, hword ho] using ⟨ihe, ihb, iha⟩
  | function ht ho hc hn _ ih =>
    simpa [or_imp, forall_and, hword ht, hmark ho, hmark hc] using ⟨hn.ne_eof, ih⟩
  | noExprs | noMore | noPairs | noStmts => simp
  | exprs _ _ ihe ihs => exact List.forall_mem_append.2 ⟨ihe, ihs⟩
  | more hc _ _ ihe ihs => simpa [or_imp, forall_and, hmark hc] using ⟨ihe, ihs⟩
  | lastPair hc _ _ ihk ihv => simpa [or_imp, forall_and, hmark hc] using ⟨ihk, ihv⟩
  | pairs hc hm _ _ _ ihk ihv ihs =>
    simpa [or_imp, forall_and, hmark hc, hmark hm] using ⟨ihk, ihv, ihs⟩
  | letBinding ht hi ha _ ih => simpa [or_imp, forall_and, hword ht, hi, hmark ha] using ih
  | returnValue ht _ ih => exact List.forall_mem_cons.2 ⟨hword ht, ih⟩
  | expression _ ih => exact ih
  | stmts _ hu _ ihs ihb =>
    cases hu with
    | semicolon ht => simpa [or_imp, forall_and, hmark ht] using ⟨ihs, ihb⟩
    | none => simpa [or_imp, forall_and] using ⟨ihs, ihb⟩
  | junk h => exact absurd h hj

end MonkeySyntax

/-
# Where statements begin

The journal notes the token at which each statement is begun, at the top and in a block at any
depth.  No two of them begin at the same token, and none at an end of the input: the tokens noted
are picked from those of the input, in their order (`statements_begin_apart`).  So at most `n`
statements are begun in a text of `n` tokens.  The statements of the program are among them, and so
are those that were dropped, each of which left one error: there are at most `n` of both together.

Between two parsers `p` and `q`, statements begin at some of the tokens that were read in between.
Which of them comes into question depends on what was read:

| what was read | statements begin |
| --- | --- |
| an expression, a block | after its first token (`Course.within`) |
| a statement | at its first token or later (`fromHead`) |
| what is in a block, a program | anywhere (`Course.along`) |

What was read ends before the current token of `q`.  A statement may fail at a `}` and leave it to
the block around it, and then that token was not read.  The statement did not begin at it either,
since a block ends where a statement would begin with a `}`.
-/

import MonkeySyntax.Proofs.Reads
import MonkeySyntax.Proofs.Tally

namespace MonkeySyntax

/-- The token at which a statement was begun. -/
def Event.beginning? : Event → Option Token
  | .began t => some t
  | _ => none

/-- The tokens at which statements were begun, first things first. -/
def begun (events : List Event) : List Token := (events.filterMap Event.beginning?).reverse

/-- What was noted last is at the head of a journal, and last among the beginnings. -/
theorem begun_append (es fs : List Event) : begun (es ++ fs) = begun fs ++ begun es := by
  rw [begun, List.filterMap_append, List.reverse_append, begun, begun]

variable {σ : Type}

/-- From `p` to `q`, statements were begun at tokens picked from `ts`.  They are at least `n` more
than those that were dropped. -/
def Parser.Begins (n : Nat) (p q : Parser σ) (ts : List Token) : Prop :=
  ∃ events, q.journal = events ++ p.journal ∧ Token.Picked (begun events) ts ∧
    n + events.count .dropped ≤ (begun events).length

namespace Parser.Begins

variable {m n : Nat} {p q r : Parser σ} {t : Token} {ts us : List Token}

/-- A step that leaves the journal alone begins no statement. -/
theorem of_eq (h : q.journal = p.journal) (ts : List Token) : p.Begins 0 q ts :=
  ⟨[], h, .nil ts, Nat.le_refl 0⟩

/-- Statements begun on the way to `q` and from there on were begun on the whole way. -/
theorem append (h : p.Begins m q ts) (k : q.Begins n r us) : p.Begins (m + n) r (ts ++ us) := by
  obtain ⟨es, hes, hts, hm⟩ := h
  obtain ⟨fs, hfs, hus, hn⟩ := k
  refine ⟨fs ++ es, by rw [hfs, hes, List.append_assoc], ?_, ?_⟩
  · rw [begun_append]
    exact hts.append hus
  · rw [begun_append, List.length_append, List.count_append]
    omega

/-- Fewer statements, begun at tokens of a longer list. -/
theorem mono (h : p.Begins n q ts) (hts : ts.Sublist us) (hm : m ≤ n) : p.Begins m q us := by
  obtain ⟨es, hes, hpicked, hn⟩ := h
  exact ⟨es, hes, hpicked.mono hts, Nat.le_trans (Nat.add_le_add_right hm _) hn⟩

/-- To begin a statement at a token of the input is to begin one more than is dropped. -/
theorem began (p : Parser σ) (ht : t.kind ≠ .eof) : p.Begins 1 (p.note (.began t)) [t] :=
  ⟨[.began t], rfl, .cons ht (.nil []), Nat.le_refl 1⟩

/-- That a statement was read is no beginning. -/
theorem kept (p : Parser σ) : p.Begins 0 (p.note .kept) [] := ⟨[.kept], rfl, .nil [], Nat.le_refl 0⟩

/-- A statement that is dropped was begun, but does not count. -/
theorem dropped (h : p.Begins (n + 1) q ts) : p.Begins n (q.note .dropped) ts := by
  obtain ⟨es, hes, hpicked, hn⟩ := h
  refine ⟨.dropped :: es, congrArg (_ :: ·) hes, hpicked, ?_⟩
  rw [List.count_cons_self, ← Nat.add_assoc, Nat.add_right_comm]
  exact hn

/-- That the depths changed is no beginning. -/
theorem atDepths (p : Parser σ) (m n : Nat) : p.Begins 0 (p.atDepths m n) [] :=
  ⟨[.depths m n], rfl, .nil [], Nat.le_refl 0⟩

end Parser.Begins

variable [TokenSource σ]

/-- The tokens `ts` with `t` for the first of them, or `t` alone. -/
def fromHead (t : Token) (ts : List Token) : List Token := t :: ts.tail

/-- From `p` to `q`, statements were begun at those of the tokens in between that `f` leaves, and
they are at least `n` more than those that were dropped. -/
def Parser.BeginsIn (f : List Token → List Token) (n : Nat) (p q : Parser σ) : Prop :=
  ∃ ts, p.window.Reads ts q.window ∧ p.Begins n q (f ts)

namespace Parser.BeginsIn

variable {f : List Token → List Token} {n : Nat} {p q : Parser σ}

/-- What is noted of the depths before and after does not matter. -/
theorem inDepths {m m' k k' : Nat} (h : (p.atDepths m m').BeginsIn f n q) :
    p.BeginsIn f n (q.atDepths k k') := by
  obtain ⟨ts, hts, hbegins⟩ := h
  refine ⟨ts, hts, ?_⟩
  have hall := ((Begins.atDepths p m m').append hbegins).append (.atDepths q k k')
  rwa [Nat.zero_add, List.nil_append, List.append_nil] at hall

/-- A statement that begins at the current token begins on the way past its last token, -/
theorem along_advance (h : p.BeginsIn (fromHead p.current) n q) : p.BeginsIn id n q.advance := by
  obtain ⟨ts, hts, hbegins⟩ := h
  refine ⟨ts ++ [q.current], hts.append (.one _), hbegins.mono ?_ (Nat.le_refl n)⟩
  obtain ⟨hw, rfl⟩ | hcons := hts.nil_or_cons
  · rw [show q.current = p.current from congrArg Window.current hw]
    exact .refl _
  · rw [show fromHead p.current ts = ts from hcons]
    exact List.sublist_append_left ..

/-- and on the way up to its last token, if that is another one. -/
theorem along_of_ne (h : p.BeginsIn (fromHead p.current) n q) (hne : q.current ≠ p.current) :
    p.BeginsIn id n q := by
  obtain ⟨ts, hts, hbegins⟩ := h
  refine ⟨ts, hts, hbegins.mono ?_ (Nat.le_refl n)⟩
  obtain ⟨hw, -⟩ | hcons := hts.nil_or_cons
  · exact absurd (congrArg Window.current hw) hne
  · rw [show fromHead p.current ts = ts from hcons]
    exact .refl ts

/-- What begins on the way from the next token on begins after the first one from here on. -/
theorem tail_of_advance (h : p.advance.BeginsIn id n q) : p.BeginsIn List.tail n q := by
  obtain ⟨ts, hts, hbegins⟩ := h
  exact ⟨p.current :: ts, .cons hts, hbegins⟩

end Parser.BeginsIn

namespace Course

/-- The course of statements that begin at tokens left by `f`. -/
def beginnings (f : List Token → List Token)
    (hf : ∀ ts us, (f ts ++ f us).Sublist (f (ts ++ us))) : Course σ where
  kept := Parser.BeginsIn f
  lost := Parser.BeginsIn f 0
  refl _ := ⟨[], .nil _, .of_eq rfl _⟩
  trans := fun ⟨ts, hts, h⟩ ⟨us, hus, k⟩ =>
    ⟨ts ++ us, hts.append hus, (h.append k).mono (hf ts us) (Nat.le_refl _)⟩
  trans_lost := fun ⟨ts, hts, h⟩ ⟨us, hus, k⟩ =>
    ⟨ts ++ us, hts.append hus, (h.append k).mono (hf ts us) (Nat.zero_le _)⟩
  less hmn := fun ⟨ts, hts, h⟩ => ⟨ts, hts, h.mono (.refl _) hmn⟩
  kept_advance _ := ⟨_, .one _, .of_eq rfl _⟩
  lost_report _ _ := ⟨[], .nil _, .of_eq rfl _⟩
  lost_advance := fun ⟨ts, hts, h⟩ =>
    ⟨ts ++ _, hts.append (.one _), (h.append (.of_eq rfl _)).mono (hf ts _) (Nat.le_refl 0)⟩

/-- Statements begin anywhere. -/
def along : Course σ := beginnings id fun _ _ => .refl _

/-- Statements begin after the first token. -/
def within : Course σ := beginnings List.tail fun ts us => by
  cases ts with
  | nil => exact List.Sublist.refl _
  | cons t ts => exact (List.Sublist.refl ts).append (List.tail_sublist us)

end Course

namespace Parsing

open MonkeySyntax.Action

variable {expr : Power → Phrase σ Expr}
  (h : ∀ bp, Course.within.Follows (fun e => e.stmts.length) (expr bp).toAction)

include h

/-- **A statement begins at its first token,** and those in it after that. -/
theorem attempt_statement_begins {p : Parser σ} (hp : p.current.kind ≠ .eof) :
    (attempt (statement expr)).Ends p
      (fun s q => p.BeginsIn (fromHead p.current) (Stmt.count s) q)
      fun _ => False := by
  have hbegan := Parser.Begins.began p hp
  refine (ends_attempt ..).2 <| (ends_noted ..).2 <|
    (Course.follows_anyStatement h (p.note (.began p.current))).mono ?_ ?_
  · rintro s q ⟨ts, hts, hin⟩
    refine ⟨ts, hts, ?_⟩
    have hall := (hbegan.append hin).append (.kept q)
    simpa [fromHead, Stmt.count, Stmt.stmtsAll, Nat.add_comm] using hall
  · rintro q ⟨ts, hts, hin⟩
    exact ⟨ts, hts, (hbegan.append hin).dropped⟩

/-- The statements of a block begin on the way from one to the next. -/
theorem blockItem_along {p : Parser σ} (hp : inBody p = true) :
    (blockItem expr).Ends p
      (fun s q => Course.along.kept (Stmt.count s) p q) (Course.along.lost p) := by
  simp only [blockItem, ends_bind, ends_currentIs]
  by_cases he : p.current.kind = .eof
  · simpa [he] using Course.along.lost_report p _
  · simp only [he, decide_false, Bool.false_eq_true, if_false, ends_bind]
    refine (attempt_statement_begins h he).mono (fun s q hs => ?_) fun _ => False.elim
    simp only [afterStatement, ends_bind, ends_currentIs]
    split
    · exact hs.along_advance
    · rename_i hc
      have hclose : q.current.kind = .mark .closeCurly := by
        simp only [Bool.or_eq_true, Bool.not_eq_true', decide_eq_false_iff_not, not_or,
          Decidable.not_not] at hc
        exact hc.1
      exact hs.along_of_ne fun heq => of_decide_eq_true hp (heq ▸ hclose)

/-- **The statements of a block begin after its first token,** which is the bracket. -/
theorem block_within :
    Course.within.Follows (fun b => b.stmts.length) (block expr).toAction :=
  Course.follows_block (Course.follows_many fun _ => blockItem_along h)
    (fun _ _ _ hq => (Parser.BeginsIn.inDepths hq).tail_of_advance)
    fun _ _ hq => (Parser.BeginsIn.inDepths hq).tail_of_advance

omit h in
/-- The statements inside of an expression begin after its first token, by induction on the room: a
block takes its bracket, and a deeper expression begins no earlier. -/
theorem exprAt_within (room : Nat) (bp : Power) :
    Course.within.Follows (fun e => e.stmts.length)
      (exprAt room bp : Phrase σ Expr).toAction := by
  induction room generalizing bp with
  | zero => exact Course.follows_reject _
  | succ room ih =>
    have hunder := Course.follows_exprUnder ih (block_within ih) bp
    intro p
    simp only [exprAt, ends_inExpr]
    exact (hunder p.enterExpr).mono (fun _ _ hq => Parser.BeginsIn.inDepths hq) fun _ hq =>
      Parser.BeginsIn.inDepths hq

omit h in
/-- **The statements inside of an expression begin after its first token.** -/
theorem expression_within (bp : Power) :
    Course.within.Follows (fun e => e.stmts.length)
      (expression bp : Phrase σ Expr).toAction := fun p => exprAt_within _ bp p

end Parsing

/-- **The statements of a program begin on the way through it.** -/
theorem Parser.statements_along (p : Parser σ) :
    Course.along.kept (Stmt.stmtsAll p.statements.1).length p p.statements.2 :=
  Course.along.kept_statements
    (fun _ hp => (Parsing.attempt_statement_begins Parsing.expression_within hp).mono
      (fun _ _ hq => hq.along_advance) fun _ _ => trivial)
    p

/-- A program is read up to an end of the input. -/
theorem Parser.current_statements (p : Parser σ) : p.statements.2.current.kind = .eof :=
  Parser.statements_ind (R := fun _ _ q => q.current.kind = .eof) (fun _ hp => hp)
    (fun _ _ => Action.ends_iff.2 ⟨fun _ _ _ _ _ h => h, fun _ _ _ _ h => h⟩) p

/-- **Statements begin apart.**  A list of tokens is read to an end of input, and the tokens at
which statements were begun are picked from it in order, none of them twice and no end of input
among them.  So there are at most as many errors and statements, at any depth of blocks, as tokens
that are no end of input. -/
theorem statements_begin_apart (ts : List Token) :
    (parse ts).2.current.kind = .eof ∧
    (begun (parse ts).2.journal).Sublist (ts.filter (·.kind ≠ .eof)) ∧
    (parse ts).2.errors.length + (parse ts).1.stmts.length ≤ ts.countP (·.kind ≠ .eof) := by
  obtain ⟨us, hus, events, hevents, hpicked, hn⟩ :=
    (Parser.start (Stream.ofList ts)).statements_along
  have hjournal : (parse ts).2.journal = events := hevents.trans (List.append_nil events)
  have hbegun := hus.picked hpicked
  refine ⟨Parser.current_statements _, hjournal ▸ hbegun, ?_⟩
  have herrors : (parse ts).2.errors.length = events.count .dropped := by
    rw [parse, Parsing.length_errors_program, ← parse, hjournal]
  have hlength := hbegun.length_le
  rw [← List.countP_eq_length_filter] at hlength
  rw [herrors, Nat.add_comm]
  exact Nat.le_trans hn hlength

end MonkeySyntax

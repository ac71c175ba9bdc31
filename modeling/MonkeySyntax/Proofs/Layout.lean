/-
# Layout does not matter

More layout between two tokens changes neither of them.  It may be put in wherever no token and no
comment is cut by it, if it begins with a blank, and then the tokens before the place stay where
they are and the others move by its length (`tokenize_insert`).

| place | what the blank at the start of the layout does |
| --- | --- |
| after a token | ends it, whatever followed it before |
| after a comment, before its line feed | is one more character of the comment |
| elsewhere | is one more blank |

A text that is cut at such a place is cut between the pieces that a cursor takes off it, with each
blank for a piece of its own.  `Seam` has a case for each of them, and the proof follows it.
-/

import MonkeySyntax.Proofs.Joints
import MonkeySyntax.Proofs.Streaming

namespace MonkeySyntax

open Text (byteLength isBlank)

/-- Blanks and comments, each comment with the line feed that ends it. -/
inductive Layout : List Char → Prop where
  | nil : Layout []
  | blank {ch : Char} {g : List Char} : isBlank ch → Layout g → Layout (ch :: g)
  | comment {body g : List Char} : (∀ ch ∈ body, ch ≠ '\n') → Layout g →
      Layout ('/' :: '/' :: (body ++ '\n' :: g))

namespace Layout

variable {g rest body : List Char}

/-- Layout is skipped, whatever follows it. -/
theorem gap (h : Layout g) (rest : List Char) : Gap rest g := by
  induction h with
  | nil => exact .nil
  | blank hch _ ih => exact .blank hch ih
  | comment hbody _ ih =>
    have hline : Gap rest ('\n' :: _) := .blank (by decide) ih
    exact .comment hbody (by simp) hline

/-- **An open comment takes in what layout follows it,** up to the first line feed. -/
theorem swallow (h : Layout g) (hbody : ∀ ch ∈ body, ch ≠ '\n')
    (hrest : ∀ ch ∈ rest.head?, ch = '\n') : Gap rest ('/' :: '/' :: (body ++ g)) := by
  induction h generalizing body with
  | nil => exact .comment hbody hrest .nil
  | @blank ch g hch hg ih =>
    by_cases hline : ch = '\n'
    · subst hline
      exact .comment hbody (by simp) (.blank hch (hg.gap rest))
    · have hlonger : ∀ x ∈ body ++ [ch], x ≠ '\n' :=
        List.forall_mem_append.2 ⟨hbody, List.forall_mem_singleton.2 hline⟩
      simpa using ih hlonger
  | @comment body' g hbody' hg ih =>
    have hlonger : ∀ x ∈ body ++ '/' :: '/' :: body', x ≠ '\n' := by
      refine List.forall_mem_append.2 ⟨hbody, ?_⟩
      exact List.forall_mem_cons.2 ⟨by decide, List.forall_mem_cons.2 ⟨by decide, hbody'⟩⟩
    have hline : Gap rest ('\n' :: g) := .blank (by decide) (hg.gap rest)
    simpa using Gap.comment hlonger (by simp) hline

end Layout

/-- The token `u` is the token `t` of a text into which `k` bytes have been put at the byte `p`.
The end of the input, which takes no byte, is behind all that is put in before it. -/
structure Token.Moved (p k : Nat) (t u : Token) : Prop where
  kind : u.kind = t.kind
  value : u.value = t.value
  before : t.kind ≠ .eof → t.endsAt ≤ p → u.span = t.span
  after : p ≤ t.beginsAt → u.beginsAt = t.beginsAt + k ∧ u.endsAt = t.endsAt + k
  named : u.span.start.file = t.span.start.file ∧ u.span.stop.file = t.span.stop.file

/-- A text without illegal tokens has none after it was moved. -/
theorem Token.legal_of_moved {p k : Nat} {ts us : List Token}
    (h : List.Forall₂ (Token.Moved p k) ts us) (hlegal : ∀ t ∈ ts, t.kind ≠ .illegal) :
    ∀ u ∈ us, u.kind ≠ .illegal := by
  induction h with
  | nil => exact List.forall_mem_nil _
  | @cons t u ts us hmoved _ ih =>
    obtain ⟨ht, hts⟩ := List.forall_mem_cons.1 hlegal
    exact List.forall_mem_cons.2 ⟨by rwa [hmoved.kind], ih hts⟩

namespace Cursor

variable {k p : Nat}

/-! ### The same text further on -/

/-- The cursor in a text with `k` bytes more before it. -/
def ahead (c : Cursor) (k : Nat) : Cursor := ⟨c.rest, c.pos + k, c.file⟩

/-- Past a piece of the text, it is as far further on as it was before. -/
theorem past_ahead (c : Cursor) (k : Nat) (a rest : List Char) :
    (c.ahead k).past a rest = (c.past a rest).ahead k := by
  unfold past ahead
  rw [Nat.add_right_comm]

/-- **What is read depends on the place for its span only.** -/
theorem next_ahead (c : Cursor) (k : Nat) : ∃ m, c.pos ≤ m ∧ m ≤ c.next.2.pos ∧
    c.next.1.span = .ofBytes c.file m c.next.2.pos ∧
    (c.ahead k).next = (⟨c.next.1.kind, c.next.1.value,
      .ofBytes c.file (m + k) (c.next.2.pos + k)⟩, c.next.2.ahead k) := by
  fun_induction next c with
  | case1 c hr => exact ⟨c.pos, Nat.le_refl _, Nat.le_refl _, rfl, next_of_nil hr⟩
  | case2 c ch tail hr hf d =>
    refine ⟨c.pos, Nat.le_refl _, Nat.le_add_right .., rfl, ?_⟩
    rw [next_of_none (c := c.ahead k) hr hf, past_ahead]
    rfl
  | case3 c ch tail hr p lexeme rest hf d kind value ht =>
    refine ⟨c.pos, Nat.le_refl _, Nat.le_add_right .., rfl, ?_⟩
    rw [next_of_first? (c := c.ahead k) hf, ht, past_ahead]
    rfl
  | case4 c ch tail hr p lexeme rest hf d ht ih =>
    obtain ⟨m, hle, hstop, hspan, hnext⟩ := ih
    refine ⟨m, Nat.le_trans (Nat.le_add_right ..) hle, hstop, hspan, ?_⟩
    rw [next_of_first? (c := c.ahead k) hf, ht, past_ahead]
    exact hnext

/-- A cursor and the rest of its text end at the same byte, before a token and after it. -/
theorem pos_next_add (c : Cursor) :
    c.next.2.pos + byteLength c.next.2.rest = c.pos + byteLength c.rest := by
  obtain ⟨used, hused, hpos, -⟩ := c.next_splits
  rw [hpos, hused, Text.byteLength_append, Nat.add_assoc]

/-- A token behind the place is moved on by what was put in. -/
theorem moved_next {c : Cursor} (hp : p ≤ c.pos)
    (hbound : c.pos + byteLength c.rest + k < 2 ^ 32) :
    Token.Moved p k c.next.1 (c.ahead k).next.1 := by
  obtain ⟨m, hle, hstop, hspan, hnext⟩ := c.next_ahead k
  have htotal := c.pos_next_add
  rw [hnext]
  refine ⟨rfl, rfl, fun hkind hends => ?_, fun _ => ?_, ?_⟩
  · rw [Token.endsAt_of_span hspan (by omega)] at hends
    have hlt := pos_lt_next hkind
    omega
  · rw [Token.beginsAt_of_span hspan (by omega), Token.endsAt_of_span hspan (by omega),
      Token.beginsAt_of_span rfl (by omega), Token.endsAt_of_span rfl (by omega)]
    exact ⟨rfl, rfl⟩
  · rw [hspan]
    exact ⟨rfl, rfl⟩

/-- **The tokens of a text move with it.** -/
theorem tokens_ahead {c : Cursor} (hp : p ≤ c.pos)
    (hbound : c.pos + byteLength c.rest + k < 2 ^ 32) :
    List.Forall₂ (Token.Moved p k) c.tokens (c.ahead k).tokens := by
  fun_induction tokens c with
  | case1 c heof =>
    have hmoved := moved_next hp hbound
    rw [tokens_of_eof (hmoved.kind.trans heof)]
    exact .cons hmoved .nil
  | case2 c hne ih =>
    have hmoved := moved_next hp hbound
    have htotal := c.pos_next_add
    have hlt := pos_lt_next hne
    obtain ⟨m, -, -, -, hnext⟩ := c.next_ahead k
    rw [tokens_of_ne_eof (c := c.ahead k) (by rwa [hmoved.kind])]
    refine .cons hmoved ?_
    rw [hnext]
    exact ih (by omega) (by omega)

/-- The next token does not begin before the cursor. -/
theorem le_beginsAt_next {c : Cursor} (hbound : c.pos + byteLength c.rest < 2 ^ 32) :
    c.pos ≤ c.next.1.beginsAt := by
  obtain ⟨m, hle, hstop, hspan, -⟩ := c.next_ahead 0
  have htotal := c.pos_next_add
  rw [Token.beginsAt_of_span hspan (by omega)]
  exact hle

/-- No token begins before the place that a cursor is at. -/
theorem le_beginsAt {c : Cursor} {t : Token} (ht : t ∈ c.tokens)
    (hbound : c.pos + byteLength c.rest < 2 ^ 32) : c.pos ≤ t.beginsAt := by
  fun_induction tokens c with
  | case1 c heof =>
    rw [List.mem_singleton.1 ht]
    exact le_beginsAt_next hbound
  | case2 c hne ih =>
    rcases List.mem_cons.1 ht with rfl | ht
    · exact le_beginsAt_next hbound
    · have htotal := c.pos_next_add
      exact Nat.le_trans (Nat.le_of_lt (pos_lt_next hne)) (ih ht (by omega))

end Cursor

/-! ### Where a text is cut -/

/-- The text `a ++ b` is cut after `a` between two of the pieces that a cursor takes off it, with
each blank for a piece of its own. -/
inductive Seam (b : List Char) : List Char → Prop where
  | here : Seam b []
  | blank {ch : Char} {a : List Char} : isBlank ch → Seam b a → Seam b (ch :: a)
  | comment {body a : List Char} : (∀ ch ∈ body, ch ≠ '\n') →
      (∀ ch ∈ (a ++ b).head?, ch = '\n') → Seam b a → Seam b ('/' :: '/' :: body ++ a)
  | token {p : Pattern} {s a : List Char} {kind : Kind} {value : String} :
      Pattern.first? (s ++ (a ++ b)) = some (p, s, a ++ b) →
      p.token? s = some (kind, value) → Seam b a → Seam b (s ++ a)

section

variable {b filler : List Char} {n : Nat} {file : String}

/-- Layout before a text moves its tokens. -/
theorem Layout.moves (h : Layout filler) (hbound : n + byteLength (filler ++ b) < 2 ^ 32) :
    List.Forall₂ (Token.Moved n (byteLength filler)) (⟨b, n, file⟩ : Cursor).tokens
      (⟨filler ++ b, n, file⟩ : Cursor).tokens := by
  rw [Text.byteLength_append] at hbound
  rw [Cursor.tokens_of_gap (c := ⟨filler ++ b, n, file⟩) (h.gap b) rfl]
  exact Cursor.tokens_ahead (c := ⟨b, n, file⟩) (Nat.le_refl n) (by simp only; omega)

/-- So does layout after a comment, into which it goes up to its first line feed. -/
theorem Layout.moves_comment {body : List Char} (h : Layout filler)
    (hbody : ∀ ch ∈ body, ch ≠ '\n') (hstop : ∀ ch ∈ b.head?, ch = '\n')
    (hbound : n + byteLength ('/' :: '/' :: body ++ (filler ++ b)) < 2 ^ 32) :
    List.Forall₂ (Token.Moved (n + byteLength ('/' :: '/' :: body)) (byteLength filler))
      (⟨'/' :: '/' :: body ++ b, n, file⟩ : Cursor).tokens
      (⟨'/' :: '/' :: body ++ (filler ++ b), n, file⟩ : Cursor).tokens := by
  have hsplit : '/' :: '/' :: body ++ (filler ++ b) = '/' :: '/' :: (body ++ filler) ++ b := by simp
  have hlength : byteLength ('/' :: '/' :: (body ++ filler)) =
      byteLength ('/' :: '/' :: body) + byteLength filler :=
    Text.byteLength_append ('/' :: '/' :: body) filler
  rw [Text.byteLength_append, Text.byteLength_append] at hbound
  have hahead := Cursor.tokens_ahead (p := n + byteLength ('/' :: '/' :: body))
    (c := ⟨b, n + byteLength ('/' :: '/' :: body), file⟩) (k := byteLength filler)
    (Nat.le_refl _) (by simp only; omega)
  rw [Cursor.tokens_congr (Cursor.next_of_comment (c := ⟨_ ++ b, n, file⟩) rfl hbody hstop),
    Cursor.tokens_of_gap (c := ⟨_, n, file⟩) (h.swallow hbody hstop) hsplit, Cursor.past,
    Cursor.past, hlength, ← Nat.add_assoc]
  exact hahead

/-- **Layout that is put in at a cut moves what is after it,** and nothing else. -/
theorem Seam.insert {a : List Char} (h : Seam b a) (hfiller : Layout filler)
    (hhead : ∀ ch ∈ filler.head?, isBlank ch)
    (hbound : n + byteLength (a ++ (filler ++ b)) < 2 ^ 32) :
    List.Forall₂ (Token.Moved (n + byteLength a) (byteLength filler))
      (⟨a ++ b, n, file⟩ : Cursor).tokens (⟨a ++ (filler ++ b), n, file⟩ : Cursor).tokens := by
  induction h generalizing n with
  | here => exact hfiller.moves hbound
  | @blank ch a hch hseam ih =>
    simp only [List.cons_append, Text.byteLength_cons] at hbound ⊢
    rw [Cursor.tokens_congr (Cursor.next_of_blank (c := ⟨ch :: (a ++ b), n, file⟩) rfl hch),
      Cursor.tokens_congr (Cursor.next_of_blank (c := ⟨ch :: (a ++ (filler ++ b)), n, file⟩) rfl
        hch), ← Nat.add_assoc]
    exact ih (by omega)
  | @comment body a hbody hstop hseam ih =>
    rw [List.append_assoc, List.append_assoc]
    rw [List.append_assoc] at hbound
    cases a with
    | nil =>
      rw [List.append_nil]
      exact hfiller.moves_comment hbody hstop hbound
    | cons x a =>
      rw [Text.byteLength_append] at hbound
      rw [Text.byteLength_append, ← Nat.add_assoc,
        Cursor.tokens_congr (Cursor.next_of_comment (c := ⟨_, n, file⟩) rfl hbody hstop),
        Cursor.tokens_congr
          (Cursor.next_of_comment (c := ⟨_ ++ (x :: a ++ (filler ++ b)), n, file⟩) rfl hbody hstop)]
      exact ih (by omega)
  | @token p s a kind value hfirst ht hseam ih =>
    rw [List.append_assoc, List.append_assoc]
    rw [List.append_assoc, Text.byteLength_append] at hbound
    -- the token ends where it did, for a blank does not make it longer
    have hfirst' : Pattern.first? (s ++ (a ++ (filler ++ b))) =
        some (p, s, a ++ (filler ++ b)) := by
      refine Pattern.first?_of_token? hfirst ht fun ch hch => ?_
      cases a with
      | cons x a => exact .inl hch
      | nil =>
        cases filler with
        | nil => exact .inl hch
        | cons x filler => exact .inr (hhead ch hch)
    have hpos : 0 < byteLength s :=
      Text.byteLength_pos (Pattern.split_eq_some (Pattern.first?_eq_some hfirst)).2
    rw [Text.byteLength_append, ← Nat.add_assoc,
      Cursor.tokens_of_first? (c := ⟨s ++ (a ++ b), n, file⟩) hfirst ht,
      Cursor.tokens_of_first? (c := ⟨s ++ (a ++ (filler ++ b)), n, file⟩) hfirst' ht]
    refine .cons ⟨rfl, rfl, fun _ _ => rfl, fun hafter => ?_, rfl, rfl⟩ (ih (by omega))
    rw [Token.beginsAt_of_span (Cursor.spanTo_past ..) (by simp only; omega)] at hafter
    simp only at hafter
    omega

end

/-! ### Places that cut nothing -/

/-- In the text `x ++ (s ++ y)`, which begins at the byte `n`, the piece `s` is a comment or a part
of one, up to the end of the line: it begins with two slashes, outside the tokens. -/
structure IsComment (ts : List Token) (n : Nat) (x s y : List Char) : Prop where
  slashes : ['/', '/'] <+: s
  line : '\n' ∉ s
  ends : ∀ ch ∈ y.head?, ch = '\n'
  outside : ∀ t ∈ ts, ¬(t.beginsAt ≤ n + byteLength x ∧ n + byteLength x < t.endsAt)

/-- The place after `a` in the text `a ++ b`, which begins at the byte `n`, is strictly inside no
token and no comment. -/
structure Clear (ts : List Token) (n : Nat) (a b : List Char) : Prop where
  token : ∀ t ∈ ts, ¬(t.beginsAt < n + byteLength a ∧ n + byteLength a < t.endsAt)
  comment : ∀ x s y, a ++ b = x ++ (s ++ y) → IsComment ts n x s y →
    ¬(byteLength x < byteLength a ∧ byteLength a < byteLength (x ++ s))

/-- What cuts nothing of a text cuts nothing of what follows its first tokens. -/
theorem Clear.drop {ts us : List Token} {n : Nat} {s a b : List Char} (h : Clear ts n (s ++ a) b)
    (hsub : us ⊆ ts) (hdrop : ∀ t ∈ ts, t ∈ us ∨ t.endsAt ≤ n + byteLength s) :
    Clear us (n + byteLength s) a b := by
  refine ⟨fun t ht => ?_, fun x c y hsplit hcomment hinside => ?_⟩
  · have hclear := h.token t (hsub ht)
    rwa [Text.byteLength_append, ← Nat.add_assoc] at hclear
  · have hwhole : s ++ a ++ b = (s ++ x) ++ (c ++ y) := by
      rw [List.append_assoc, hsplit, List.append_assoc]
    refine h.comment (s ++ x) c y hwhole ⟨hcomment.slashes, hcomment.line, hcomment.ends, ?_⟩ ?_
    · intro t ht
      rw [Text.byteLength_append, ← Nat.add_assoc]
      rcases hdrop t ht with hmem | hends
      · exact hcomment.outside t hmem
      · omega
    · simp only [Text.byteLength_append] at hinside ⊢
      omega

/-- Of two heads of a text, one begins the other. -/
theorem exists_of_append_eq {a b s rest : List Char} (h : a ++ b = s ++ rest) :
    (∃ m, a = s ++ m ∧ rest = m ++ b) ∨ ∃ m, m ≠ [] ∧ s = a ++ m := by
  rcases List.append_eq_append_iff.1 h with ⟨m, rfl, hm⟩ | ⟨m, rfl, hm⟩
  · by_cases hne : m = []
    · subst hne
      exact .inl ⟨[], by simp, by simpa using hm.symm⟩
    · exact .inr ⟨m, hne, rfl⟩
  · exact .inl ⟨m, rfl, hm⟩

section

variable {n : Nat} {file : String} {a b : List Char}

/-- A token at the head of a text is cut by no place that cuts nothing. -/
theorem Clear.exists_token {p : Pattern} {s rest : List Char} {kind : Kind} {value : String}
    (h : Clear (⟨a ++ b, n, file⟩ : Cursor).tokens n a b) (hne : a ≠ [])
    (hfirst : Pattern.first? (a ++ b) = some (p, s, rest)) (ht : p.token? s = some (kind, value))
    (hbound : n + byteLength (a ++ b) < 2 ^ 32) : ∃ m, a = s ++ m ∧ rest = m ++ b := by
  have hsplit := (Pattern.split_eq_some (Pattern.first?_eq_some hfirst)).1
  refine (exists_of_append_eq hsplit).resolve_right ?_
  rintro ⟨m, hm, rfl⟩
  rw [hsplit] at hbound
  simp only [Text.byteLength_append] at hbound
  rw [Cursor.tokens_of_first? (c := ⟨a ++ b, n, file⟩) hfirst ht] at h
  have hclear := h.token _ List.mem_cons_self
  rw [Token.beginsAt_of_span (Cursor.spanTo_past ..) (by simp only; omega),
    Token.endsAt_of_span (Cursor.spanTo_past ..) (by
      simp only [Text.byteLength_append]
      omega)] at hclear
  have hpos := Text.byteLength_pos hne
  have hmpos := Text.byteLength_pos hm
  simp only [Text.byteLength_append] at hclear
  omega

/-- Nor is a comment. -/
theorem Clear.exists_comment {body rest : List Char}
    (h : Clear (⟨a ++ b, n, file⟩ : Cursor).tokens n a b) (hne : a ≠ [])
    (hsplit : a ++ b = '/' :: '/' :: body ++ rest) (hbody : ∀ ch ∈ body, ch ≠ '\n')
    (hstop : ∀ ch ∈ rest.head?, ch = '\n') (hbound : n + byteLength (a ++ b) < 2 ^ 32) :
    ∃ m, a = '/' :: '/' :: body ++ m ∧ rest = m ++ b := by
  refine (exists_of_append_eq hsplit).resolve_right ?_
  rintro ⟨m, hm, hbroken⟩
  rw [hsplit] at hbound
  refine h.comment [] _ rest hsplit ⟨⟨body, rfl⟩, ?_, hstop, fun t ht => ?_⟩ ?_
  · intro hline
    have hline : '\n' ∈ body := by simpa using hline
    exact hbody _ hline rfl
  · rw [Cursor.tokens_congr (Cursor.next_of_comment (c := ⟨a ++ b, n, file⟩) hsplit hbody hstop)]
      at ht
    rw [Text.byteLength_append] at hbound
    have hle := Cursor.le_beginsAt ht (by simp only [Cursor.past]; omega)
    simp only [Cursor.past, Text.byteLength_cons] at hle
    have hslash : '/'.utf8Size = 1 := rfl
    simp only [Text.byteLength_nil]
    omega
  · have hlength : byteLength ('/' :: '/' :: body) = byteLength a + byteLength m := by
      rw [hbroken, Text.byteLength_append]
    have hmpos := Text.byteLength_pos hm
    refine ⟨Text.byteLength_pos hne, ?_⟩
    show byteLength a < byteLength ('/' :: '/' :: body)
    omega

end

/-- The text `a ++ b`, which begins at the byte `n`, has tokens that are all legal, and the place
after `a` cuts none of them and no comment. -/
structure Uncut (file : String) (n : Nat) (a b : List Char) : Prop where
  clear : Clear (⟨a ++ b, n, file⟩ : Cursor).tokens n a b
  legal : ∀ t ∈ (⟨a ++ b, n, file⟩ : Cursor).tokens, t.kind ≠ .illegal
  bound : n + byteLength (a ++ b) < 2 ^ 32

namespace Uncut

variable {file : String} {n : Nat} {s m b : List Char}

/-- A piece is taken off the text, and with it at most the tokens that end there. -/
theorem drop (h : Uncut file n (s ++ m) b)
    (hsub : (⟨m ++ b, n + byteLength s, file⟩ : Cursor).tokens ⊆
      (⟨s ++ m ++ b, n, file⟩ : Cursor).tokens)
    (hdrop : ∀ t ∈ (⟨s ++ m ++ b, n, file⟩ : Cursor).tokens,
      t ∈ (⟨m ++ b, n + byteLength s, file⟩ : Cursor).tokens ∨ t.endsAt ≤ n + byteLength s) :
    Uncut file (n + byteLength s) m b := by
  refine ⟨h.clear.drop hsub hdrop, fun t ht => h.legal t (hsub ht), ?_⟩
  have hbound := h.bound
  rw [List.append_assoc, Text.byteLength_append] at hbound
  omega

/-- What is skipped is no token. -/
theorem skip (h : Uncut file n (s ++ m) b)
    (hnext : (⟨s ++ m ++ b, n, file⟩ : Cursor).tokens =
      (⟨m ++ b, n + byteLength s, file⟩ : Cursor).tokens) : Uncut file (n + byteLength s) m b := by
  refine h.drop ?_ ?_ <;> rw [hnext]
  · exact List.Subset.refl _
  · exact fun t ht => .inl ht

/-- Past a token that ends before the place, the place still cuts nothing. -/
theorem token {p : Pattern} {kind : Kind} {value : String} (h : Uncut file n (s ++ m) b)
    (hfirst : Pattern.first? (s ++ m ++ b) = some (p, s, m ++ b))
    (ht : p.token? s = some (kind, value)) : Uncut file (n + byteLength s) m b := by
  have htokens := Cursor.tokens_of_first? (c := ⟨s ++ m ++ b, n, file⟩) hfirst ht
  have hbound := h.bound
  rw [List.append_assoc, Text.byteLength_append] at hbound
  refine h.drop ?_ ?_ <;> rw [htokens]
  · exact List.subset_cons_self ..
  · intro t hmem
    rcases List.mem_cons.1 hmem with rfl | hmem
    · exact .inr (Token.endsAt_of_span (n := n + byteLength s) rfl (by omega)).le
    · exact .inl hmem

/-- **A place that cuts no token and no comment is a cut between pieces.** -/
theorem seam {a : List Char} (h : Uncut file n a b) : Seam b a := by
  induction hlength : a.length using Nat.strong_induction_on generalizing n a with
  | _ length ih =>
    have hnext : ∀ {s m : List Char} {k : Nat}, s ≠ [] → a = s ++ m → Uncut file k m b →
        Seam b m := by
      intro s m k hs ha hdrop
      refine ih m.length ?_ hdrop rfl
      have hpos := List.length_pos_iff.2 hs
      rw [← hlength, ha, List.length_append]
      omega
    by_cases hne : a = []
    · rw [hne]
      exact .here
    cases hfirst : Pattern.first? (a ++ b) with
    | none =>
      obtain ⟨ch, a, rfl⟩ := List.exists_cons_of_ne_nil hne
      have hillegal := Cursor.next_of_none (c := ⟨ch :: a ++ b, n, file⟩) rfl hfirst
      refine absurd ?_ (h.legal _ (Cursor.next_mem_tokens _))
      rw [hillegal]
    | some piece =>
      obtain ⟨p, s, rest⟩ := piece
      obtain ⟨hsplit, hs⟩ := Pattern.split_eq_some (Pattern.first?_eq_some hfirst)
      cases ht : p.token? s with
      | some t =>
        obtain ⟨m, rfl, rfl⟩ := h.clear.exists_token hne hfirst ht h.bound
        have hseam := hnext hs rfl (h.token hfirst ht)
        rw [List.append_assoc] at hfirst
        exact .token hfirst ht hseam
      | none =>
        cases p with
        | word | number | quoted | mark => cases ht
        | blanks =>
          -- of a run of blanks the cut may be inside, so only the first of them is taken off
          obtain ⟨ch, m, rfl⟩ := List.exists_cons_of_ne_nil hne
          obtain ⟨x, tail, rfl, hx, -⟩ :=
            Pattern.mem_mul_kstar_iff.1 (Pattern.mem_of_first? hfirst)
          obtain ⟨rfl, -⟩ := List.cons.inj hsplit
          have hsplit : ch :: m = [ch] ++ m := rfl
          have hblank := Cursor.next_of_blank (c := ⟨[ch] ++ m ++ b, n, file⟩) rfl hx
          exact .blank hx (hnext (List.cons_ne_nil ch []) hsplit
            (h.skip (s := [ch]) (Cursor.tokens_congr hblank)))
        | comment =>
          obtain ⟨body, rfl, hbody⟩ := Pattern.mem_comment_iff.1 (Pattern.mem_of_first? hfirst)
          have hstop := Pattern.stop_of_first?_comment hfirst
          obtain ⟨m, rfl, rfl⟩ := h.clear.exists_comment hne hsplit hbody hstop h.bound
          have hcomment := Cursor.next_of_comment (c := ⟨_ ++ m ++ b, n, file⟩) hsplit hbody hstop
          exact .comment hbody hstop (hnext hs rfl (h.skip (Cursor.tokens_congr hcomment)))

end Uncut

/-- **Layout does not matter.**  Let a text be turned into `tokens`, and let the place after its
head `a` be strictly inside none of them and inside no comment.  Then the text with a filler put in
at this place, which begins with a blank and is layout, is turned into tokens of the same kinds and
values.  Those that end at the place or before it have the same spans, and those that begin at it
or after it, the end of the input among them, stand further on by the length of the filler. -/
theorem tokenize_insert (file : Option String) {a b filler : List Char} {tokens : List Token}
    (htokens : tokenize (String.ofList (a ++ b)) file = .ok tokens) (hclear : Clear tokens 0 a b)
    (hfiller : Layout filler) (hhead : ∀ ch ∈ filler.head?, isBlank ch)
    (hbound : byteLength (a ++ (filler ++ b)) < 2 ^ 32) :
    ∃ moved, tokenize (String.ofList (a ++ (filler ++ b))) file = .ok moved ∧
      List.Forall₂ (Token.Moved (byteLength a) (byteLength filler)) tokens moved := by
  have hcursor : ∀ cs, Cursor.ofText (String.ofList cs) file = ⟨cs, 0, file.getD "shell"⟩ :=
    fun cs => by rw [Cursor.ofText, String.toList_ofList]
  obtain ⟨rfl, hlegal⟩ := tokenize_eq_ok_iff.1 htokens
  rw [hcursor] at hclear hlegal ⊢
  have hshort : 0 + byteLength (a ++ b) < 2 ^ 32 := by
    simp only [Text.byteLength_append] at hbound ⊢
    omega
  have hlong : 0 + byteLength (a ++ (filler ++ b)) < 2 ^ 32 := by rwa [Nat.zero_add]
  have hmoved : List.Forall₂ (Token.Moved (0 + byteLength a) (byteLength filler))
      (⟨a ++ b, 0, file.getD "shell"⟩ : Cursor).tokens _ :=
    (Uncut.seam ⟨hclear, hlegal, hshort⟩).insert hfiller hhead hlong
  rw [Nat.zero_add] at hmoved
  exact ⟨_, tokenize_eq_ok_iff.2 ⟨by rw [hcursor], Token.legal_of_moved hmoved hlegal⟩, hmoved⟩

/-- The hypotheses of `tokenize_insert` are satisfiable: before the slash of `a/b` a comment is put
in, with a blank before it.  The tokens stay `a`, `/`, `b` and the end, the last three moved on. -/
theorem tokenize_insert_slash : ∃ tokens moved, tokenize "a/b" none = .ok tokens ∧
    Clear tokens 0 ['a'] ['/', 'b'] ∧ Layout [' ', '/', '/', 'w', '\n'] ∧
    tokenize "a //w\n/b" none = .ok moved ∧ List.Forall₂ (Token.Moved 1 5) tokens moved ∧
    tokens.map (fun t => (t.kind, t.value, t.start.offset)) =
      [(.identifier, "a", 0), (.mark .slash, "/", 1), (.identifier, "b", 2), (.eof, "", 3)] ∧
    moved.map (fun t => (t.kind, t.value, t.start.offset)) =
      [(.identifier, "a", 0), (.mark .slash, "/", 6), (.identifier, "b", 7), (.eof, "", 8)] := by
  have hcomment : Layout ('/' :: '/' :: (['w'] ++ '\n' :: [])) := .comment (by simp) .nil
  have hlayout : Layout [' ', '/', '/', 'w', '\n'] := .blank (by decide) hcomment
  have htokens : tokenize (String.ofList (['a'] ++ ['/', 'b'])) none =
      .ok (Cursor.ofText "a/b" none).tokens :=
    tokenize_eq_ok_iff.2 ⟨rfl, by decide +kernel⟩
  have hclear : Clear (Cursor.ofText "a/b" none).tokens 0 ['a'] ['/', 'b'] := by
    refine ⟨by decide +kernel, fun x s y hsplit hcomment _ => ?_⟩
    have hinfix : ['/', '/'] <:+: ['a', '/', 'b'] := by
      rw [show ['a', '/', 'b'] = x ++ (s ++ y) from hsplit]
      exact (hcomment.slashes.isInfix.trans (List.infix_append' [] s y)).trans
        (List.suffix_append x _).isInfix
    revert hinfix
    decide
  have hhead : ∀ ch ∈ [' ', '/', '/', 'w', '\n'].head?, isBlank ch := by
    rintro ch ⟨⟩
    decide
  obtain ⟨moved, hmoved, hpairs⟩ := tokenize_insert none htokens hclear hlayout hhead (by decide)
  obtain rfl := (tokenize_eq_ok_iff.1 hmoved).1
  exact ⟨_, _, htokens, hclear, hlayout, hmoved, hpairs, by decide +kernel, by decide +kernel⟩

end MonkeySyntax

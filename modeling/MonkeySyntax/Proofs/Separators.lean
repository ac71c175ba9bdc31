/-
# Commas outside of brackets

Brackets of three sorts stand around lists, blocks and groups.  Where they match, each with one of
its own sort, the tokens outside of them are determined (`Outside.unique`), and so is the partner of
a bracket (`Outside.partner_unique`).  Only a comma outside of the brackets inside it belongs to a
list.

| what is spelled | commas outside of its brackets |
| --- | --- |
| an expression, a block, statements | none |
| `n` expressions or names | one between any two (`Separates n`) |
| `n` pairs | one between any two, and perhaps one more after the last (`SeparatesOrEnds n`) |
-/

import Mathlib.Data.List.Chain
import MonkeySyntax.Proofs.WellFormed

namespace MonkeySyntax

/-- The mark that closes what a mark opens. -/
def Mark.closing? : Mark → Option Mark
  | openParen => some closeParen
  | openBracket => some closeBracket
  | openCurly => some closeCurly
  | _ => none

namespace Kind

/-- A bracket of this kind is closed by one of the kind `k`. -/
def ClosedBy (k k' : Kind) : Prop := ∃ m m', k = mark m ∧ k' = mark m' ∧ m.closing? = some m'

/-- Tokens of this kind are no brackets. -/
def Plain : Kind → Prop
  | mark m => m.closing? = none ∧ m ∉ [.closeParen, .closeBracket, .closeCurly]
  | _ => True

instance (k : Kind) : Decidable k.Plain := by
  unfold Plain
  split <;> infer_instance

variable {k k' : Kind}

/-- Neither of two brackets is plain. -/
theorem ClosedBy.not_plain (h : k.ClosedBy k') : ¬ k.Plain ∧ ¬ k'.Plain := by
  obtain ⟨m, m', rfl, rfl, hm⟩ := h
  cases m <;> cases hm <;> decide

/-- What closes a bracket opens none. -/
theorem ClosedBy.not_closedBy {l : Kind} (h : k.ClosedBy k') : ¬ k'.ClosedBy l := by
  obtain ⟨m, m', rfl, rfl, hm⟩ := h
  rintro ⟨n, n', hn, -, hclosing⟩
  obtain rfl := Kind.mark.inj hn
  cases m <;> cases hm <;> cases hclosing

end Kind

/-- The brackets among the tokens `ts` match, and `us` are the tokens outside of them, the outermost
brackets included. -/
inductive Outside : List Token → List Token → Prop
  | nil : Outside [] []
  | token {t : Token} {ts us : List Token} : t.kind.Plain → Outside ts us →
      Outside (t :: ts) (t :: us)
  | group {o c : Token} {ts us inner vs : List Token} : o.kind.ClosedBy c.kind →
      Outside inner vs → Outside ts us → Outside (o :: (inner ++ c :: ts)) (o :: c :: us)

namespace Outside

variable {t o c c' : Token} {ts ts' us us' vs : List Token}

/-- A token that is no bracket is outside of brackets by itself. -/
theorem sole (ht : t.kind.Plain) : Outside [t] [t] := .token ht .nil

/-- What is outside of two lists in a row is outside of each. -/
theorem append (h : Outside ts us) (k : Outside ts' us') : Outside (ts ++ ts') (us ++ us') := by
  induction h with
  | nil => exact k
  | token ht _ ih => exact .token ht ih
  | group hoc hinner _ _ ih =>
    rw [List.cons_append, List.append_assoc, List.cons_append]
    exact .group hoc hinner ih

/-- What stands in brackets is left out. -/
theorem enclosed (hoc : o.kind.ClosedBy c.kind) (h : Outside ts us) :
    Outside (o :: (ts ++ [c])) [o, c] := .group hoc h .nil

/-- **The partner of a bracket is determined:** tokens with matching brackets and a closing bracket
after them begin no others. -/
theorem partner_unique {o' : Token} {xs ys xs' ys' : List Token} (h : Outside xs us)
    (h' : Outside xs' us') (hc : o.kind.ClosedBy c.kind) (hc' : o'.kind.ClosedBy c'.kind)
    (heq : xs ++ c :: ys = xs' ++ c' :: ys') : xs = xs' ∧ c = c' ∧ ys = ys' := by
  induction h generalizing c c' ys xs' ys' us' o o' with
  | nil =>
    cases h' with
    | nil => exact ⟨rfl, List.cons.inj heq⟩
    | token ht =>
      obtain ⟨rfl, -⟩ := List.cons.inj heq
      exact absurd ht hc.not_plain.2
    | group hoc =>
      obtain ⟨rfl, -⟩ := List.cons.inj heq
      exact absurd hoc hc.not_closedBy
  | token ht _ ih =>
    cases h' with
    | nil =>
      obtain ⟨rfl, -⟩ := List.cons.inj heq
      exact absurd ht hc'.not_plain.2
    | token _ h' =>
      obtain ⟨rfl, htail⟩ := List.cons.inj heq
      obtain ⟨rfl, hrest⟩ := ih h' hc hc' htail
      exact ⟨rfl, hrest⟩
    | group hoc =>
      obtain ⟨rfl, -⟩ := List.cons.inj heq
      exact absurd ht hoc.not_plain.1
  | group hoc _ _ ihinner ih =>
    cases h' with
    | nil =>
      obtain ⟨rfl, -⟩ := List.cons.inj heq
      exact absurd hoc hc'.not_closedBy
    | token ht =>
      obtain ⟨rfl, -⟩ := List.cons.inj heq
      exact absurd ht hoc.not_plain.1
    | group hoc' hinner' h' =>
      simp only [List.cons_append, List.append_assoc, List.cons.injEq] at heq
      obtain ⟨rfl, heq⟩ := heq
      obtain ⟨rfl, rfl, htail⟩ := ihinner hinner' hoc hoc' heq
      obtain ⟨rfl, hrest⟩ := ih h' hc hc' htail
      exact ⟨rfl, hrest⟩

/-- **The tokens outside of brackets are determined.** -/
theorem unique (h : Outside ts us) (h' : Outside ts us') : us = us' := by
  induction h generalizing us' with
  | nil =>
    cases h'
    rfl
  | token ht _ ih =>
    cases h' with
    | token _ h' => rw [ih h']
    | group hoc => exact absurd ht hoc.not_plain.1
  | group hoc hinner _ _ ih =>
    generalize hts : _ :: (_ ++ _ :: _) = ts at h'
    cases h' with
    | nil => cases hts
    | token ht =>
      obtain ⟨rfl, -⟩ := List.cons.inj hts
      exact absurd ht hoc.not_plain.1
    | group hoc' hinner' h' =>
      obtain ⟨rfl, heq⟩ := List.cons.inj hts
      obtain ⟨-, rfl, rfl⟩ := partner_unique hinner hinner' hoc hoc' heq
      rw [ih h']

end Outside

/-! ### Separators -/

/-- The tokens of an item of a list: there are some, and no comma among them. -/
structure Item (us : List Token) : Prop where
  ne_nil : us ≠ []
  plain : ∀ t ∈ us, t.kind ≠ .mark .comma

/-- Among the tokens `us` there are commas between `n` items, none of which is empty: no comma
leads, none trails, and no two stand together. -/
structure Separates (n : Nat) (us : List Token) : Prop where
  commas : us.countP (·.kind = .mark .comma) = n - 1
  empty : us = [] ↔ n = 0
  leading : ∀ t ∈ us.head?, t.kind ≠ .mark .comma
  trailing : ∀ t ∈ us.getLast?, t.kind ≠ .mark .comma
  doubled : us.IsChain fun t u => ¬(t.kind = .mark .comma ∧ u.kind = .mark .comma)

/-- The tokens `us` are `n` items with a comma before each. -/
def MoreItems (n : Nat) (us : List Token) : Prop :=
  n = 0 ∧ us = [] ∨ ∃ c vs, us = c :: vs ∧ c.kind = .mark .comma ∧ 0 < n ∧ Separates n vs

/-- As `Separates`, but one more comma may come last. -/
def SeparatesOrEnds (n : Nat) (us : List Token) : Prop :=
  Separates n us ∨ ∃ vs c, us = vs ++ [c] ∧ c.kind = .mark .comma ∧ 0 < n ∧ Separates n vs

namespace Item

variable {t : Token} {us vs : List Token}

/-- A token that is no comma is an item by itself. -/
theorem sole (ht : t.kind ≠ .mark .comma) : Item [t] :=
  ⟨List.cons_ne_nil t [], List.forall_mem_singleton.2 ht⟩

/-- Whatever is no comma may follow an item. -/
theorem append (h : Item us) (hvs : ∀ t ∈ vs, t.kind ≠ .mark .comma) : Item (us ++ vs) :=
  ⟨List.append_ne_nil_of_left_ne_nil h.ne_nil vs, List.forall_mem_append.2 ⟨h.plain, hvs⟩⟩

/-- A token that is no comma may come before an item. -/
theorem cons (ht : t.kind ≠ .mark .comma) (h : Item us) : Item (t :: us) :=
  (sole ht).append h.plain

/-- In an item no two commas stand together. -/
theorem isChain (h : Item us) :
    us.IsChain fun t u => ¬(t.kind = .mark .comma ∧ u.kind = .mark .comma) := by
  refine List.Pairwise.isChain (List.pairwise_of_forall_mem_list fun t ht u _ hboth => ?_)
  exact h.plain t ht hboth.1

/-- There are no commas in an item. -/
theorem countP (h : Item us) : us.countP (·.kind = .mark .comma) = 0 :=
  List.countP_eq_zero.2 fun t ht => by simpa using h.plain t ht

end Item

namespace Separates

variable {n : Nat} {c : Token} {us vs : List Token}

/-- Nothing needs no comma. -/
theorem nil : Separates 0 [] := ⟨rfl, iff_of_true rfl rfl, by simp, by simp, .nil⟩

/-- A single item needs no comma. -/
theorem one (h : Item us) : Separates 1 us where
  commas := h.countP
  empty := iff_of_false h.ne_nil Nat.one_ne_zero
  leading t ht := h.plain t (List.mem_of_mem_head? ht)
  trailing t ht := h.plain t (List.mem_of_mem_getLast? ht)
  doubled := h.isChain

/-- One more item comes first. -/
theorem cons (h : Item us) (hc : c.kind = .mark .comma) (hn : 0 < n) (hvs : Separates n vs) :
    Separates (n + 1) (us ++ c :: vs) where
  commas := by
    rw [List.countP_append, List.countP_cons_of_pos (by simpa using hc), h.countP, hvs.commas]
    omega
  empty := iff_of_false (by simp) (Nat.succ_ne_zero n)
  leading t ht := by
    obtain ⟨x, us, rfl⟩ := List.exists_cons_of_ne_nil h.ne_nil
    exact h.plain t (List.mem_of_mem_head? ht)
  trailing t ht := by
    have hne : vs ≠ [] := fun hnil => Nat.ne_of_gt hn (hvs.empty.1 hnil)
    refine hvs.trailing t ?_
    rwa [List.getLast?_append_of_ne_nil _ (List.cons_ne_nil c vs),
      List.getLast?_cons_of_ne_nil hne] at ht
  doubled := by
    refine List.isChain_append.2 ⟨h.isChain, List.isChain_cons.2 ⟨?_, hvs.doubled⟩, ?_⟩
    · exact fun t ht hboth => hvs.leading t ht hboth.2
    · exact fun t ht u _ hboth => h.plain t (List.mem_of_mem_getLast? ht) hboth.1

/-- An item and then others with commas before them are separated. -/
theorem of_moreItems (h : Item us) (hvs : MoreItems n vs) : Separates (n + 1) (us ++ vs) := by
  rcases hvs with ⟨rfl, rfl⟩ | ⟨c, ws, rfl, hc, hn, hws⟩
  · rw [List.append_nil]
    exact .one h
  · exact hws.cons h hc hn

end Separates

/-- One more item comes first, with a comma after it in any case. -/
theorem SeparatesOrEnds.cons {n : Nat} {c : Token} {us vs : List Token} (h : Item us)
    (hc : c.kind = .mark .comma) (hvs : SeparatesOrEnds n vs) :
    SeparatesOrEnds (n + 1) (us ++ c :: vs) := by
  rcases Nat.eq_zero_or_pos n with rfl | hn
  · rcases hvs with hvs | ⟨-, -, -, -, hlt, -⟩
    · rw [hvs.empty.2 rfl]
      exact .inr ⟨us, c, rfl, hc, Nat.one_pos, .one h⟩
    · exact absurd hlt (Nat.lt_irrefl 0)
  · rcases hvs with hvs | ⟨ws, c', rfl, hc', -, hws⟩
    · exact .inl (hvs.cons h hc hn)
    · exact .inr ⟨us ++ c :: ws, c', by simp, hc', Nat.succ_pos n, hws.cons h hc hn⟩

/-! ### What is spelled -/

/-- What the tokens `us` of a form are that are outside of its brackets, as far as commas go. -/
def Form.Commas : Form → List Token → Prop
  | expr _ _, us | block _, us | stmt _, us => Item us
  | body _, us => ∀ t ∈ us, t.kind ≠ .mark .comma
  | exprs es, us => Separates es.length us
  | moreExprs es, us => MoreItems es.length us
  | pairs ps, us => SeparatesOrEnds ps.length us

namespace Outside

open MonkeySyntax.Spelling

variable {t o c : Token} {k : Kind} {ts us : List Token}

/-- A token that is neither a bracket nor a comma is an item outside of brackets. -/
theorem exists_item (ht : t.kind = k) (hk : k.Plain ∧ k ≠ .mark .comma) :
    ∃ us, Outside [t] us ∧ Item us := by
  subst ht
  exact ⟨[t], .sole hk.1, .sole hk.2⟩

/-- So it is with an item after it. -/
theorem exists_cons (ht : t.kind = k) (hk : k.Plain ∧ k ≠ .mark .comma)
    (h : ∃ us, Outside ts us ∧ Item us) : ∃ us, Outside (t :: ts) us ∧ Item us := by
  subst ht
  obtain ⟨us, hus, hitem⟩ := h
  exact ⟨t :: us, .token hk.1 hus, hitem.cons hk.2⟩

/-- Two brackets are an item, whatever is between them. -/
theorem exists_enclosed {m m' : Mark} (ho : o.kind = .mark m) (hc : c.kind = .mark m')
    (hm : m.closing? = some m') (h : Outside ts us) :
    ∃ vs, Outside (o :: (ts ++ [c])) vs ∧ Item vs := by
  have hoc : o.kind.ClosedBy c.kind := ⟨m, m', ho, hc, hm⟩
  refine ⟨[o, c], h.enclosed hoc, List.cons_ne_nil o [c], ?_⟩
  rw [List.forall_mem_cons, List.forall_mem_singleton, ho, hc]
  cases m <;> cases hm <;> decide

/-- An item and what follows it without a comma are an item. -/
theorem exists_append {us' ts' : List Token} (h : Outside ts us ∧ Item us)
    (h' : Outside ts' us' ∧ ∀ t ∈ us', t.kind ≠ .mark .comma) :
    ∃ vs, Outside (ts ++ ts') vs ∧ Item vs :=
  ⟨us ++ us', h.1.append h'.1, h.2.append h'.2⟩

/-- Further parameters are names with commas before them. -/
theorem of_moreNames {ns : List Identifier} (h : MoreNames ns ts) :
    Outside ts ts ∧ MoreItems ns.length ts := by
  induction h with
  | nil => exact ⟨.nil, .inl ⟨rfl, rfl⟩⟩
  | @cons c t ns ts hc ht h ih =>
    have hitem : Item [t] := .sole (by simp [ht])
    have hnames : Outside (t :: ts) (t :: ts) := .token (by rw [ht]; trivial) ih.1
    refine ⟨.token (by rw [hc]; decide) hnames, .inr ⟨c, t :: ts, rfl, hc, Nat.succ_pos _, ?_⟩⟩
    exact .of_moreItems hitem ih.2

/-- Parameters are names with commas between them. -/
theorem of_names {ns : List Identifier} (h : Names ns ts) :
    Outside ts ts ∧ Separates ns.length ts := by
  cases h with
  | nil => exact ⟨.nil, .nil⟩
  | @cons t ns ts ht h =>
    have hitem : Item [t] := .sole (by simp [ht])
    obtain ⟨hts, hmore⟩ := of_moreNames h
    exact ⟨.token (by rw [ht]; trivial) hts, .of_moreItems hitem hmore⟩

end Outside

/-- **The commas of a list are outside of all brackets in it,** and no other commas are. -/
theorem Spells.outside {L : Leeway} (hj : ¬ L.junk) {f : Form} {ts : List Token} {d : Nat}
    (h : Spells L f ts d) : ∃ us, Outside ts us ∧ f.Commas us := by
  induction h with
  | identifier ht | integer ht | string ht => exact Outside.exists_item ht (by decide)
  | @boolean _ _ b ht => exact Outside.exists_item ht (by cases b <;> decide)
  | prefixOp ht _ _ ih =>
    rcases ht with ht | ht
    · exact Outside.exists_cons ht (by decide) ih
    · exact Outside.exists_cons ht (by decide) ih
  | infixOp ht _ _ _ ihl ihr =>
    obtain ⟨m, hm, hkind⟩ := Grammar.binaryOperator_of_infixRule ht
    have hplain : ∀ m ∈ Mark.binaryOperators, (Kind.mark m).Plain ∧ Kind.mark m ≠ .mark .comma := by
      decide
    obtain ⟨us, hus, hitem⟩ := ihl
    obtain ⟨vs, hvs, hitem'⟩ := Outside.exists_cons hkind (hplain m hm) ihr
    exact Outside.exists_append ⟨hus, hitem⟩ ⟨hvs, hitem'.plain⟩
  | call ho hc _ _ ihl ihr | index ho hc _ _ ihl ihr =>
    obtain ⟨us, hus, hitem⟩ := ihl
    obtain ⟨vs, hvs, -⟩ := ihr
    obtain ⟨ws, hws, hitem'⟩ := Outside.exists_enclosed ho hc rfl hvs
    exact Outside.exists_append ⟨hus, hitem⟩ ⟨hws, hitem'.plain⟩
  | array ho hc _ ih | hash ho hc _ ih | grouped ho hc _ ih | block ho hc _ ih =>
    obtain ⟨us, hus, -⟩ := ih
    exact Outside.exists_enclosed ho hc rfl hus
  | conditional ht _ _ ihe ihb =>
    obtain ⟨us, hus, hitem⟩ := ihe
    obtain ⟨vs, hvs, hitem'⟩ := ihb
    exact Outside.exists_cons ht (by decide)
      (Outside.exists_append ⟨hus, hitem⟩ ⟨hvs, hitem'.plain⟩)
  | alternative ht ho _ _ _ ihe ihb iha =>
    obtain ⟨us, hus, hitem⟩ := ihe
    obtain ⟨vs, hvs, hitem'⟩ := ihb
    obtain ⟨ws, hws, hitem''⟩ := Outside.exists_cons ho (by decide) iha
    obtain ⟨xs, hxs, hrest⟩ := Outside.exists_append ⟨hvs, hitem'⟩ ⟨hws, hitem''.plain⟩
    exact Outside.exists_cons ht (by decide)
      (Outside.exists_append ⟨hus, hitem⟩ ⟨hxs, hrest.plain⟩)
  | function ht ho hc hn _ ih =>
    obtain ⟨us, hus, hitem⟩ := ih
    have hgroup := Outside.group ⟨_, _, ho, hc, rfl⟩ (Outside.of_names hn).1 hus
    refine Outside.exists_cons ht (by decide) ⟨_, hgroup, (Item.cons ?_ hitem).cons ?_⟩
    · simp [hc]
    · simp [ho]
  | noExprs => exact ⟨[], .nil, .nil⟩
  | exprs _ _ ihe ihs =>
    obtain ⟨us, hus, hitem⟩ := ihe
    obtain ⟨vs, hvs, hmore⟩ := ihs
    exact ⟨us ++ vs, hus.append hvs, .of_moreItems hitem hmore⟩
  | noMore => exact ⟨[], .nil, .inl ⟨rfl, rfl⟩⟩
  | @more _ _ c _ _ _ _ hc _ _ ihe ihs =>
    obtain ⟨us, hus, hitem⟩ := ihe
    obtain ⟨vs, hvs, hmore⟩ := ihs
    exact ⟨c :: (us ++ vs), .token (by rw [hc]; decide) (hus.append hvs),
      .inr ⟨c, us ++ vs, rfl, hc, Nat.succ_pos _, .of_moreItems hitem hmore⟩⟩
  | noPairs => exact ⟨[], .nil, .inl .nil⟩
  | lastPair hc _ _ ihk ihv =>
    obtain ⟨us, hus, hitem⟩ := ihk
    obtain ⟨vs, hvs, hitem'⟩ := Outside.exists_cons hc (by decide) ihv
    obtain ⟨ws, hws, hpair⟩ := Outside.exists_append ⟨hus, hitem⟩ ⟨hvs, hitem'.plain⟩
    exact ⟨ws, hws, .inl (.one hpair)⟩
  | @pairs _ _ _ c m _ _ _ _ _ _ hc hm _ _ _ ihk ihv ihs =>
    obtain ⟨us, hus, hitem⟩ := ihk
    obtain ⟨vs, hvs, hitem'⟩ := Outside.exists_cons hc (by decide) ihv
    obtain ⟨ws, hws, hpairs⟩ := ihs
    have hrest : Outside (m :: _) (m :: ws) := .token (by rw [hm]; decide) hws
    refine ⟨us ++ (vs ++ m :: ws), hus.append (hvs.append hrest), ?_⟩
    rw [← List.append_assoc]
    exact hpairs.cons (hitem.append hitem'.plain) hm
  | letBinding ht hi ha _ ih =>
    exact Outside.exists_cons ht (by decide)
      (Outside.exists_cons hi (by decide) (Outside.exists_cons ha (by decide) ih))
  | bareReturn ht => exact Outside.exists_item ht (by decide)
  | returnValue ht _ ih => exact Outside.exists_cons ht (by decide) ih
  | expression _ ih => exact ih
  | noStmts => exact ⟨[], .nil, List.forall_mem_nil _⟩
  | stmts _ hu _ ihs ihb =>
    obtain ⟨us, hus, hitem⟩ := ihs
    obtain ⟨vs, hvs, hplain⟩ := ihb
    cases hu with
    | none => exact ⟨us ++ vs, hus.append hvs, List.forall_mem_append.2 ⟨hitem.plain, hplain⟩⟩
    | @semicolon t ht =>
      have hend : Outside [t] [t] := .sole (by rw [ht]; decide)
      refine ⟨us ++ ([t] ++ vs), hus.append (hend.append hvs), ?_⟩
      have hsemicolon : t.kind ≠ .mark .comma := by simp [ht]
      exact List.forall_mem_append.2 ⟨hitem.plain, List.forall_mem_cons.2 ⟨hsemicolon, hplain⟩⟩
  | junk h => exact absurd h hj

end MonkeySyntax

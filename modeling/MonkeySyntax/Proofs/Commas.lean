/-
# Commas only separate

A parse without an error has read every call, array, function and hash of the program from a place
of its own among the tokens, where its brackets stand (`Node.StandsAt`).  Inside of them commas
stand between the arguments, elements, parameters or pairs and nowhere else, but for one case:

| list | between its items | after the last |
| --- | --- | --- |
| arguments, elements, parameters | one comma | none |
| pairs of a hash | one comma | none or one |

The grammar that Monkey is specified by has no comma after the last pair either, and an array with
such a comma is refused (`commas_separate_trailing`).
-/

import Mathlib.Data.List.Forall2
import Mathlib.Data.List.Nodup
import MonkeySyntax.Proofs.Separators

namespace MonkeySyntax

namespace Node

/-- Whether a node is a list in brackets: a call, an array, a function or a hash. -/
def isList : Node → Bool
  | expr (.call ..) | expr (.array ..) | expr (.function ..) | expr (.hash ..) => true
  | _ => false

/-- The list stands between the brackets `o` and `c`, after the tokens `before`, and of the tokens
in between those in no further brackets, `us`, have the commas that belong to it. -/
def Encloses (before : List Token) (o : Token) (us : List Token) (c : Token) : Node → Prop
  | expr (.call t _ arguments) => o = t ∧ o.kind = .mark .openParen ∧
    c.kind = .mark .closeParen ∧ Separates arguments.length us
  | expr (.array t elements) => o = t ∧ o.kind = .mark .openBracket ∧
    c.kind = .mark .closeBracket ∧ Separates elements.length us
  | expr (.function t parameters _) => before.getLast? = some t ∧ o.kind = .mark .openParen ∧
    c.kind = .mark .closeParen ∧ Separates parameters.length us
  | expr (.hash t pairs) => o = t ∧ o.kind = .mark .openCurly ∧
    c.kind = .mark .closeCurly ∧ SeparatesOrEnds pairs.length us
  | _ => False

/-- The list is read from the tokens `ts`, of which `i` come before its opening bracket. -/
def StandsAt (ts : List Token) (x : Node) (i : Nat) : Prop :=
  ∃ before o inner c after us, ts = before ++ o :: (inner ++ c :: after) ∧ before.length = i ∧
    Outside inner us ∧ x.Encloses before o us c

variable {x : Node} {ts us : List Token} {i : Nat}

/-- Tokens before all those that a list is read from move its place on. -/
theorem StandsAt.after (h : x.StandsAt ts i) (us : List Token) :
    x.StandsAt (us ++ ts) (us.length + i) := by
  obtain ⟨before, o, inner, c, after, own, rfl, rfl, hinner, hencloses⟩ := h
  refine ⟨us ++ before, o, inner, c, after, own, by simp, by simp, hinner, ?_⟩
  unfold Encloses at hencloses ⊢
  split at hencloses
  · exact hencloses
  · exact hencloses
  · exact ⟨by simp [hencloses.1], hencloses.2⟩
  · exact hencloses
  · exact hencloses

/-- Tokens after all those that a list is read from leave its place as it is. -/
theorem StandsAt.before (h : x.StandsAt ts i) (us : List Token) : x.StandsAt (ts ++ us) i := by
  obtain ⟨before, o, inner, c, after, own, rfl, rfl, hrest⟩ := h
  exact ⟨before, o, inner, c, after ++ us, own, by simp, rfl, hrest⟩

end Node

/-- The lists among the nodes `xs` stand at the places `is` among the tokens `ts`, one at each. -/
structure Places (xs : List Node) (ts : List Token) (is : List Nat) : Prop where
  nodup : is.Nodup
  lt : ∀ i ∈ is, i < ts.length
  stand : (xs.filter Node.isList).Forall₂ (fun x i => x.StandsAt ts i) is

namespace Places

variable {x : Node} {xs ys : List Node} {ts us : List Token} {is js : List Nat} {i : Nat}

/-- Places in other tokens are other places. -/
theorem append (h : Places xs ts is) (k : Places ys us js) :
    Places (xs ++ ys) (ts ++ us) (is ++ js.map (ts.length + ·)) where
  nodup := by
    refine List.nodup_append.2 ⟨h.nodup, k.nodup.map fun _ _ => Nat.add_left_cancel, ?_⟩
    intro i hi j hj
    obtain ⟨j, -, rfl⟩ := List.mem_map.1 hj
    have hlt := h.lt i hi
    omega
  lt := by
    rw [List.length_append]
    refine List.forall_mem_append.2 ⟨fun i hi => ?_, List.forall_mem_map.2 fun j hj => ?_⟩
    · exact Nat.lt_add_right _ (h.lt i hi)
    · exact Nat.add_lt_add_left (k.lt j hj) _
  stand := by
    rw [List.filter_append]
    refine List.rel_append (h.stand.imp fun x i hx => hx.before us) ?_
    exact List.forall₂_map_right_iff.2 (k.stand.imp fun x j hx => hx.after ts)

/-- One more list takes a place that no other has. -/
theorem add (h : Places xs ts is) (hx : x.isList) (hi : i ∉ is) (hlt : i < ts.length)
    (hstands : x.StandsAt ts i) : Places (x :: xs) ts (i :: is) where
  nodup := List.nodup_cons.2 ⟨hi, h.nodup⟩
  lt := List.forall_mem_cons.2 ⟨hlt, h.lt⟩
  stand := by
    rw [List.filter_cons_of_pos hx]
    exact .cons hstands h.stand

end Places

/-- Each of the lists among the nodes `xs` has a place of its own among the tokens `ts`. -/
def Sited (xs : List Node) (ts : List Token) : Prop := ∃ is, Places xs ts is

namespace Sited

variable {x : Node} {xs ys : List Node} {o t : Token} {ts us : List Token}

/-- Where there is no list, no place is needed. -/
theorem nil (ts : List Token) : Sited [] ts := ⟨[], .nil, List.forall_mem_nil _, .nil⟩

/-- Lists in tokens that follow each other are at different places. -/
theorem append (h : Sited xs ts) (k : Sited ys us) : Sited (xs ++ ys) (ts ++ us) := by
  obtain ⟨is, his⟩ := h
  obtain ⟨js, hjs⟩ := k
  exact ⟨_, his.append hjs⟩

/-- Tokens before those of the lists give none of the places away. -/
theorem after (h : Sited xs us) (ts : List Token) : Sited xs (ts ++ us) := (nil ts).append h

/-- Nor do tokens after them. -/
theorem before (h : Sited xs ts) (us : List Token) : Sited xs (ts ++ us) := by
  have happend := h.append (nil us)
  rwa [List.append_nil] at happend

/-- One token before those of the lists. -/
theorem cons (t : Token) (h : Sited xs ts) : Sited xs (t :: ts) := h.after [t]

/-- A node that is no list needs no place. -/
theorem skip (hx : x.isList = false) (h : Sited xs ts) : Sited (x :: xs) ts := by
  obtain ⟨is, his⟩ := h
  refine ⟨is, his.nodup, his.lt, ?_⟩
  rw [List.filter_cons_of_neg (by simp [hx])]
  exact his.stand

/-- Names are no lists. -/
theorem names (ns : List Identifier) (ts : List Token) : Sited (ns.map .name) ts := by
  induction ns with
  | nil => exact nil ts
  | cons n ns ih => exact skip rfl ih

/-- **A list takes the place of its opening bracket,** which no list before or after it has. -/
theorem bracket (h : Sited xs ts) (hx : x.isList) (k : Sited ys us)
    (hstands : x.StandsAt (ts ++ o :: us) ts.length) : Sited (x :: (xs ++ ys)) (ts ++ o :: us) := by
  obtain ⟨is, his⟩ := h
  obtain ⟨js, hjs⟩ := k
  have hopen : Places [] [o] [] := ⟨.nil, List.forall_mem_nil _, .nil⟩
  refine ⟨_, (his.append (hopen.append hjs)).add hx ?_ (by simp) hstands⟩
  intro hmem
  rcases List.mem_append.1 hmem with hmem | hmem
  · exact Nat.lt_irrefl _ (his.lt _ hmem)
  · obtain ⟨j, hj, heq⟩ := List.mem_map.1 hmem
    obtain ⟨j, -, rfl⟩ := List.mem_map.1 hj
    simp at heq

end Sited

open MonkeySyntax.Spelling

/-- **Every list in a piece of syntax has a place of its own** in a spelling of it. -/
theorem Spells.sited {L : Leeway} (hj : ¬ L.junk) {f : Form} {ts : List Token} {d : Nat}
    (h : Spells L f ts d) : Sited f.nodes ts := by
  induction h with
  | identifier => exact .skip rfl (.skip rfl (.nil _))
  | integer | string | boolean | bareReturn => exact .skip rfl (.nil _)
  | prefixOp _ _ _ ih => exact .skip rfl (ih.cons _)
  | infixOp _ _ _ _ ihl ihr => exact .skip rfl (ihl.append (ihr.cons _))
  | call ho hc _ hs ihl ihr =>
    obtain ⟨us, hus, hcommas⟩ := hs.outside hj
    refine ihl.bracket rfl (ihr.before _) ?_
    exact ⟨_, _, _, _, [], us, rfl, rfl, hus, rfl, ho, hc, hcommas⟩
  | index _ _ _ _ ihl ihi => exact .skip rfl (ihl.append ((ihi.before _).cons _))
  | array ho hc hs ih =>
    obtain ⟨us, hus, hcommas⟩ := hs.outside hj
    refine (Sited.nil []).bracket rfl (ih.before _) ?_
    exact ⟨[], _, _, _, [], us, rfl, rfl, hus, rfl, ho, hc, hcommas⟩
  | hash ho hc hs ih =>
    obtain ⟨us, hus, hcommas⟩ := hs.outside hj
    refine (Sited.nil []).bracket rfl (ih.before _) ?_
    exact ⟨[], _, _, _, [], us, rfl, rfl, hus, rfl, ho, hc, hcommas⟩
  | conditional _ _ _ ihe ihb => exact .skip rfl ((ihe.append ihb).cons _)
  | alternative _ _ _ _ _ ihe ihb iha =>
    exact .skip rfl ((ihe.append (ihb.append (iha.cons _))).cons _)
  | @function _ _ t o c ns _ ts us _ ho hc hn _ ih =>
    obtain ⟨hts, hcommas⟩ := Outside.of_names hn
    have hword : Sited [] [t] := .nil [t]
    refine hword.bracket rfl ((Sited.names ns ts).append (ih.cons c)) ?_
    exact ⟨[t], o, ts, c, us, ts, rfl, rfl, hts, rfl, ho, hc, hcommas⟩
  | grouped _ _ _ ih => exact (ih.before _).cons _
  | block _ _ _ ih => exact .skip rfl ((ih.before _).cons _)
  | noExprs | noMore | noPairs | noStmts => exact .nil _
  | exprs _ _ ihe ihs => exact ihe.append ihs
  | more _ _ _ ihe ihs => exact (ihe.append ihs).cons _
  | @lastPair _ _ c _ _ _ us _ _ _ ihk ihv =>
    have hpair := ihk.append ((ihv.append (.nil [])).cons c)
    rw [List.append_nil us] at hpair
    exact hpair
  | pairs _ _ _ _ _ ihk ihv ihs => exact ihk.append ((ihv.append (ihs.cons _)).cons _)
  | letBinding _ _ _ _ ih => exact .skip rfl (.skip rfl (((ih.cons _).cons _).cons _))
  | returnValue _ _ ih => exact .skip rfl (ih.cons _)
  | expression _ ih => exact .skip rfl ih
  | stmts _ _ _ ihs ihb => exact ihs.append (ihb.after _)
  | junk h => exact absurd h hj

/-- A list that begins with an end of the input has its window there. -/
theorem Window.current_before_eof {final : Token} (hfinal : final.kind = .eof) {us : List Token}
    (hus : ∀ t ∈ us.head?, t.kind = .eof) : (before final hfinal us).current.kind = .eof := by
  cases us with
  | nil => exact hfinal
  | cons t us =>
    rw [current_before]
    exact hus t rfl

/-- A clean parse read the tokens before the first end of the input, each of them in its place. -/
theorem exists_spells_takeWhile {ts : List Token} (hclean : (parse ts).2.errors = []) :
    ∃ d, Spells ⟨True, False⟩ (.body (parse ts).1.body) (ts.takeWhile (·.kind ≠ .eof)) d := by
  obtain ⟨hend, hstand⟩ := Parsing.statements_stand (Parser.start (Stream.ofList ts)) rfl
  obtain ⟨us, d, hreads, -, hspells⟩ := hstand.mono (k := False) fun hj => hj hclean
  have hne : ∀ t ∈ ts.takeWhile (·.kind ≠ .eof), t.kind ≠ .eof := fun t ht => by
    simpa using List.all_eq_true.1 List.all_takeWhile t ht
  have hstart := Window.start_eq_before (Stream.finalOf ts) (Stream.finalOf_kind ts) ts
  have hhead := Window.reads_before (Stream.finalOf ts) (Stream.finalOf_kind ts)
    (ts.takeWhile (·.kind ≠ .eof)) (ts.dropWhile (·.kind ≠ .eof))
  rw [List.takeWhile_append_dropWhile, ← hstart] at hhead
  have hstop : (Window.before (Stream.finalOf ts) (Stream.finalOf_kind ts)
      (ts.dropWhile (·.kind ≠ .eof))).current.kind = .eof := by
    refine Window.current_before_eof _ fun t ht => ?_
    have hfirst := List.head?_dropWhile_not (·.kind ≠ .eof) ts
    rw [Option.mem_def.1 ht] at hfirst
    simpa using hfirst
  obtain rfl := hreads.unique hhead hend hstop (hspells.ne_eof fun hj => hj) hne
  exact ⟨d, hspells⟩

/-- **Commas only separate, but after the last pair of a hash there may be one.**  Let tokens be
parsed without an error.  Then each call, array, function and hash of the program, at any depth, has
a place of its own among them, where its brackets stand.  Of the tokens between these brackets,
those in no further brackets have a comma between any two arguments, elements, parameters or pairs,
and no others: `n - 1` of them for `n` items, none leading, none doubled and, in calls, arrays and
functions, none trailing. -/
theorem commas_separate {ts : List Token} (hclean : (parse ts).2.errors = []) :
    ∃ places : List Nat, places.Nodup ∧
      ((parse ts).1.nodes.filter Node.isList).Forall₂ (fun x i => x.StandsAt ts i) places := by
  obtain ⟨d, hspells⟩ := exists_spells_takeWhile hclean
  have hsited := (hspells.sited not_false).before (ts.dropWhile (·.kind ≠ .eof))
  rw [List.takeWhile_append_dropWhile] at hsited
  obtain ⟨places, hplaces⟩ := hsited
  exact ⟨places, hplaces.nodup, hplaces.stand⟩

/-- The tokens of `[a, b]`, none of them placed in a text. -/
def twoElements : List Token :=
  [⟨.mark .openBracket, "[", .null⟩, ⟨.identifier, "a", .null⟩, ⟨.mark .comma, ",", .null⟩,
    ⟨.identifier, "b", .null⟩, ⟨.mark .closeBracket, "]", .null⟩, .eof .null]

/-- The array in them. -/
def arrayOfNames : Expr :=
  .array ⟨.mark .openBracket, "[", .null⟩
    [.identifier ⟨⟨.identifier, "a", .null⟩, "a"⟩, .identifier ⟨⟨.identifier, "b", .null⟩, "b"⟩]

/-- The hypotheses of `commas_separate` are satisfiable: `[a, b]` has no error, and the one list in
it stands somewhere among the tokens. -/
theorem commas_separate_twoElements : (parse twoElements).2.errors = [] ∧
    (parse twoElements).1.nodes.filter Node.isList = [.expr arrayOfNames] ∧
    ∃ i, (Node.expr arrayOfNames).StandsAt twoElements i := by
  have hclean : (parse twoElements).2.errors = [] := by decide +kernel
  have hprogram : (parse twoElements).1 =
      ⟨[.expression ⟨.mark .openBracket, "[", .null⟩ arrayOfNames]⟩ := by decide +kernel
  have hlists : (parse twoElements).1.nodes.filter Node.isList = [.expr arrayOfNames] := by
    rw [hprogram]
    rfl
  obtain ⟨places, -, hstand⟩ := commas_separate hclean
  rw [hlists] at hstand
  obtain _ | ⟨hstands, -⟩ := hstand
  exact ⟨hclean, hlists, _, hstands⟩

/-- The tokens of `a: b,`, none of them placed in a text. -/
def pairWithComma : List Token :=
  [⟨.identifier, "a", .null⟩, ⟨.mark .colon, ":", .null⟩, ⟨.identifier, "b", .null⟩,
    ⟨.mark .comma, ",", .null⟩]

/-- The pair in them. -/
def pairOfNames : Expr × Expr :=
  (.identifier ⟨⟨.identifier, "a", .null⟩, "a"⟩, .identifier ⟨⟨.identifier, "b", .null⟩, "b"⟩)

/-- The same tokens between the brackets of a hash, and the end of the input. -/
def hashWithComma : List Token :=
  ⟨.mark .openCurly, "\x7b", .null⟩ ::
    (pairWithComma ++ [⟨.mark .closeCurly, "\x7d", .null⟩, .eof .null])

/-- The tokens of `[a,]` and the end of the input. -/
def arrayWithComma : List Token :=
  [⟨.mark .openBracket, "[", .null⟩, ⟨.identifier, "a", .null⟩, ⟨.mark .comma, ",", .null⟩,
    ⟨.mark .closeBracket, "]", .null⟩, .eof .null]

/-- A hash of one pair is read with a comma of its own, after the pair.  An array is not. -/
theorem commas_separate_trailing : (parse hashWithComma).2.errors = [] ∧
    Node.expr (.hash ⟨.mark .openCurly, "\x7b", .null⟩ [pairOfNames]) ∈
      (parse hashWithComma).1.nodes ∧
    Outside pairWithComma pairWithComma ∧
    pairWithComma.countP (·.kind = .mark .comma) = 1 ∧ ¬ Separates 1 pairWithComma ∧
    (parse arrayWithComma).2.errors = [⟨.noPrefixRule (.mark .closeBracket), .null⟩] := by
  have hprogram : (parse hashWithComma).1 = ⟨[.expression ⟨.mark .openCurly, "\x7b", .null⟩
      (.hash ⟨.mark .openCurly, "\x7b", .null⟩ [pairOfNames])]⟩ := by decide +kernel
  refine ⟨by decide +kernel, ?_, ?_, by decide, fun h => ?_, by decide +kernel⟩
  · rw [hprogram]
    exact .tail _ (.head _)
  · exact .token trivial (.token (by decide) (.token trivial (.token (by decide) .nil)))
  · exact absurd h.commas (by decide)

end MonkeySyntax

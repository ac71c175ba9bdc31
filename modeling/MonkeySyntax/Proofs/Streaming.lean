/-
# Reading a text at once or token by token

A text can be turned into a list of tokens first, or read as its tokens are asked for.  The list is
refused if a character in it starts no lexeme, and the first such character is what is reported.
Otherwise both ways lead to the same tokens, however often one asks, and so to the same program, the
same errors and the same place at the end.
-/

import MonkeySyntax.Proofs.Lexing
import MonkeySyntax.Proofs.Pairing.Programs
import MonkeySyntax.Tree.Equality

namespace MonkeySyntax

namespace TokenSource

variable {σ : Type} [TokenSource σ]

/-- A source hands out the tokens `pre` and then `t`. -/
def Yields (s : σ) (pre : List Token) (t : Token) : Prop := (take (pre.length + 1) s).1 = pre ++ [t]

/-- `t` is an illegal token that a source hands out before the end of the input. -/
def Illegal (s : σ) (t : Token) : Prop :=
  t.kind = .illegal ∧ ∃ pre, Yields s pre t ∧ ∀ u ∈ pre, u.kind ≠ .eof

/-- `t` is the first of them. -/
def FirstIllegal (s : σ) (t : Token) : Prop :=
  t.kind = .illegal ∧ ∃ pre, Yields s pre t ∧ ∀ u ∈ pre, u.kind ≠ .eof ∧ u.kind ≠ .illegal

end TokenSource

/-- **A list is refused for the first illegal token in it.** -/
theorem readable_eq (ts : List Token) : readable ts =
    match ts.find? (·.kind = .illegal) with
    | some t => .error t
    | none => .ok ts := by
  induction ts with
  | nil => rfl
  | cons t ts ih =>
    by_cases ht : t.kind = .illegal
    · simp [readable, ht]
    · rw [readable, if_neg ht, ih, List.find?_cons_of_neg (by simpa using ht)]
      cases ts.find? (·.kind = .illegal) <;> rfl

namespace Cursor

/-- Before the end of the input, what is handed out is a head of the list of the tokens. -/
theorem take_length_iff {c : Cursor} {ts : List Token} (hts : ∀ t ∈ ts, t.kind ≠ .eof) :
    (TokenSource.take ts.length c).1 = ts ↔ ts <+: c.tokens := by
  induction ts generalizing c with
  | nil => exact iff_of_true rfl (List.nil_prefix ..)
  | cons t ts ih =>
    obtain ⟨ht, hts⟩ := List.forall_mem_cons.1 hts
    have htake : (TokenSource.take (t :: ts).length c).1 =
      c.next.1 :: (TokenSource.take ts.length c.next.2).1 := rfl
    rw [htake, List.cons.injEq, ih hts]
    conv => rhs; rw [tokens]
    split
    · rename_i heof
      refine iff_of_false (fun h => ht (h.1 ▸ heof)) fun h => ht ?_
      rw [(List.cons_prefix_cons.1 h).1, heof]
    · rw [List.cons_prefix_cons, eq_comm]

/-- Before the end of the input, a token is handed out after those before it in the list. -/
theorem yields_iff {c : Cursor} {pre : List Token} {t : Token} (hpre : ∀ u ∈ pre, u.kind ≠ .eof)
    (ht : t.kind ≠ .eof) : TokenSource.Yields c pre t ↔ pre ++ [t] <+: c.tokens := by
  have hne : ∀ u ∈ pre ++ [t], u.kind ≠ .eof :=
    List.forall_mem_append.2 ⟨hpre, List.forall_mem_singleton.2 ht⟩
  have htake := take_length_iff (c := c) hne
  rwa [List.length_append, List.length_singleton] at htake

/-- **The first illegal token in the list of the tokens is the first one handed out.** -/
theorem find?_tokens (c : Cursor) (t : Token) :
    c.tokens.find? (·.kind = .illegal) = some t ↔ TokenSource.FirstIllegal c t := by
  obtain ⟨body, last, htokens, hlast, hbody, -⟩ := c.take_tokens
  rw [List.find?_eq_some_iff_append, decide_eq_true_eq, TokenSource.FirstIllegal]
  refine and_congr_right fun ht => ?_
  have heof : t.kind ≠ .eof := by simp [ht]
  constructor
  · rintro ⟨pre, post, hsplit, hpre⟩
    have hdrop : body = pre ++ (t :: post).dropLast := by
      rw [← List.dropLast_append_of_ne_nil (List.cons_ne_nil t post), ← hsplit, htokens,
        List.dropLast_concat]
    have hends : ∀ u ∈ pre, u.kind ≠ .eof := fun u hu =>
      hbody u (hdrop ▸ List.mem_append_left _ hu)
    refine ⟨pre, (yields_iff hends heof).2 ⟨post, ?_⟩, fun u hu => ⟨hends u hu, ?_⟩⟩
    · rw [hsplit, List.append_assoc, List.singleton_append]
    · simpa using hpre u hu
  · rintro ⟨pre, hyields, hpre⟩
    obtain ⟨post, hpost⟩ := (yields_iff (fun u hu => (hpre u hu).1) heof).1 hyields
    refine ⟨pre, post, ?_, fun u hu => by simpa using (hpre u hu).2⟩
    rw [← hpost, List.append_assoc, List.singleton_append]

/-- Where there is an illegal token before the end of the input, there is a first one. -/
theorem exists_firstIllegal {c : Cursor} {t : Token} (h : TokenSource.Illegal c t) :
    ∃ u, TokenSource.FirstIllegal c u := by
  obtain ⟨ht, pre, hyields, hpre⟩ := h
  have hmem : t ∈ c.tokens :=
    ((yields_iff hpre (by simp [ht])).1 hyields).subset (by simp)
  have hsome : (c.tokens.find? (·.kind = .illegal)).isSome :=
    List.find?_isSome.2 ⟨t, hmem, by simpa using ht⟩
  obtain ⟨u, hu⟩ := Option.isSome_iff_exists.1 hsome
  exact ⟨u, (c.find?_tokens u).1 hu⟩

/-- The stream of the tokens of a text hands out what a cursor does. -/
theorem take_ofList_tokens (c : Cursor) (n : Nat) :
    (TokenSource.take n (Stream.ofList c.tokens)).1 = (TokenSource.take n c).1 := by
  obtain ⟨body, last, htokens, hlast, -, htake⟩ := c.take_tokens
  have hfinal : Stream.finalOf c.tokens = last := by rw [htokens, Stream.finalOf_concat _ hlast]
  have hstream : (TokenSource.take n (Stream.ofList c.tokens)).1 =
      (body ++ [last] ++ List.replicate n last).take n := by
    rw [Stream.take_eq, ← htokens, ← hfinal]
    rfl
  rw [hstream, ← TokenSource.take_add n body.length, Nat.add_comm, htake]
  simp [List.take_append, ← List.replicate_succ]
  omega

end Cursor

/-- **A text is refused** for the first illegal token in the list of its tokens. -/
theorem tokenize_eq (text : String) (file : Option String) : tokenize text file =
    match (Cursor.ofText text file).tokens.find? (·.kind = .illegal) with
    | some t => .error ⟨.unrecognisedToken t.value, t.start⟩
    | none => .ok (Cursor.ofText text file).tokens := by
  rw [tokenize, readable_eq]
  cases (Cursor.ofText text file).tokens.find? (·.kind = .illegal) <;> rfl

/-- A text is turned into the tokens that a cursor hands out, if none of them is illegal. -/
theorem tokenize_eq_ok_iff {text : String} {file : Option String} {tokens : List Token} :
    tokenize text file = .ok tokens ↔
      tokens = (Cursor.ofText text file).tokens ∧ ∀ t ∈ tokens, t.kind ≠ .illegal := by
  rw [tokenize_eq]
  cases hfind : (Cursor.ofText text file).tokens.find? (·.kind = .illegal) with
  | none =>
    rw [Except.ok.injEq]
    refine ⟨?_, fun h => h.1.symm⟩
    rintro rfl
    exact ⟨rfl, fun t ht => by simpa using List.find?_eq_none.1 hfind t ht⟩
  | some t =>
    refine iff_of_false (by simp) ?_
    rintro ⟨rfl, hlegal⟩
    exact hlegal t (List.mem_of_find?_eq_some hfind) (by simpa using List.find?_some hfind)

/-- **Reading a text at once and reading it token by token agree.**  It is refused if and only if a
character in it starts no lexeme, for the first such character.  If it is not, the list of its
tokens and the text itself answer alike for ever, with the end of the input after the last token,
and parsing one is parsing the other. -/
theorem tokenize_agrees (text : String) (file : Option String) :
    (∀ n, ∃ l, (Lexer.ofText text file).take n =
      some ((TokenSource.take n (Cursor.ofText text file)).1, l)) ∧
    ((∃ d, tokenize text file = .error d) ↔
      ∃ t, TokenSource.Illegal (Cursor.ofText text file) t) ∧
    (∀ d, tokenize text file = .error d ↔
      ∃ t, TokenSource.FirstIllegal (Cursor.ofText text file) t ∧
        d = ⟨.unrecognisedToken t.value, t.start⟩) ∧
    ∀ tokens, tokenize text file = .ok tokens →
      (∀ n, (TokenSource.take n (Stream.ofList tokens)).1 =
        (TokenSource.take n (Cursor.ofText text file)).1) ∧
      (∃ body last, tokens = body ++ [last] ∧ last.kind = .eof ∧ ∀ n,
        (TokenSource.take (body.length + n) (Cursor.ofText text file)).1 =
          body ++ List.replicate n last) ∧
      (parse tokens).1 = (parseText text file).1 ∧
      (parse tokens).2.errors = (parseText text file).2.errors ∧
      (parse tokens).2.current = (parseText text file).2.current ∧
      (parse tokens).2.peek = (parseText text file).2.peek := by
  have herror : ∀ d, tokenize text file = .error d ↔
      ∃ t, TokenSource.FirstIllegal (Cursor.ofText text file) t ∧
        d = ⟨.unrecognisedToken t.value, t.start⟩ := by
    intro d
    rw [tokenize_eq]
    simp only [← Cursor.find?_tokens]
    cases (Cursor.ofText text file).tokens.find? (·.kind = .illegal) with
    | none => simp
    | some t => simp [eq_comm]
  refine ⟨fun n => ?_, ⟨?_, ?_⟩, herror, fun tokens htokens => ?_⟩
  · obtain ⟨l, htake, -⟩ := (Lexer.holds_ofText text file).take n
    exact ⟨l, htake⟩
  · rintro ⟨d, hd⟩
    obtain ⟨t, ⟨ht, pre, hyields, hpre⟩, -⟩ := (herror d).1 hd
    exact ⟨t, ht, pre, hyields, fun u hu => (hpre u hu).1⟩
  · rintro ⟨t, ht⟩
    obtain ⟨u, hu⟩ := Cursor.exists_firstIllegal ht
    exact ⟨_, (herror _).2 ⟨u, hu, rfl⟩⟩
  · obtain ⟨rfl, -⟩ := tokenize_eq_ok_iff.1 htokens
    have htake := (Cursor.ofText text file).take_ofList_tokens
    obtain ⟨body, last, hbody, hlast, -, hlist⟩ := (Cursor.ofText text file).take_tokens
    obtain ⟨hprogram, herrors, hupcoming⟩ := Parser.program_congr htake
    have hwindow := List.cons.inj (hupcoming 0)
    exact ⟨htake, ⟨body, last, hbody, hlast, hlist⟩, hprogram, herrors, hwindow.1,
      (List.cons.inj hwindow.2).1⟩

/-- The tokens of the text `let "s" // c`. -/
def tokensOfLetString : List Token :=
  [⟨.keyword .letWord, "let", ⟨⟨0, "shell"⟩, ⟨3, "shell"⟩⟩⟩,
    ⟨.string, "s", ⟨⟨4, "shell"⟩, ⟨7, "shell"⟩⟩⟩, .eof ⟨⟨12, "shell"⟩, ⟨12, "shell"⟩⟩]

/-- The hypotheses of `tokenize_agrees` are satisfiable by a text with a string, a comment and an
error: read either way, the string is a statement, and the error is that it is not a name.  With an
`@` on the next line the text is refused, for the `@`, which is the first illegal token. -/
theorem tokenize_agrees_letString :
    tokenize "let \"s\" // c" none = .ok tokensOfLetString ∧
      (parse tokensOfLetString).1.body = [.expression ⟨.string, "s", ⟨⟨4, "shell"⟩, ⟨7, "shell"⟩⟩⟩
        (.string ⟨.string, "s", ⟨⟨4, "shell"⟩, ⟨7, "shell"⟩⟩⟩ "s")] ∧
      (parse tokensOfLetString).2.errors =
        [⟨.unexpectedToken .identifier .string, ⟨4, "shell"⟩⟩] ∧
      (parse tokensOfLetString).1 = (parseText "let \"s\" // c" none).1 ∧
      (parse tokensOfLetString).2.errors = (parseText "let \"s\" // c" none).2.errors ∧
      tokenize "let \"s\" // c\n@" none = .error ⟨.unrecognisedToken "@", ⟨13, "shell"⟩⟩ ∧
      ∃ t, TokenSource.FirstIllegal (Cursor.ofText "let \"s\" // c\n@" none) t ∧
        t.start = ⟨13, "shell"⟩ := by
  have hok : tokenize "let \"s\" // c" none = .ok tokensOfLetString :=
    tokenize_eq_ok_iff.2 (by decide +kernel)
  obtain ⟨-, -, hprogram, herrors, -⟩ :=
    (tokenize_agrees "let \"s\" // c" none).2.2.2 tokensOfLetString hok
  have hfind : (Cursor.ofText "let \"s\" // c\n@" none).tokens.find? (·.kind = .illegal) =
      some ⟨.illegal, "@", ⟨⟨13, "shell"⟩, ⟨14, "shell"⟩⟩⟩ := by decide +kernel
  have hrefused : tokenize "let \"s\" // c\n@" none =
      .error ⟨.unrecognisedToken "@", ⟨13, "shell"⟩⟩ := by
    rw [tokenize_eq, hfind]
    rfl
  obtain ⟨t, hfirst, hsame⟩ := ((tokenize_agrees "let \"s\" // c\n@" none).2.2.1 _).1 hrefused
  exact ⟨hok, by decide +kernel, by decide +kernel, hprogram, herrors, hrefused, t, hfirst,
    (congrArg Diagnostic.position hsame).symm⟩

end MonkeySyntax

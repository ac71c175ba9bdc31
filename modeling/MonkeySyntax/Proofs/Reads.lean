/-
# The tokens between two windows

`w.Reads ts v` says that moving on from `w` to `v` passes over the tokens `ts`, the current one of
`w` being the first of them and the current one of `v` the first that is still to come.  A piece of
text that ends in the current token of a window `w` is therefore read up to `w.advance`.

The window of a list of tokens reads that list (`Window.reads_start`), and nothing that is not in
it, ends of the input aside: whatever is picked from the tokens read is picked from the list
(`Window.Reads.picked`).
-/

import MonkeySyntax.Parsing.Window
import MonkeySyntax.Token.Stream

namespace MonkeySyntax

/-- The tokens `us` are some of `ts`, in the same order, and no end of the input is among them. -/
def Token.Picked (us ts : List Token) : Prop := us.Sublist (ts.filter (·.kind ≠ .eof))

namespace Token.Picked

variable {t : Token} {ts ts' us us' : List Token}

/-- From any list, no tokens are picked. -/
theorem nil (ts : List Token) : Picked [] ts := List.nil_sublist _

/-- A token that is not the end of the input is picked with those after it. -/
theorem cons (ht : t.kind ≠ .eof) (h : Picked us ts) : Picked (t :: us) (t :: ts) := by
  rw [Picked, List.filter_cons_of_pos (by simpa using ht)]
  exact h.cons_cons t

/-- Tokens picked from two lists are picked from both in a row. -/
theorem append (h : Picked us ts) (k : Picked us' ts') : Picked (us ++ us') (ts ++ ts') := by
  rw [Picked, List.filter_append]
  exact List.Sublist.append h k

/-- Tokens picked from a list are picked from any list that it is part of. -/
theorem mono (h : Picked us ts) (hts : ts.Sublist ts') : Picked us ts' := h.trans (hts.filter _)

/-- One more token before a list may be passed over. -/
theorem skip (t : Token) (h : Picked us ts) : Picked us (t :: ts) :=
  h.mono (List.sublist_cons_self t ts)

/-- Tokens after a list may be passed over. -/
theorem before (ts' : List Token) (h : Picked us ts) : Picked us (ts ++ ts') :=
  h.mono (List.sublist_append_left ts ts')

/-- Tokens before a list may be passed over. -/
theorem after (ts' : List Token) (h : Picked us ts) : Picked us (ts' ++ ts) :=
  h.mono (List.sublist_append_right ts' ts)

end Token.Picked

namespace Window

variable {σ : Type} [TokenSource σ]

/-- Moving on from the first window to the second passes over the tokens in between. -/
inductive Reads : Window σ → List Token → Window σ → Prop
  | nil (w : Window σ) : Reads w [] w
  | cons {w v : Window σ} {ts : List Token} : Reads w.advance ts v → Reads w (w.current :: ts) v

namespace Reads

variable {u v w : Window σ} {t : Token} {ts us : List Token}

/-- One step reads the current token. -/
theorem one (w : Window σ) : w.Reads [w.current] w.advance := .cons (.nil _)

/-- Reading on is reading more. -/
theorem append (h : w.Reads ts u) (k : u.Reads us v) : w.Reads (ts ++ us) v := by
  induction h with
  | nil => exact k
  | cons _ ih => exact .cons (ih k)

/-- Whatever a window moves on over is read. -/
theorem of_onward (h : w.Onward v) : ∃ ts, w.Reads ts v := by
  induction h with
  | refl w => exact ⟨[], .nil w⟩
  | step _ ih =>
    obtain ⟨ts, h⟩ := ih
    exact ⟨_, .cons h⟩

/-- What is read is moved on over. -/
theorem onward (h : w.Reads ts v) : w.Onward v := by
  induction h with
  | nil w => exact .refl w
  | cons _ ih => exact .step ih

/-- Nothing is read, or the current token first. -/
theorem nil_or_cons (h : w.Reads ts v) : v = w ∧ ts = [] ∨ w.current :: ts.tail = ts := by
  cases h with
  | nil => exact .inl ⟨rfl, rfl⟩
  | cons => exact .inr rfl

end Reads

variable {v w : Window σ} {t : Token} {ts us : List Token}

/-- Nothing is read where nothing moves. -/
theorem reads_nil_iff : w.Reads [] v ↔ v = w := by
  constructor
  · rintro ⟨⟩
    rfl
  · rintro rfl
    exact .nil _

/-- Tokens are read one after the other. -/
theorem reads_cons_iff : w.Reads (t :: ts) v ↔ w.current = t ∧ w.advance.Reads ts v := by
  constructor
  · rintro (_ | h)
    exact ⟨rfl, h⟩
  · rintro ⟨rfl, h⟩
    exact .cons h

/-- Between two lists that are read there is a window. -/
theorem reads_append_iff : w.Reads (ts ++ us) v ↔ ∃ u, w.Reads ts u ∧ u.Reads us v := by
  constructor
  · induction ts generalizing w with
    | nil => exact fun h => ⟨w, .nil w, h⟩
    | cons t ts ih =>
      rw [List.cons_append, reads_cons_iff]
      rintro ⟨rfl, h⟩
      obtain ⟨u, hu, hv⟩ := ih h
      exact ⟨u, .cons hu, hv⟩
  · rintro ⟨u, hu, hv⟩
    exact hu.append hv

/-- What is read between two tokens. -/
theorem reads_between_iff {t' : Token} :
    w.Reads (t :: (ts ++ [t'])) v ↔
      w.current = t ∧ ∃ u, w.advance.Reads ts u ∧ u.current = t' ∧ u.advance = v := by
  rw [reads_cons_iff, reads_append_iff]
  refine and_congr_right fun _ => exists_congr fun u => and_congr_right fun _ => ?_
  rw [reads_cons_iff, reads_nil_iff]
  exact and_congr_right fun _ => eq_comm

/-- **What is read up to the end of the input is determined,** if the end is not in it. -/
theorem Reads.unique {v' : Window σ} (h : w.Reads ts v) (h' : w.Reads us v')
    (hv : v.current.kind = .eof) (hv' : v'.current.kind = .eof)
    (hts : ∀ t ∈ ts, t.kind ≠ .eof) (hus : ∀ t ∈ us, t.kind ≠ .eof) : ts = us := by
  induction h generalizing us with
  | nil w =>
    cases h' with
    | nil => rfl
    | cons => exact absurd hv (hus _ (List.mem_cons_self ..))
  | cons _ ih =>
    cases h' with
    | nil => exact absurd hv' (hts _ (List.mem_cons_self ..))
    | cons h' =>
      rw [ih h' hv (fun t ht => hts t (List.mem_cons_of_mem _ ht))
        fun t ht => hus t (List.mem_cons_of_mem _ ht)]

/-- **What is read up to a token of the input is determined,** since no window comes back to it. -/
theorem Reads.eq_of_ne_eof (h : w.Reads ts v) (h' : w.Reads us v) (hv : v.current.kind ≠ .eof) :
    ts = us := by
  have hleaves {v : Window σ} {us : List Token} (hv : v.current.kind ≠ .eof)
      (hus : v.advance.Reads us v) : False :=
    Nat.not_lt_of_le hus.onward.left_le ((Onward.refl v).left_advance_lt hv)
  induction h generalizing us with
  | nil w =>
    cases h' with
    | nil => rfl
    | cons h' => exact (hleaves hv h').elim
  | cons h ih =>
    cases h' with
    | nil => exact (hleaves hv h).elim
    | cons h' => rw [ih h' hv]

/-! ### Lists of tokens -/

section

variable (final : Token) (hfinal : final.kind = .eof)

/-- The window at which the tokens `ts` are still to come, and after them the end `final`. -/
def before : List Token → Window Stream
  | [] => ⟨⟨[], final, hfinal⟩, final, final⟩
  | [t] => ⟨⟨[], final, hfinal⟩, t, final⟩
  | t :: u :: ts => ⟨⟨ts, final, hfinal⟩, t, u⟩

/-- A step leaves one token less to come. -/
theorem advance_before (t : Token) (ts : List Token) :
    (before final hfinal (t :: ts)).advance = before final hfinal ts := by
  rcases ts with _ | ⟨u, _ | ⟨v, ts⟩⟩ <;> rfl

/-- The first token that is to come is the current one. -/
theorem current_before (t : Token) (ts : List Token) :
    (before final hfinal (t :: ts)).current = t := by
  rcases ts with _ | ⟨u, ts⟩ <;> rfl

/-- The tokens that are to come are read. -/
theorem reads_before (ts us : List Token) :
    (before final hfinal (ts ++ us)).Reads ts (before final hfinal us) := by
  induction ts with
  | nil => exact .nil _
  | cons t ts ih =>
    rw [List.cons_append, reads_cons_iff, advance_before]
    exact ⟨current_before .., ih⟩

/-- At the start of a list all of it is to come. -/
theorem start_eq_before (ts : List Token) :
    start ⟨ts, final, hfinal⟩ = before final hfinal ts := by
  rcases ts with _ | ⟨t, _ | ⟨u, ts⟩⟩ <;> rfl

end

/-- **A list of tokens is read** up to an end of input that follows it. -/
theorem reads_start (ts : List Token) {final : Token} (hfinal : final.kind = .eof) :
    ∃ v, (start (Stream.ofList (ts ++ [final]))).Reads ts v ∧ v.current.kind = .eof := by
  rw [Stream.ofList, start_eq_before]
  exact ⟨_, reads_before _ _ ts [final], by rw [current_before, hfinal]⟩

/-- But for ends of the input, what is read from a list is part of it, in order. -/
theorem Reads.filter_sublist {ts us : List Token} {final : Token} {hfinal : final.kind = .eof}
    {v : Window Stream} (h : (before final hfinal ts).Reads us v) :
    (us.filter (·.kind ≠ .eof)).Sublist (ts.filter (·.kind ≠ .eof)) := by
  induction us generalizing ts with
  | nil => exact List.nil_sublist _
  | cons u us ih =>
    obtain ⟨rfl, hus⟩ := reads_cons_iff.1 h
    cases ts with
    | nil =>
      -- past the last token of the list, only its end of the input is read
      have hcurrent : (before final hfinal []).current = final := rfl
      rw [hcurrent, List.filter_cons_of_neg (by simpa using hfinal)]
      exact @ih [] hus
    | cons t ts =>
      rw [advance_before] at hus
      rw [current_before, List.filter_cons, List.filter_cons]
      split
      · exact (ih hus).cons_cons t
      · exact ih hus

/-- **What is read from a list of tokens is in it,** ends of the input aside. -/
theorem Reads.picked {ts us ks : List Token} {v : Window Stream}
    (h : (start (Stream.ofList ts)).Reads us v) (hk : Token.Picked ks us) : Token.Picked ks ts := by
  rw [Stream.ofList, start_eq_before] at h
  exact hk.trans h.filter_sublist

end Window
end MonkeySyntax

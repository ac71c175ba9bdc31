/-
# Spellings without their junk

A spelling may have junk in it, the tokens of statements that were dropped.  What is left of it
without the junk is a spelling of the same thing (`Spells.sifted`), and every curly bracket that is
opened in it is closed in it (`Spells.level`).
-/

import MonkeySyntax.Proofs.Discipline
import MonkeySyntax.Proofs.Due
import MonkeySyntax.Proofs.Spelling

namespace MonkeySyntax

open MonkeySyntax.Spelling

/-- As many curly brackets are opened as closed. -/
def Level (ts : List Token) : Prop := openers ts = closers ts

namespace Level

variable {t o c : Token} {ts us : List Token}

/-- No tokens leave no bracket open. -/
theorem nil : Level [] := rfl

/-- Two lists in a row leave none open if neither does. -/
theorem append (h : Level ts) (k : Level us) : Level (ts ++ us) := by
  rw [Level, openers_append, closers_append, h, k]

/-- A token that is no curly bracket leaves none open. -/
theorem cons (ht : t.kind.NoCurly) (h : Level ts) : Level (t :: ts) := by
  have hplain : Level [t] := by simp [Level, openers, closers, ht.1, ht.2]
  exact hplain.append h

/-- Curly brackets around what leaves none open leave none open. -/
theorem between (ho : o.kind = .mark .openCurly) (hc : c.kind = .mark .closeCurly)
    (h : Level ts) : Level (o :: (ts ++ [c])) := by
  have hsplit : o :: (ts ++ [c]) = [o] ++ ts ++ [c] := rfl
  rw [Level, hsplit, openers_append, openers_append, closers_append, closers_append, h]
  simp [openers, closers, ho, hc, Nat.add_comm]

end Level

/-- There are no curly brackets in further parameters. -/
theorem Spelling.MoreNames.level {ns : List Identifier} {ts : List Token} (h : MoreNames ns ts) :
    Level ts := by
  induction h with
  | nil => exact .nil
  | cons hc ht _ ih => exact .cons (hc ▸ by decide) (.cons (ht ▸ by decide) ih)

/-- There are no curly brackets in parameters. -/
theorem Spelling.Names.level {ns : List Identifier} {ts : List Token} (h : Names ns ts) :
    Level ts := by
  cases h with
  | nil => exact .nil
  | cons ht h => exact .cons (ht ▸ by decide) h.level

namespace Spells

variable {L : Leeway} {f : Form} {ts : List Token} {d : Nat}

/-- **Without junk, curly brackets are closed where they are opened.** -/
theorem level (hj : ¬ L.junk) (h : Spells L f ts d) : Level ts := by
  induction h with
  | identifier ht | integer ht | string ht | bareReturn ht => exact .cons (ht ▸ by decide) .nil
  | @boolean _ _ b ht => exact .cons (ht ▸ by cases b <;> decide) .nil
  | prefixOp ht _ _ ih => exact .cons (by rcases ht with ht | ht <;> rw [ht] <;> decide) ih
  | infixOp ht _ _ _ ihl ihr =>
    refine ihl.append (.cons ⟨fun hk => ?_, fun hk => ?_⟩ ihr) <;>
    · rw [hk] at ht
      cases ht
  | call ho hc _ _ ihl ihr | index ho hc _ _ ihl ihr =>
    exact ihl.append (.cons (ho ▸ by decide) (ihr.append (.cons (hc ▸ by decide) .nil)))
  | array ho hc _ ih | grouped ho hc _ ih =>
    exact .cons (ho ▸ by decide) (ih.append (.cons (hc ▸ by decide) .nil))
  | hash ho hc _ ih | block ho hc _ ih => exact .between ho hc ih
  | conditional ht _ _ ihe ihb => exact .cons (ht ▸ by decide) (ihe.append ihb)
  | alternative ht ho _ _ _ ihe ihb iha =>
    exact .cons (ht ▸ by decide) (ihe.append (ihb.append (.cons (ho ▸ by decide) iha)))
  | function ht ho hc hn _ ih =>
    exact .cons (ht ▸ by decide) (.cons (ho ▸ by decide)
      (hn.level.append (.cons (hc ▸ by decide) ih)))
  | noExprs | noMore | noPairs | noStmts => exact .nil
  | exprs _ _ ihe ihs => exact ihe.append ihs
  | more hc _ _ ihe ihs => exact .cons (hc ▸ by decide) (ihe.append ihs)
  | lastPair hc _ _ ihk ihv => exact ihk.append (.cons (hc ▸ by decide) ihv)
  | pairs hc hm _ _ _ ihk ihv ihs =>
    exact ihk.append (.cons (hc ▸ by decide) (ihv.append (.cons (hm ▸ by decide) ihs)))
  | letBinding ht hi ha _ ih =>
    exact .cons (ht ▸ by decide) (.cons (hi ▸ by decide) (.cons (ha ▸ by decide) ih))
  | returnValue ht _ ih => exact .cons (ht ▸ by decide) ih
  | expression _ ih => exact ih
  | stmts _ hu _ ihs ihb =>
    cases hu with
    | semicolon ht => exact ihs.append (.cons (ht ▸ by decide) ihb)
    | none => exact ihs.append ihb
  | junk h => exact absurd h hj

end Spells

/-- Some of the tokens `ts`, in order, spell `f` without junk, with the same token first if `f` is
an expression. -/
def Form.Sifts (bare : Prop) (f : Form) (ts : List Token) (d : Nat) : Prop :=
  ∃ us, us.Sublist ts ∧ Spells ⟨bare, False⟩ f us d ∧
    ∀ n e, f = .expr n e → us.head? = ts.head?

namespace Spells

variable {L : Leeway} {f : Form} {ts : List Token} {d : Nat}

/-- What comes first stays first, if it does before `t`. -/
theorem head?_append_cons {us vs ws : List Token} (t : Token) (h : us.head? = ts.head?) :
    (us ++ t :: vs).head? = (ts ++ t :: ws).head? := by
  rw [List.head?_append, List.head?_append, h, List.head?_cons, List.head?_cons]

/-- **The junk in a spelling can be left out.** -/
theorem sifted (h : Spells L f ts d) : f.Sifts L.bare ts d := by
  -- junk comes before statements, so never before the first token of an expression
  induction h with
  | identifier ht => exact ⟨_, .refl _, .identifier ht, fun _ _ _ => rfl⟩
  | integer ht hv => exact ⟨_, .refl _, .integer ht hv, fun _ _ _ => rfl⟩
  | string ht => exact ⟨_, .refl _, .string ht, fun _ _ _ => rfl⟩
  | boolean ht => exact ⟨_, .refl _, .boolean ht, fun _ _ _ => rfl⟩
  | prefixOp ht hn _ ih =>
    obtain ⟨us, hus, h, -⟩ := ih
    exact ⟨_, hus.cons_cons _, .prefixOp ht hn h, fun _ _ _ => rfl⟩
  | infixOp ht hn _ _ ihl ihr =>
    obtain ⟨ls, hls, hl, hhead⟩ := ihl
    obtain ⟨rs, hrs, hr, -⟩ := ihr
    exact ⟨_, hls.append (hrs.cons_cons _), .infixOp ht hn hl hr,
      fun _ _ _ => head?_append_cons _ (hhead _ _ rfl)⟩
  | call ho hc _ _ ihf ihs =>
    obtain ⟨fs, hfs, hf, hhead⟩ := ihf
    obtain ⟨us, hus, hs, -⟩ := ihs
    exact ⟨_, hfs.append ((hus.append_right _).cons_cons _), .call ho hc hf hs,
      fun _ _ _ => head?_append_cons _ (hhead _ _ rfl)⟩
  | index ho hc _ _ ihl ihi =>
    obtain ⟨ls, hls, hl, hhead⟩ := ihl
    obtain ⟨us, hus, hi, -⟩ := ihi
    exact ⟨_, hls.append ((hus.append_right _).cons_cons _), .index ho hc hl hi,
      fun _ _ _ => head?_append_cons _ (hhead _ _ rfl)⟩
  | array ho hc _ ih =>
    obtain ⟨us, hus, h, -⟩ := ih
    exact ⟨_, (hus.append_right _).cons_cons _, .array ho hc h, fun _ _ _ => rfl⟩
  | hash ho hc _ ih =>
    obtain ⟨us, hus, h, -⟩ := ih
    exact ⟨_, (hus.append_right _).cons_cons _, .hash ho hc h, fun _ _ _ => rfl⟩
  | conditional ht _ _ ihe ihb =>
    obtain ⟨es, hes, he, -⟩ := ihe
    obtain ⟨bs, hbs, hb, -⟩ := ihb
    exact ⟨_, (hes.append hbs).cons_cons _, .conditional ht he hb, fun _ _ _ => rfl⟩
  | alternative ht ho _ _ _ ihe ihb iha =>
    obtain ⟨es, hes, he, -⟩ := ihe
    obtain ⟨bs, hbs, hb, -⟩ := ihb
    obtain ⟨as, has, ha, -⟩ := iha
    exact ⟨_, (hes.append (hbs.append (has.cons_cons _))).cons_cons _, .alternative ht ho he hb ha,
      fun _ _ _ => rfl⟩
  | function ht ho hc hn _ ih =>
    obtain ⟨us, hus, h, -⟩ := ih
    exact ⟨_, (((hus.cons_cons _).append_left _).cons_cons _).cons_cons _,
      .function ht ho hc hn h, fun _ _ _ => rfl⟩
  | grouped ho hc _ ih =>
    obtain ⟨us, hus, h, -⟩ := ih
    exact ⟨_, (hus.append_right _).cons_cons _, .grouped ho hc h, fun _ _ _ => rfl⟩
  | noExprs => exact ⟨[], .refl _, .noExprs, by simp⟩
  | exprs _ _ ihe ihs =>
    obtain ⟨es, hes, he, -⟩ := ihe
    obtain ⟨us, hus, hs, -⟩ := ihs
    exact ⟨_, hes.append hus, .exprs he hs, by simp⟩
  | noMore => exact ⟨[], .refl _, .noMore, by simp⟩
  | more hc _ _ ihe ihs =>
    obtain ⟨es, hes, he, -⟩ := ihe
    obtain ⟨us, hus, hs, -⟩ := ihs
    exact ⟨_, (hes.append hus).cons_cons _, .more hc he hs, by simp⟩
  | noPairs => exact ⟨[], .refl _, .noPairs, by simp⟩
  | lastPair hc _ _ ihk ihv =>
    obtain ⟨ks, hks, hk, -⟩ := ihk
    obtain ⟨vs, hvs, hv, -⟩ := ihv
    exact ⟨_, hks.append (hvs.cons_cons _), .lastPair hc hk hv, by simp⟩
  | pairs hc hm _ _ _ ihk ihv ihs =>
    obtain ⟨ks, hks, hk, -⟩ := ihk
    obtain ⟨vs, hvs, hv, -⟩ := ihv
    obtain ⟨us, hus, hs, -⟩ := ihs
    exact ⟨_, hks.append ((hvs.append (hus.cons_cons _)).cons_cons _), .pairs hc hm hk hv hs,
      by simp⟩
  | block ho hc _ ih =>
    obtain ⟨us, hus, h, -⟩ := ih
    exact ⟨_, (hus.append_right _).cons_cons _, .block ho hc h, by simp⟩
  | letBinding ht hi ha _ ih =>
    obtain ⟨us, hus, h, -⟩ := ih
    exact ⟨_, ((hus.cons_cons _).cons_cons _).cons_cons _, .letBinding ht hi ha h, by simp⟩
  | bareReturn ht => exact ⟨_, .refl _, .bareReturn ht, by simp⟩
  | returnValue ht _ ih =>
    obtain ⟨us, hus, h, -⟩ := ih
    exact ⟨_, hus.cons_cons _, .returnValue ht h, by simp⟩
  | expression _ ih =>
    obtain ⟨us, hus, h, hhead⟩ := ih
    obtain ⟨us, rfl⟩ := List.head?_eq_some_iff.1 (hhead _ _ rfl)
    exact ⟨_, hus, .expression h, by simp⟩
  | noStmts => exact ⟨[], .refl _, .noStmts, by simp⟩
  | stmts _ hu _ ihs ihb =>
    obtain ⟨us, hus, hs, -⟩ := ihs
    obtain ⟨vs, hvs, hb, -⟩ := ihb
    exact ⟨_, hus.append (hvs.append_left _), .stmts hs hu hb, by simp⟩
  | junk _ _ ih =>
    obtain ⟨us, hus, h, -⟩ := ih
    exact ⟨us, hus.trans (List.sublist_append_right ..), h, by simp⟩

end Spells
end MonkeySyntax

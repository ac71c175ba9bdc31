/-
# Where the caret stands

The source row of a rendering shows a line without its indentation, and the row below it points at a
column.  The column counts bytes, less those of the indentation, which are as many as its
characters.  So the caret is as far to the right as the text shown before the place has bytes:

| before the place on its line | caret |
| --- | --- |
| characters of one byte only, tabs too | under the character at the place |
| any others | to the right of it, by one for every further byte |

A token never begins with a blank, so the place of a token is behind the indentation, and its first
character is not among the blanks that the row drops from its end (`caret_column`).
-/

import MonkeySyntax.Diagnostic.Render
import MonkeySyntax.Parsing.Program
import MonkeySyntax.Proofs.Joints
import MonkeySyntax.Proofs.Places

namespace MonkeySyntax

open Text (byteLength isBlank)

namespace Text

variable {cs as bs : List Char} {c : Char}

/-- A text has at least as many bytes as characters. -/
theorem length_le_byteLength (cs : List Char) : cs.length ≤ byteLength cs := by
  induction cs with
  | nil => exact Nat.le_refl _
  | cons c cs ih =>
    have hsize := c.utf8Size_pos
    simp only [List.length_cons, byteLength_cons]
    omega

/-- **There are as many bytes as characters** in ASCII texts, and only there. -/
theorem byteLength_eq_length_iff :
    byteLength cs = cs.length ↔ ∀ c ∈ cs, c.val ≤ 127 := by
  induction cs with
  | nil => simp
  | cons c cs ih =>
    have hsize := c.utf8Size_pos
    have hle := length_le_byteLength cs
    rw [List.forall_mem_cons, ← ih, ← Char.utf8Size_eq_one_iff, byteLength_cons, List.length_cons]
    omega

/-- A character that is no blank is not trimmed, nor is what comes before it. -/
theorem trimEnd_append (as bs : List Char) (hc : isBlank c = false) :
    trimEnd (as ++ c :: bs) = as ++ c :: trimEnd bs := by
  have hkept : (c :: as.reverse).dropWhile isBlank = c :: as.reverse :=
    List.dropWhile_cons_of_neg (by simp [hc])
  rw [trimEnd, trimEnd, List.reverse_append, List.reverse_cons, List.append_assoc,
    List.singleton_append, List.dropWhile_append]
  split
  · rename_i hempty
    rw [hkept, List.isEmpty_iff.1 hempty]
    simp
  · simp

/-- A blank at the end is trimmed. -/
theorem trimEnd_concat (as : List Char) (hc : isBlank c) : trimEnd (as ++ [c]) = trimEnd as := by
  rw [trimEnd, trimEnd, List.reverse_append, List.reverse_singleton, List.singleton_append,
    List.dropWhile_cons_of_pos hc]

/-- What is left of a trimmed line was in it. -/
theorem mem_of_mem_trimEnd (h : c ∈ trimEnd cs) : c ∈ cs :=
  List.mem_reverse.1 ((List.dropWhile_sublist _).mem (List.mem_reverse.1 h))

/-- No line feed is left in a line that is trimmed. -/
theorem lineFeed_not_mem_trimEnd {line body : List Char} (hbody : '\n' ∉ body)
    (hline : line = body ++ ['\n'] ∨ line = body) : '\n' ∉ trimEnd line := by
  have htrimmed : trimEnd line = trimEnd body := by
    rcases hline with rfl | rfl
    · exact trimEnd_concat body (by decide)
    · rfl
  rw [htrimmed]
  exact fun hmem => hbody (mem_of_mem_trimEnd hmem)

end Text

namespace Diagnostic

/-- What a line is indented by is blank. -/
theorem isBlank_of_isIndent {c : Char} (h : isIndent c) : isBlank c := by
  rcases (Bool.or_eq_true_iff ..).1 h with h | h <;>
  · rw [of_decide_eq_true h]
    decide

/-- An indentation has as many bytes as characters. -/
theorem byteLength_takeWhile (head : List Char) :
    byteLength (head.takeWhile isIndent) = (head.takeWhile isIndent).length := by
  refine Text.byteLength_eq_length_iff.2 fun c hc => ?_
  have hindent : isIndent c := List.all_eq_true.1 List.all_takeWhile c hc
  rcases (Bool.or_eq_true_iff ..).1 hindent with h | h <;>
  · rw [of_decide_eq_true h]
    decide

/-- The indentation of a line ends before a character that is no blank. -/
theorem split_indent {c : Char} (head tail : List Char) (hc : isBlank c = false) :
    (head ++ c :: tail).takeWhile isIndent = head.takeWhile isIndent ∧
      (head ++ c :: tail).dropWhile isIndent = head.dropWhile isIndent ++ c :: tail := by
  have hindent : isIndent c = false :=
    Bool.eq_false_iff.2 fun h => Bool.eq_false_iff.1 hc (isBlank_of_isIndent h)
  induction head with
  | nil => simp [hindent]
  | cons x head ih => cases hx : isIndent x <;> simp [hx, ih]

/-- The text `out` ends with the row `row` and, under it, a row with `column` characters and then
the only `^` in it. -/
def PointsUnder (out row : List Char) (column : Nat) : Prop :=
  ∃ above dashes, out = above ++ '\n' :: (row ++ '\n' :: (dashes ++ ['^'])) ∧ '\n' ∉ row ∧
    '\n' ∉ dashes ∧ '^' ∉ dashes ∧ dashes.length = column

/-- What stands before the line in the row that shows it. -/
def label (number : Nat) : List Char := Nat.toDigits 10 number ++ [' ', '|', ' ']

/-- The last two rows of a rendering are the line and the pointer under it. -/
theorem toList_render (d : Diagnostic) (source : String) : ∃ above,
    (d.render source).toList = above ++ '\n' ::
      (sourceRow (Text.place source.toList d.position.offset.toNat) ++ '\n' ::
        pointerRow (Text.place source.toList d.position.offset.toNat)) := by
  refine ⟨titleRow d.cause ++ '\n' :: (("-> " ++ d.position.file).toList ++ '\n' ::
    gutter (Text.place source.toList d.position.offset.toNat).number), ?_⟩
  simp [render, rows, String.intercalate_cons_cons]

/-- The pointer comes after what stands before the line and as many dashes as the place asks for. -/
theorem pointerRow_eq (p : Text.Place) : ∃ pad, pointerRow p = pad ++ ['^'] ∧ '\n' ∉ pad ∧
    '^' ∉ pad ∧ pad.length = (label p.number).length + dashes p := by
  refine ⟨gutter p.number ++ ' ' :: List.replicate (dashes p) '-', rfl, ?_, ?_, ?_⟩
  · simp [gutter]
  · simp [gutter]
  · simp [gutter, label]
    omega

/-- Both rows leave out the indentation: the one its characters, the other as many of its bytes. -/
theorem rows_of_place (number : Nat) (head tail : List Char) {c : Char} (hc : isBlank c = false) :
    let p : Text.Place := ⟨number, head ++ c :: tail, byteLength head⟩
    sourceRow p = label number ++ (head.dropWhile isIndent ++ c :: Text.trimEnd tail) ∧
      dashes p = byteLength (head.dropWhile isIndent) := by
  intro p
  obtain ⟨htake, hdrop⟩ := split_indent head tail hc
  constructor
  · rw [sourceRow, shownLine, hdrop, Text.trimEnd_append _ _ hc]
    rfl
  · have hhead : byteLength head =
        (head.takeWhile isIndent).length + byteLength (head.dropWhile isIndent) := by
      rw [← byteLength_takeWhile, ← Text.byteLength_append, List.takeWhile_append_dropWhile]
    show byteLength head - ((head ++ c :: tail).takeWhile isIndent).length = _
    rw [htake, hhead]
    exact Nat.add_sub_cancel_left ..

/-- What stands before the line is on one row with it. -/
theorem lineFeed_not_mem_label (number : Nat) : '\n' ∉ label number := by
  intro h
  rcases List.mem_append.1 h with h | h
  · have hdigit := Nat.isDigit_of_mem_toDigits (by decide) (Nat.le_refl 10) h
    revert hdigit
    decide
  · revert h
    decide

/-- **The caret is as far to the right as the text shown before the place has bytes.**  The place is
before the character `c`, which is no blank; `front` are the lines before its own. -/
theorem render_points (d : Diagnostic) (source : String) {before after : List Char} {c : Char}
    (hsource : source.toList = before ++ c :: after) (hc : isBlank c = false)
    (hoffset : d.position.offset.toNat = byteLength before) :
    ∃ front indent shown more, before = front ++ (indent ++ shown) ∧
      (∀ x ∈ front.getLast?, x = '\n') ∧ '\n' ∉ indent ++ shown ∧ (∀ x ∈ indent, isIndent x) ∧
      PointsUnder (d.render source).toList
        (label (1 + front.count '\n') ++ (shown ++ c :: more))
        ((label (1 + front.count '\n')).length + byteLength shown) := by
  obtain ⟨pre, head, tail, post, hlines, rfl, hhead, hplace⟩ := Text.exists_place before c after
  have hsegments := Text.segments_iff.2 hlines.symm
  obtain ⟨hcount, body, hbody, hline⟩ := hsegments.split
  rw [← hsource, ← hoffset] at hplace
  obtain ⟨hsourceRow, hdashes⟩ := rows_of_place (1 + pre.length) head tail hc
  obtain ⟨above, habove⟩ := toList_render d source
  rw [hplace] at habove
  obtain ⟨pad, hpad, hline', hcaret, hlength⟩ :=
    pointerRow_eq ⟨1 + pre.length, head ++ c :: tail, byteLength head⟩
  have hsplit : head.takeWhile isIndent ++ head.dropWhile isIndent = head :=
    List.takeWhile_append_dropWhile
  refine ⟨pre.flatten, head.takeWhile isIndent, head.dropWhile isIndent, Text.trimEnd tail,
    by rw [hsplit], hsegments.getLast?_flatten, by rwa [hsplit],
    List.all_eq_true.1 List.all_takeWhile, above, pad, ?_, ?_, hline', hcaret, ?_⟩
  · rw [habove, hsourceRow, hpad, hcount]
  · have htrimmed := Text.lineFeed_not_mem_trimEnd hbody hline
    rw [Text.trimEnd_append head tail hc, ← hsplit, List.append_assoc, List.mem_append] at htrimmed
    rw [List.mem_append]
    exact not_or.2 ⟨lineFeed_not_mem_label _, (not_or.1 htrimmed).2⟩
  · rw [hlength, hdashes, hcount]

end Diagnostic

namespace Cursor

/-- **A token begins with a character that is no blank.** -/
theorem start_solid {c : Cursor} (h : c.next.1.kind ≠ .eof) : ∃ used ch tail,
    c.rest = used ++ ch :: tail ∧ isBlank ch = false ∧
      c.next.1.start = ⟨.ofNat (c.pos + byteLength used), c.file⟩ := by
  fun_induction next c with
  | case1 c hr => exact absurd rfl h
  | case2 c ch tail hr hf d =>
    -- a blank would begin a lexeme
    refine ⟨[], ch, tail, hr, Bool.eq_false_iff.2 fun hblank => ?_, rfl⟩
    have hlexeme : [ch] ∈ Pattern.lexemes :=
      ⟨.blanks, Pattern.mem_table _,
        Pattern.mem_mul_kstar_iff.2 ⟨ch, [], rfl, hblank, List.forall_mem_nil _⟩⟩
    exact Pattern.first?_eq_none_iff.1 hf _ hlexeme ⟨tail, hr.symm⟩
  | case3 c ch tail hr p lexeme rest hf d kind value ht =>
    have hsplit := (Pattern.split_eq_some (Pattern.first?_eq_some hf)).1
    obtain ⟨x, xs, rfl, -, hx⟩ := Pattern.exists_of_token? (Pattern.mem_of_first? hf) ht
    exact ⟨[], x, xs ++ rest, hsplit, hx, rfl⟩
  | case4 c ch tail hr p lexeme rest hf d ht ih =>
    have hsplit := (Pattern.split_eq_some (Pattern.first?_eq_some hf)).1
    obtain ⟨used, x, xs, hused, hx, hstart⟩ := ih h
    refine ⟨lexeme ++ used, x, xs, ?_, hx, ?_⟩
    · rw [hsplit, List.append_assoc, ← hused]
      rfl
    · rw [hstart, Text.byteLength_append, ← Nat.add_assoc]
      rfl

/-- **So does every token of a text.** -/
theorem exists_start {c : Cursor} {t : Token} (ht : t ∈ c.tokens) (hkind : t.kind ≠ .eof) :
    ∃ before ch after, c.rest = before ++ ch :: after ∧ isBlank ch = false ∧
      t.start = ⟨.ofNat (c.pos + byteLength before), c.file⟩ := by
  fun_induction tokens c with
  | case1 c heof =>
    rw [List.mem_singleton.1 ht] at hkind
    exact absurd heof hkind
  | case2 c hne ih =>
    rcases List.mem_cons.1 ht with rfl | ht
    · exact start_solid hne
    · obtain ⟨used, hused, hpos, hfile⟩ := c.next_splits
      obtain ⟨before, ch, after, hsplit, hch, hstart⟩ := ih ht
      refine ⟨used ++ before, ch, after, ?_, hch, ?_⟩
      · rw [hused, hsplit, List.append_assoc]
      · rw [hstart, hpos, hfile, Text.byteLength_append, Nat.add_assoc]

end Cursor

open Diagnostic in
/-- **The caret of a diagnostic at a token stands under the token where only ASCII is shown before
it,** and further to the right everywhere else.

The token begins with the character `c`, on the line after the lines `front`.  The last two rows are
the line without its indentation, and the caret, which has the line's label before it and as many
characters more as the text before `c` has bytes.  Nothing is asked of the diagnostic but its place;
those that parsing the text records are among them. -/
theorem caret_column (text : String) (file : Option String) {t : Token} {d : Diagnostic}
    (htext : byteLength text.toList < 2 ^ 32) (ht : t ∈ (Cursor.ofText text file).tokens)
    (hkind : t.kind ≠ .eof) (hd : d.position = t.start) :
    ∃ front indent shown c rest more, text.toList = front ++ (indent ++ (shown ++ c :: rest)) ∧
      byteLength (front ++ (indent ++ shown)) = t.beginsAt ∧ isBlank c = false ∧
      (∀ x ∈ front.getLast?, x = '\n') ∧ '\n' ∉ indent ++ shown ∧ (∀ x ∈ indent, isIndent x) ∧
      PointsUnder (d.render text).toList
        (label (1 + front.count '\n') ++ (shown ++ c :: more))
        ((label (1 + front.count '\n')).length + byteLength shown) ∧
      ((label (1 + front.count '\n')).length + byteLength shown =
        (label (1 + front.count '\n') ++ shown).length ↔ ∀ x ∈ shown, x.val ≤ 127) := by
  obtain ⟨before, c, rest, hsplit, hc, hstart⟩ := Cursor.exists_start ht hkind
  have htoList : text.toList = before ++ c :: rest := hsplit
  have hbefore : byteLength before < 2 ^ 32 := by
    rw [htoList, Text.byteLength_append] at htext
    omega
  have hbegins : t.beginsAt = byteLength before := by
    have hoffset : t.start.offset = .ofNat (byteLength before) := by
      rw [hstart]
      exact congrArg UInt32.ofNat (Nat.zero_add _)
    exact (congrArg UInt32.toNat hoffset).trans (UInt32.toNat_ofNat_of_lt' hbefore)
  have hplace : d.position.offset.toNat = byteLength before := by
    rw [hd, ← hbegins]
    rfl
  obtain ⟨front, indent, shown, more, rfl, hfront, hline, hindent, hpoints⟩ :=
    render_points d text htoList hc hplace
  refine ⟨front, indent, shown, c, rest, more, ?_, hbegins.symm, hc, hfront, hline, hindent,
    hpoints, ?_⟩
  · rw [htoList, List.append_assoc, List.append_assoc]
  · rw [List.length_append, Nat.add_left_cancel_iff, Text.byteLength_eq_length_iff]

/-- The `5` of `let x 5;`. -/
def strayNumber : Token := ⟨.integer, "5", .ofBytes "shell" 6 7⟩

open Diagnostic in
/-- The hypotheses of `caret_column` are satisfiable: in `let x 5;` the `5` is reported, and the
caret is as far to the right as there are bytes shown before it. -/
theorem caret_column_strayNumber :
    byteLength "let x 5;".toList < 2 ^ 32 ∧
      strayNumber ∈ (Cursor.ofText "let x 5;" none).tokens ∧ strayNumber.kind ≠ .eof ∧
      ∃ d ∈ (parseText "let x 5;" none).2.errors, d.position = strayNumber.start ∧
        ∃ front indent shown c more, byteLength (front ++ (indent ++ shown)) = 6 ∧
          PointsUnder (d.render "let x 5;").toList
            (label (1 + front.count '\n') ++ (shown ++ c :: more))
            ((label (1 + front.count '\n')).length + byteLength shown) := by
  have hlength : byteLength "let x 5;".toList < 2 ^ 32 := by decide +kernel
  have hmem : strayNumber ∈ (Cursor.ofText "let x 5;" none).tokens := by decide +kernel
  have herror : ⟨.unexpectedToken (.mark .assign) .integer, strayNumber.start⟩ ∈
      (parseText "let x 5;" none).2.errors := by decide +kernel
  obtain ⟨front, indent, shown, c, _, more, -, hbegins, -, -, -, -, hpoints, -⟩ :=
    caret_column "let x 5;" none hlength hmem (by decide)
      (d := ⟨.unexpectedToken (.mark .assign) .integer, strayNumber.start⟩) rfl
  exact ⟨hlength, hmem, by decide, _, herror, rfl, front, indent, shown, c, more, hbegins, hpoints⟩

open Diagnostic in
/-- The bracket after a string with a letter of two bytes is reported.  It is the eighth character
of its row and the last, and the caret, with eight characters before it, is to the right of it. -/
theorem caret_column_accented : ∃ d ∈ (parseText "\"é\")" none).2.errors,
    ∃ t ∈ (Cursor.ofText "\"é\")" none).tokens, t.kind = .mark .closeParen ∧
      d.position = t.start ∧ d.render "\"é\")" =
        "Error: NoPrefixParseFn (`)` cannot start an expression)\n-> shell\n  |\n" ++
        "1 | \"é\")\n  | ----^" ∧
      (label 1 ++ "\"é\")".toList)[7]? = some ')' ∧
      (label 1 ++ "\"é\")".toList)[8]? = none := by
  decide +kernel

end MonkeySyntax

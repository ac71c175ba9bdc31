/-
# Where an offset is

A text is a list of lines in one way only (`Segments`, `segments_iff`): each runs up to and
including its line feed, and after the last of them there may be one without.

| offset | line | number | column |
| --- | --- | --- | --- |
| in the text | the one that holds it | one more than the line feeds before | from its start |
| past it | the last one | how many lines there are, or 1 | at its end, before its line feed |

Offsets count bytes, so the line feeds before an offset are bytes too, and the offset may be inside
of a character (`place_exact`).  No other character has the byte of a line feed in its UTF-8 form
(`lineFeed_mem_iff`), which is why lines may be cut at characters.
-/

import MonkeySyntax.Position
import MonkeySyntax.Text.Lines

namespace MonkeySyntax
namespace Text

/-! ### The bytes of a text -/

/-- The UTF-8 form of a text. -/
def bytes (cs : List Char) : List UInt8 := cs.flatMap String.utf8EncodeChar

/-- The byte of a line feed. -/
def lineFeed : UInt8 := 10

@[simp] theorem bytes_cons (c : Char) (cs : List Char) :
    bytes (c :: cs) = String.utf8EncodeChar c ++ bytes cs := rfl

/-- The bytes of two texts in a row are those of the one, then those of the other. -/
@[simp] theorem bytes_append (as bs : List Char) : bytes (as ++ bs) = bytes as ++ bytes bs :=
  List.flatMap_append

/-- A text has as many bytes as its length says. -/
theorem length_bytes (cs : List Char) : (bytes cs).length = byteLength cs := by
  induction cs with
  | nil => rfl
  | cons c cs ih => simp [String.length_utf8EncodeChar, ih]

/-- Of two heads of a text the one with more bytes goes on where the other ends. -/
theorem exists_append_of_le {as bs cs ds : List Char} (h : as ++ bs = cs ++ ds)
    (hle : byteLength as ≤ byteLength cs) : ∃ m, cs = as ++ m ∧ bs = m ++ ds := by
  rcases List.append_eq_append_iff.1 h with ⟨m, hcs, hbs⟩ | ⟨m, rfl, rfl⟩
  · exact ⟨m, hcs, hbs⟩
  · cases m with
    | nil => exact ⟨[], by simp⟩
    | cons c m =>
      have hsize := c.utf8Size_pos
      rw [byteLength_append, byteLength_cons] at hle
      omega

/-- The only byte of a character, or a byte that is no character by itself. -/
theorem toNat_of_mem_utf8EncodeChar {c : Char} {b : UInt8} (h : b ∈ String.utf8EncodeChar c) :
    b.toNat = c.toNat ∨ 128 ≤ b.toNat := by
  have hcode : c.toNat = c.val.toNat := rfl
  have hmod (n : Nat) : (UInt8.ofNat n).toNat = n % 256 := rfl
  simp only [String.utf8EncodeChar] at h
  repeat' split at h
  all_goals simp only [List.mem_cons, List.not_mem_nil, or_false] at h
  · rw [h, hmod, hcode]
    omega
  · rcases h with rfl | rfl <;> rw [hmod] <;> omega
  · rcases h with rfl | rfl | rfl <;> rw [hmod] <;> omega
  · rcases h with rfl | rfl | rfl | rfl <;> rw [hmod] <;> omega

/-- **Only a line feed has the byte of a line feed.** -/
theorem lineFeed_mem_iff {c : Char} : lineFeed ∈ String.utf8EncodeChar c ↔ c = '\n' := by
  constructor
  · intro h
    have hcode : 10 = c.toNat ∨ 128 ≤ 10 := toNat_of_mem_utf8EncodeChar h
    have hc : c.toNat = 10 := by omega
    exact Char.toNat_inj.1 hc
  · rintro rfl
    decide

/-- There are as many bytes of a line feed as line feeds. -/
theorem count_bytes (cs : List Char) : (bytes cs).count lineFeed = cs.count '\n' := by
  induction cs with
  | nil => rfl
  | cons c cs ih =>
    rw [bytes_cons, List.count_append, ih, List.count_cons]
    by_cases hc : c = '\n'
    · subst hc
      exact Nat.add_comm ..
    · have hnone := List.count_eq_zero.2 (mt lineFeed_mem_iff.1 hc)
      simp [hnone, hc]

/-! ### The lines of a text -/

/-- The text is these lines, one after the other: text without a line feed and then a line feed,
which only the last line may lack. -/
inductive Segments : List Char → List (List Char) → Prop where
  | nil : Segments [] []
  | last {body : List Char} : '\n' ∉ body → body ≠ [] → Segments body [body]
  | line {body rest : List Char} {ls : List (List Char)} : '\n' ∉ body → Segments rest ls →
      Segments (body ++ '\n' :: rest) ((body ++ ['\n']) :: ls)

variable {cs body rest : List Char} {ls pre post : List (List Char)} {l : List Char}
  {number offset k : Nat}

/-- A line goes up to its line feed and with it. -/
theorem lines_line (h : '\n' ∉ body) (rest : List Char) :
    lines (body ++ '\n' :: rest) = (body ++ ['\n']) :: lines rest := by
  induction body with
  | nil => rfl
  | cons c body ih =>
    obtain ⟨hc, hbody⟩ := not_or.1 (mt List.mem_cons.2 h)
    have hc : ¬ decide (c = '\n') = true := by simpa using Ne.symm hc
    have ih := ih hbody
    unfold lines at ih ⊢
    rw [List.cons_append, pieces, if_neg hc, ih, List.cons_append]

/-- What has no line feed is one line. -/
theorem lines_last (h : '\n' ∉ body) (hne : body ≠ []) : lines body = [body] := by
  induction body with
  | nil => exact absurd rfl hne
  | cons c body ih =>
    obtain ⟨hc, hbody⟩ := not_or.1 (mt List.mem_cons.2 h)
    have hc : ¬ decide (c = '\n') = true := by simpa using Ne.symm hc
    cases body with
    | nil => rw [lines, pieces, if_neg hc, pieces]
    | cons d body =>
      have ih := ih hbody (List.cons_ne_nil d body)
      unfold lines at ih ⊢
      rw [pieces, if_neg hc, ih]

/-- Every text is made of lines. -/
theorem exists_segments (cs : List Char) : ∃ ls, Segments cs ls := by
  induction cs with
  | nil => exact ⟨[], .nil⟩
  | cons c cs ih =>
    obtain ⟨ls, h⟩ := ih
    by_cases hc : c = '\n'
    · subst hc
      have hline : Segments ([] ++ '\n' :: cs) (([] ++ ['\n']) :: ls) := .line List.not_mem_nil h
      exact ⟨_, hline⟩
    · have hcons {body : List Char} (h : '\n' ∉ body) : '\n' ∉ c :: body := by
        simpa [Ne.symm hc] using h
      -- the first character goes to the line after it, if there is one
      cases h with
      | nil => exact ⟨_, .last (hcons List.not_mem_nil) (List.cons_ne_nil c [])⟩
      | last h _ => exact ⟨_, .last (hcons h) (List.cons_ne_nil c _)⟩
      | line h hrest => exact ⟨_, .line (hcons h) hrest⟩

/-- **A text is a list of lines in one way only.** -/
theorem segments_iff : Segments cs ls ↔ ls = lines cs := by
  have hlines {ls : List (List Char)} (h : Segments cs ls) : ls = lines cs := by
    induction h with
    | nil => rfl
    | last h hne => exact (lines_last h hne).symm
    | line h _ ih => rw [lines_line h, ih]
  obtain ⟨ls', h⟩ := exists_segments cs
  exact ⟨hlines, fun heq => heq.trans (hlines h).symm ▸ h⟩

/-- A text is what its lines make together. -/
theorem Segments.flatten_eq (h : Segments cs ls) : ls.flatten = cs := by
  rw [segments_iff.1 h]
  exact flatten_pieces ..

/-- Each line is some text and then a line feed, which the last one may lack, so that there are as
many line feeds before a line as there are lines. -/
theorem Segments.split (h : Segments cs (pre ++ l :: post)) :
    pre.flatten.count '\n' = pre.length ∧
      ∃ body, '\n' ∉ body ∧ (l = body ++ ['\n'] ∨ l = body) := by
  generalize hls : pre ++ l :: post = ls at h
  induction h generalizing pre with
  | nil => cases (List.append_eq_nil_iff.1 hls).2
  | last hbody _ =>
    obtain ⟨rfl, hcons⟩ | ⟨pre, rfl, hcons⟩ := List.append_eq_cons_iff.1 hls
    · obtain ⟨rfl, -⟩ := List.cons.inj hcons
      exact ⟨rfl, _, hbody, .inr rfl⟩
    · cases (List.append_eq_nil_iff.1 hcons.symm).2
  | line hbody _ ih =>
    obtain ⟨rfl, hcons⟩ | ⟨pre, rfl, hcons⟩ := List.append_eq_cons_iff.1 hls
    · obtain ⟨rfl, -⟩ := List.cons.inj hcons
      exact ⟨rfl, _, hbody, .inl rfl⟩
    · obtain ⟨hcount, hl⟩ := ih hcons.symm
      refine ⟨?_, hl⟩
      simp [hcount, List.count_eq_zero.2 hbody]

/-- What is before a line is nothing, or ends with a line feed. -/
theorem Segments.getLast?_flatten (h : Segments cs (pre ++ l :: post)) :
    ∀ c ∈ pre.flatten.getLast?, c = '\n' := by
  generalize hls : pre ++ l :: post = ls at h
  induction h generalizing pre with
  | nil => cases (List.append_eq_nil_iff.1 hls).2
  | last =>
    obtain ⟨rfl, -⟩ | ⟨pre, rfl, hcons⟩ := List.append_eq_cons_iff.1 hls
    · simp
    · cases (List.append_eq_nil_iff.1 hcons.symm).2
  | line _ _ ih =>
    obtain ⟨rfl, -⟩ | ⟨pre, rfl, hcons⟩ := List.append_eq_cons_iff.1 hls
    · simp
    · have hpre := ih hcons.symm
      cases hflat : pre.flatten with
      | nil => simp [hflat]
      | cons d ds =>
        rw [hflat] at hpre
        simpa [hflat] using hpre

/-! ### Looking up an offset -/

/-- An offset in the first line is a place in it. -/
theorem placeIn_cons_of_lt (h : offset < byteLength l) (ls : List (List Char)) (number : Nat) :
    placeIn (l :: ls) number offset = ⟨number, l, offset⟩ := by
  cases ls <;> simp [placeIn, h]

/-- An offset past the first line is a place in those after it, if there are any. -/
theorem placeIn_cons_of_le (h : byteLength l ≤ offset) (hls : ls ≠ []) (number : Nat) :
    placeIn (l :: ls) number offset = placeIn ls (number + 1) (offset - byteLength l) := by
  rw [placeIn, if_neg (Nat.not_lt.2 h)]
  exact hls

/-- **An offset in a line** is looked up there. -/
theorem placeIn_append (pre post : List (List Char)) (number : Nat) (h : k < byteLength l) :
    placeIn (pre ++ l :: post) number (byteLength pre.flatten + k) =
      ⟨number + pre.length, l, k⟩ := by
  induction pre generalizing number with
  | nil => simpa using placeIn_cons_of_lt h post number
  | cons l' pre ih =>
    have hlength : byteLength (l' :: pre).flatten + k - byteLength l' =
        byteLength pre.flatten + k := by
      rw [List.flatten_cons, byteLength_append]
      omega
    rw [List.cons_append, placeIn_cons_of_le (by simp; omega) (by simp), hlength, ih,
      List.length_cons, Nat.add_right_comm, Nat.add_assoc]

/-- **An offset past the lines** is at the end of the last one. -/
theorem placeIn_of_le (number : Nat) (h : byteLength ls.flatten ≤ offset) :
    placeIn ls number offset =
      ⟨number + (ls.length - 1), ls.getLastD [], endColumn (ls.getLastD [])⟩ := by
  induction ls generalizing number offset with
  | nil => rfl
  | cons l ls ih =>
    rw [List.flatten_cons, byteLength_append] at h
    cases ls with
    | nil =>
      rw [placeIn, if_neg (by omega)]
      rfl
    | cons l' ls =>
      rw [placeIn_cons_of_le (by omega) (List.cons_ne_nil l' ls), ih _ (by omega)]
      simp only [List.length_cons, List.getLastD_cons]
      congr 1
      omega

/-- An offset in a text is in one of its lines. -/
theorem exists_line (h : offset < byteLength ls.flatten) : ∃ pre l post k,
    ls = pre ++ l :: post ∧ offset = byteLength pre.flatten + k ∧ k < byteLength l := by
  induction ls generalizing offset with
  | nil => cases h
  | cons l ls ih =>
    rw [List.flatten_cons, byteLength_append] at h
    by_cases hl : offset < byteLength l
    · exact ⟨[], l, ls, offset, rfl, (Nat.zero_add _).symm, hl⟩
    · obtain ⟨pre, l', post, k, rfl, hk, hlt⟩ :=
        ih (show offset - byteLength l < byteLength ls.flatten by omega)
      refine ⟨l :: pre, l', post, k, rfl, ?_, hlt⟩
      rw [List.flatten_cons, byteLength_append]
      omega

/-- A line ends before its line feed, where it has one and where it has none. -/
theorem endColumn_of_body (h : '\n' ∉ body) :
    endColumn body = byteLength body ∧ endColumn (body ++ ['\n']) = byteLength body := by
  have hdrop : body.reverse.dropWhile (· == '\n') = body.reverse := by
    cases hr : body.reverse with
    | nil => rfl
    | cons c cs =>
      have hc : c ∈ body := List.mem_reverse.1 (hr ▸ List.mem_cons_self ..)
      have hne : c ≠ '\n' := fun heq => h (heq ▸ hc)
      simp [hne]
  constructor
  · rw [endColumn, hdrop, List.reverse_reverse]
  · rw [endColumn, List.reverse_append, List.reverse_singleton, List.singleton_append,
      List.dropWhile_cons_of_pos rfl, hdrop, List.reverse_reverse]

/-- Before an offset in a line there are the line feeds of the lines before it. -/
theorem count_take (h : Segments cs (pre ++ l :: post)) (hk : k < byteLength l) :
    ((bytes cs).take (byteLength pre.flatten + k)).count lineFeed = pre.length := by
  obtain ⟨hcount, body, hbody, hl⟩ := h.split
  have hcs : bytes cs = bytes pre.flatten ++ (bytes l ++ bytes post.flatten) := by
    rw [← h.flatten_eq]
    simp
  have htake : (bytes l).take k = (bytes body).take k := by
    rcases hl with rfl | rfl
    · have hle : k ≤ byteLength body := by
        have hsize : '\n'.utf8Size = 1 := by decide
        simp only [byteLength_append, byteLength_cons, byteLength_nil, hsize] at hk
        omega
      rw [bytes_append, List.take_append_of_le_length (by rwa [length_bytes])]
    · rfl
  have hnone : ((bytes body).take k).count lineFeed = 0 := by
    refine List.count_eq_zero.2 fun hmem => hbody ?_
    refine List.count_pos_iff.1 ?_
    rw [← count_bytes]
    exact List.count_pos_iff.2 (List.mem_of_mem_take hmem)
  rw [hcs, ← length_bytes, List.take_length_add_append, List.count_append, count_bytes, hcount,
    List.take_append_of_le_length (by rw [length_bytes]; omega), htake, hnone, Nat.add_zero]

/-- The end of the last line is the end of its text, before the line feed if it has one. -/
theorem Segments.exists_lastBody (h : Segments cs ls) : ∃ body, '\n' ∉ body ∧
    (ls.getLastD [] = body ∨ ls.getLastD [] = body ++ ['\n']) ∧
      endColumn (ls.getLastD []) = byteLength body := by
  rcases List.eq_nil_or_concat ls with rfl | ⟨pre, l, rfl⟩
  · exact ⟨[], List.not_mem_nil, .inl rfl, rfl⟩
  · rw [List.concat_eq_append] at h ⊢
    obtain ⟨-, body, hbody, hl⟩ := h.split
    rw [List.getLastD_concat]
    rcases hl with rfl | rfl
    · exact ⟨body, hbody, .inr rfl, (endColumn_of_body hbody).2⟩
    · exact ⟨l, hbody, .inl rfl, (endColumn_of_body hbody).1⟩

/-- The place of an offset in a line. -/
theorem place_eq (h : lines cs = pre ++ l :: post) (hk : k < byteLength l) :
    place cs (byteLength pre.flatten + k) = ⟨1 + pre.length, l, k⟩ := by
  rw [place, h, placeIn_append pre post 1 hk]

/-- **The line of a character:** what is before the character since the last line feed, the
character, and what is after it. -/
theorem exists_place (before : List Char) (c : Char) (after : List Char) :
    ∃ pre head tail post, lines (before ++ c :: after) = pre ++ (head ++ c :: tail) :: post ∧
      before = pre.flatten ++ head ∧ '\n' ∉ head ∧
      place (before ++ c :: after) (byteLength before) =
        ⟨1 + pre.length, head ++ c :: tail, byteLength head⟩ := by
  have hsegments : Segments (before ++ c :: after) (lines (before ++ c :: after)) :=
    segments_iff.2 rfl
  have hflat := hsegments.flatten_eq
  have hlt : byteLength before < byteLength (lines (before ++ c :: after)).flatten := by
    have hsize := c.utf8Size_pos
    rw [hflat, byteLength_append, byteLength_cons]
    omega
  obtain ⟨pre, l, post, k, hls, hk, hlt⟩ := exists_line hlt
  rw [hls] at hsegments hflat
  rw [List.flatten_append, List.flatten_cons] at hflat
  obtain ⟨head, hbefore, hrest⟩ := exists_append_of_le hflat (by omega)
  have hhead : byteLength head = k := by
    rw [hbefore, byteLength_append] at hk
    omega
  obtain ⟨m, hl, hm⟩ := exists_append_of_le hrest.symm (by omega)
  obtain ⟨d, tail, rfl⟩ : ∃ d tail, m = d :: tail := by
    refine List.exists_cons_of_ne_nil fun hnil => ?_
    rw [hl, hnil, List.append_nil, hhead] at hlt
    omega
  obtain ⟨rfl, -⟩ := List.cons.inj hm
  obtain ⟨-, body, hbody, hline⟩ := hsegments.split
  refine ⟨pre, head, tail, post, by rw [hls, hl], hbefore, fun hmem => hbody ?_, ?_⟩
  · have hmem : '\n' ∈ l.dropLast := by
      rw [hl, List.dropLast_append_cons]
      exact List.mem_append_left _ hmem
    rcases hline with rfl | rfl
    · rwa [List.dropLast_concat] at hmem
    · exact List.dropLast_subset l hmem
  · rw [hk, place_eq hls hlt, hl, hhead]

/-- **Looking up an offset is exact.**  The lines are the only ones that make up the text.  An
offset in the text is on the line that its byte is on, whose number is one more than the line feeds
before it, and its column counts from the start of this line.  An offset past it is at the end of
the last line, before the line feed if it has one; the empty text has an empty line, which is its
first. -/
theorem place_exact (content : String) (position : UInt32) :
    let cs := content.toList
    let offset := position.toNat
    let p := place cs offset
    (∀ ls, Segments cs ls ↔ ls = lines cs) ∧
    if offset < byteLength cs then
      p.number = 1 + ((bytes cs).take offset).count lineFeed ∧
      ∃ before after, lines cs = before ++ p.line :: after ∧
        byteLength before.flatten ≤ offset ∧
        offset < byteLength before.flatten + byteLength p.line ∧
        p.column = offset - byteLength before.flatten
    else
      p.number = max 1 (lines cs).length ∧ p.line = (lines cs).getLastD [] ∧
      ∃ body, '\n' ∉ body ∧ (p.line = body ∨ p.line = body ++ ['\n']) ∧
        p.column = byteLength body := by
  intro cs offset p
  have hsegments : Segments cs (lines cs) := segments_iff.2 rfl
  refine ⟨fun ls => segments_iff, ?_⟩
  split
  · rename_i hlt
    rw [← hsegments.flatten_eq] at hlt
    obtain ⟨before, l, after, k, hls, hk, hlt⟩ := exists_line hlt
    have hp : p = ⟨1 + before.length, l, k⟩ := by
      simp only [p, hk]
      exact place_eq hls hlt
    rw [hp, hk]
    refine ⟨?_, before, after, hls, Nat.le_add_right .., Nat.add_lt_add_left hlt _, ?_⟩
    · rw [count_take (hls ▸ hsegments) hlt]
    · exact (Nat.add_sub_cancel_left ..).symm
  · rename_i hge
    have hle : byteLength (lines cs).flatten ≤ offset := by
      rw [hsegments.flatten_eq]
      omega
    have hp : p = ⟨1 + ((lines cs).length - 1), (lines cs).getLastD [],
        endColumn ((lines cs).getLastD [])⟩ := placeIn_of_le 1 hle
    rw [hp]
    refine ⟨?_, rfl, hsegments.exists_lastBody⟩
    show 1 + ((lines cs).length - 1) = max 1 (lines cs).length
    omega

/-- The second line feed ends a line that is blank, and past the end the last line is meant. -/
example : place "a\n\né\n".toList 2 = ⟨2, ['\n'], 0⟩ ∧
    place "a\n\né\n".toList 4 = ⟨3, ['é', '\n'], 1⟩ ∧
    place "a\n\né\n".toList 9 = ⟨3, ['é', '\n'], 2⟩ := by decide

end Text
end MonkeySyntax

import Plectrum.Proofs.Text.Place

/-!
# What an excerpt underlines

An excerpt shows the line in which a span begins, and below it one caret for each
character of the span in that line.  The number of the line is given four columns.  A
longer number moves the line to the right but not the carets, so these stand below the
span up to line 9999.
-/

namespace Plectrum
namespace Text

/-!
# Front parts of a text by their sizes
-/

theorem prefix_of_byteSize_le {front other text : List Char} (h : front <+: text)
    (hother : other <+: text) (hsize : byteSize front <= byteSize other) : front <+: other := by
  rcases List.prefix_or_prefix_of_prefix h hother with hprefix | ⟨more, rfl⟩
  · exact hprefix
  · cases more with
    | nil => simp
    | cons a more =>
        have hpos := byteSize_pos (List.cons_ne_nil a more)
        rw [byteSize_append] at hsize
        exact absurd hsize (by omega)

theorem byteSize_lineBreaks (n : Nat) : byteSize (List.replicate n '\n') = n := by
  induction n with
  | zero => rfl
  | succ n ih =>
      rw [List.replicate_succ, byteSize_cons, ih, Nat.add_comm]
      rfl

/-!
# Excerpts
-/

/-- A line cut where a span begins, and carets behind a margin below it. -/
structure Excerpt where
  before : List Char
  ahead : List Char
  margin : Nat
  width : Nat

namespace Excerpt

def print (e : Excerpt) : List Char :=
  e.before ++ e.ahead ++ '\n' :: List.replicate e.margin ' ' ++
    List.replicate e.width '^' ++ ['\n']

/-- Whether the first caret stands below the first character of the span. -/
def Aligned (e : Excerpt) : Prop :=
  e.margin = e.before.length

/-- Whether an excerpt shows the line of a cursor and has a caret for each character from
the cursor to an offset in that line, but at least one. -/
structure Shows (e : Excerpt) (c : Cursor) (stop : Nat) : Prop where
  before : e.before =
    Decimal.alignRight 4 (Decimal.ofNat c.place.line) ++ '|' :: c.lineBehind.reverse
  ahead : e.ahead = c.lineAhead
  underlined : exists part, part <+: c.lineAhead ∧ c.offset + byteSize part = stop ∧
    e.width = max part.length 1

end Excerpt

def Cursor.excerpt (c : Cursor) (width : Nat) : Excerpt where
  before := Decimal.alignRight 4 (Decimal.ofNat c.place.line) ++ '|' :: c.lineBehind.reverse
  ahead := c.lineAhead
  margin := c.place.column + 4
  width := max width 1

theorem underline_eq_print (c : Cursor) (width : Nat) :
    underline c width = (c.excerpt width).print := by
  simp [underline, Excerpt.print, Cursor.excerpt, Cursor.currentLine]

theorem Cursor.aligned_excerpt_iff (c : Cursor) (width : Nat) :
    (c.excerpt width).Aligned <-> c.place.line <= 9999 := by
  have hdigits : (Decimal.ofNat c.place.line).length <= 4 <-> c.place.line < 10 ^ 4 :=
    Nat.length_toDigits_le_iff (by decide) (by decide)
  have hbefore : (c.excerpt width).before.length =
      max 4 (Decimal.ofNat c.place.line).length + (c.lineBehind.length + 1) := by
    rw [excerpt, List.length_append, Decimal.length_alignRight, List.length_cons,
      List.length_reverse]
  have hmargin : (c.excerpt width).margin = c.lineBehind.length + 1 + 4 := rfl
  rw [Excerpt.Aligned, hbefore, hmargin]
  omega

theorem exists_part_of_cut {text : List Char} {c cut : Cursor} {start stop : Nat}
    (hc : Cursor.at? text start = some c)
    (hcut : Cursor.at? text (lineStop c stop) = some cut) :
    exists part back, c.ahead = part ++ back ∧ part <+: c.lineAhead ∧
      c.offset + byteSize part = lineStop c stop := by
  rcases Cursor.at?_eq_some_iff.mp hc with ⟨front, ahead, rfl, _, rfl⟩
  rcases Cursor.at?_eq_some_iff.mp hcut with ⟨before, back, htext, hstop, _⟩
  have hoffset : (Cursor.between front.reverse ahead).offset = byteSize front :=
    byteSize_reverse front
  have hbegin : byteSize front <= byteSize before := by
    rw [<- hstop, <- hoffset]
    exact Nat.le_max_right _ _
  rcases prefix_of_byteSize_le (List.prefix_append front ahead) ⟨back, htext.symm⟩ hbegin with
    ⟨part, rfl⟩
  have hahead : ahead = part ++ back := by
    rw [List.append_assoc] at htext
    exact List.append_cancel_left htext
  have hsize : byteSize front + byteSize part =
      lineStop (Cursor.between front.reverse ahead) stop := by
    rw [hstop, byteSize_append]
  refine ⟨part, back, hahead, ?_, by rw [hoffset, hsize]⟩
  refine prefix_of_byteSize_le ⟨back, hahead.symm⟩ (List.takeWhile_prefix _) ?_
  show byteSize part <= byteSize (Cursor.between front.reverse ahead).lineAhead
  have hend : lineStop (Cursor.between front.reverse ahead) stop <=
      byteSize front + byteSize (Cursor.between front.reverse ahead).lineAhead := by
    rw [lineStop, hoffset]
    omega
  omega

theorem excerpt?_eq_underline {text part back : List Char} {span : Span} {c : Cursor}
    (hc : Cursor.at? text span.start = some c) (hahead : c.ahead = part ++ back)
    (hstop : c.offset + byteSize part = lineStop c span.stop) :
    excerpt? text span = some (underline c part.length) := by
  have hinside : Cursor.at? c.ahead (lineStop c span.stop - c.offset) =
      some (Cursor.between part.reverse back) := by
    rw [<- hstop, Nat.add_sub_cancel_left, hahead]
    exact Cursor.at?_append part back
  unfold excerpt?
  simp only [hc, hinside, Option.bind_eq_bind, Option.bind_some]
  show some (underline c part.reverse.length) = _
  rw [List.length_reverse]

/--
A span that begins between two characters, and ends so when it is cut at the end of its
line, is underlined below its line.  The carets stand below its characters if and only if
the number of the line has no more than four digits.
-/
theorem excerpt_underlines_span {text : List Char} {span : Span} {c cut : Cursor}
    (hc : Cursor.at? text span.start = some c)
    (hcut : Cursor.at? text (lineStop c span.stop) = some cut) :
    exists e : Excerpt, excerpt? text span = some e.print ∧
      (text.splitOn '\n')[c.place.line - 1]? = some c.currentLine ∧
      e.Shows c (lineStop c span.stop) ∧
      (e.Aligned <-> c.place.line <= 9999) := by
  rcases exists_part_of_cut hc hcut with ⟨part, back, hahead, hpart, hstop⟩
  have hline := c.getElem?_splitOn_text
  have htext : c.text = text := by
    rcases Cursor.at?_eq_some_iff.mp hc with ⟨front, ahead, rfl, _, rfl⟩
    simp [Cursor.text, Cursor.between]
  refine ⟨c.excerpt part.length, ?_, htext ▸ hline, ⟨rfl, rfl, part, hpart, hstop, rfl⟩,
    c.aligned_excerpt_iff _⟩
  rw [excerpt?_eq_underline hc hahead hstop, underline_eq_print]

/-!
# Samples

The second sample has its tuple in line 10000.
-/

def sampleLines : List Char :=
  "intro\n(12)4 (05)2\n".toList

theorem sample_excerpt_underlines_span :
    exists e : Excerpt, excerpt? sampleLines ⟨12, 17⟩ = some e.print ∧ e.Aligned ∧
      e.print = "   2|(12)4 (05)2\n           ^^^^^\n".toList := by
  have hc : Cursor.at? sampleLines (Span.mk 12 17).start =
      some (Cursor.between " 4)21(\nortni".toList "(05)2\n".toList) := by
    decide +kernel
  have hcut : Cursor.at? sampleLines (lineStop (Cursor.between " 4)21(\nortni".toList
      "(05)2\n".toList) (Span.mk 12 17).stop) =
        some (Cursor.between "2)50( 4)21(\nortni".toList "\n".toList) := by
    decide +kernel
  rcases excerpt_underlines_span hc hcut with ⟨e, hprint, _, _, haligned⟩
  refine ⟨e, hprint, haligned.mpr (by decide +kernel), ?_⟩
  exact Option.some.inj (hprint.symm.trans (by decide +kernel))

theorem excerpt?_behind_lineBreaks (n : Nat) {line : List Char} (hline : '\n' ∉ line) :
    excerpt? (List.replicate n '\n' ++ line) ⟨n, n + byteSize line⟩ =
      some (Decimal.alignRight 4 (Decimal.ofNat (n + 1)) ++ '|' :: line ++
        '\n' :: List.replicate 5 ' ' ++ List.replicate (max line.length 1) '^' ++ ['\n']) := by
  obtain ⟨c, hbetween⟩ : exists c, Cursor.between (List.replicate n '\n') line = c :=
    ⟨_, rfl⟩
  have hc : Cursor.at? (List.replicate n '\n' ++ line) n = some c := by
    have h := Cursor.at?_append (List.replicate n '\n') line
    rwa [byteSize_lineBreaks, List.reverse_replicate, hbetween] at h
  have hoffset : c.offset = n := hbetween ▸ byteSize_lineBreaks n
  have hbehind : c.lineBehind = [] := by
    subst hbetween
    cases n with
    | zero => rfl
    | succ n => rfl
  have hahead : c.lineAhead = line := by
    subst hbetween
    exact firstLine_eq_self hline
  have hplace : c.place = ⟨n + 1, 1⟩ := by
    have hcount : c.behind.countP isLineBreak = n := by
      subst hbetween
      exact (List.countP_replicate).trans (if_pos rfl)
    rw [Cursor.place, hbehind, hcount]
    rfl
  have hnothing : c.ahead = line ++ [] := by
    subst hbetween
    exact (List.append_nil line).symm
  have hstop : c.offset + byteSize line = lineStop c (n + byteSize line) := by
    rw [lineStop, hahead, hoffset]
    omega
  rw [excerpt?_eq_underline hc hnothing hstop, underline, hplace, Cursor.currentLine, hbehind,
    hahead]
  rfl

def farLines : List Char :=
  List.replicate 9999 '\n' ++ "(12)4".toList

theorem far_excerpt_is_not_aligned :
    farLines[9999]? = some '(' ∧
      exists above below, above.idxOf '(' = 6 ∧ below.idxOf '^' = 5 ∧
        excerpt? farLines ⟨9999, 10004⟩ = some (above ++ '\n' :: below ++ ['\n']) := by
  refine ⟨?_, "10000|(12)4".toList, "     ^^^^^".toList, by decide, by decide, ?_⟩
  · rw [farLines, List.getElem?_append_right (Nat.le_of_eq List.length_replicate),
      List.length_replicate]
    rfl
  · exact excerpt?_behind_lineBreaks 9999 (by decide)

end Text
end Plectrum

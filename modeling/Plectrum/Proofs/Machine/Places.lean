import Plectrum.Proofs.Machine.Operations

/-!
# Places by offsets

The offsets of all line breaks are listed once.  An offset is then looked up among them:
the number of line breaks in front of it is its line, and the text cut from the start of
that line gives its column.
-/

namespace Plectrum
namespace Machine

open Text (byteSize Cursor Place Span isLineBreak)

def indices (offset : Nat) : List Char -> List (Nat × Char)
  | [] => []
  | c :: rest => (offset, c) :: indices (offset + c.utf8Size) rest

def lineBreaks (offset : Nat) (text : List Char) : List Nat :=
  (indices offset text).filterMap (fun entry => if isLineBreak entry.2 then some entry.1 else none)

def search (offset : Nat) (ascending : List Nat) : Except Nat Nat :=
  let i := (ascending.takeWhile (fun other => other < offset)).length
  if ascending[i]? = some offset then .ok i else .error i

/-- The line of an offset, counted from zero; a line break is part of the line that it ends. -/
def lineOf (breaks : List Nat) (offset : Nat) : Nat :=
  match search offset breaks with
  | .ok line => line
  | .error line => line

def lineStart (breaks : List Nat) : Nat -> Option Nat
  | 0 => some 0
  | line + 1 => (breaks[line]?).map (· + 1)

def place (text : List Char) (offset : Nat) : Option Place := do
  let breaks := lineBreaks 0 text
  let line := lineOf breaks offset
  let start <- lineStart breaks line
  let front <- slice text start offset
  return ⟨line + 1, front.length + 1⟩

def excerpt (text : List Char) (span : Span) : Option (List Char) := do
  let breaks := lineBreaks 0 text
  let p <- place text span.start
  let line <- sub p.line 1
  let start <- lineStart breaks line
  let stop := (breaks[line]?).getD (byteSize text)
  let shown <- slice text start stop
  let under <- slice text span.start (max (min span.stop stop) span.start)
  let indent <- sub p.column 1
  return Text.Decimal.alignRight 4 (Text.Decimal.ofNat p.line) ++ '|' :: shown ++
    '\n' :: List.replicate (indent + 5) ' ' ++
    List.replicate (max under.length 1) '^' ++ ['\n']

/-!
# Line breaks
-/

theorem indices_append (front back : List Char) :
    forall offset : Nat,
      indices offset (front ++ back) =
        indices offset front ++ indices (offset + byteSize front) back := by
  induction front with
  | nil => exact fun _ => rfl
  | cons c front ih =>
      intro offset
      rw [List.cons_append, indices, indices, ih, Text.byteSize_cons, Nat.add_assoc]
      rfl

theorem lineBreaks_append (offset : Nat) (front back : List Char) :
    lineBreaks offset (front ++ back) =
      lineBreaks offset front ++ lineBreaks (offset + byteSize front) back := by
  rw [lineBreaks, indices_append, List.filterMap_append]
  rfl

theorem lineBreaks_cons (offset : Nat) (c : Char) (rest : List Char) :
    lineBreaks offset (c :: rest) =
      if isLineBreak c then offset :: lineBreaks (offset + c.utf8Size) rest
      else lineBreaks (offset + c.utf8Size) rest := by
  by_cases h : isLineBreak c = true
  · simp [lineBreaks, indices, h]
  · simp [lineBreaks, indices, h]

theorem length_lineBreaks (text : List Char) :
    forall offset : Nat, (lineBreaks offset text).length = text.countP isLineBreak := by
  induction text with
  | nil => exact fun _ => rfl
  | cons c rest ih =>
      intro offset
      rw [lineBreaks_cons, List.countP_cons]
      split
      · rw [List.length_cons, ih]
      · exact ih _

theorem bounds_of_mem_lineBreaks {b : Nat} (text : List Char) :
    forall {offset : Nat}, b ∈ lineBreaks offset text ->
      offset <= b ∧ b < offset + byteSize text := by
  induction text with
  | nil =>
      intro offset hb
      cases hb
  | cons c rest ih =>
      intro offset hb
      have hpos := Char.utf8Size_pos c
      rw [lineBreaks_cons] at hb
      rw [Text.byteSize_cons]
      split at hb
      · rcases List.mem_cons.mp hb with rfl | hrest
        · omega
        · have hbounds := ih hrest
          omega
      · have hbounds := ih hb
        omega

theorem length_takeWhile_lt {n : Nat} {front back : List Nat}
    (hfront : forall m, m ∈ front -> m < n) (hback : forall m, back.head? = some m -> n <= m) :
    ((front ++ back).takeWhile (fun m => m < n)).length = front.length := by
  have hnil : back.takeWhile (fun m => m < n) = [] := by
    cases back with
    | nil => rfl
    | cons m back =>
        apply List.takeWhile_cons_of_neg
        rw [decide_eq_true_eq]
        exact Nat.not_lt.mpr (hback m rfl)
  rw [List.takeWhile_append_of_pos (fun m hm => decide_eq_true (hfront m hm)), hnil,
    List.append_nil]

theorem lineOf_eq (breaks : List Nat) (offset : Nat) :
    lineOf breaks offset = (breaks.takeWhile (fun other => other < offset)).length := by
  unfold lineOf search
  by_cases h : breaks[(breaks.takeWhile (fun other => other < offset)).length]? = some offset
  · simp only [if_pos h]
  · simp only [if_neg h]

theorem lineOf_lineBreaks (front back : List Char) :
    lineOf (lineBreaks 0 (front ++ back)) (byteSize front) = front.countP isLineBreak := by
  rw [lineOf_eq, lineBreaks_append, Nat.zero_add, length_takeWhile_lt, length_lineBreaks]
  · intro b hb
    rw [<- Nat.zero_add (byteSize front)]
    exact (bounds_of_mem_lineBreaks front hb).2
  · intro b hb
    exact (bounds_of_mem_lineBreaks back (List.mem_of_head? hb)).1

/-!
# The line around a cursor
-/

theorem lineStart_lineEnd (front back : List Char) :
    lineStart (lineBreaks 0 (front ++ '\n' :: back)) (front.countP isLineBreak + 1) =
      some (byteSize (front ++ ['\n'])) := by
  have hlength := length_lineBreaks front 0
  rw [lineStart, lineBreaks_append, lineBreaks_cons,
    if_pos (show isLineBreak '\n' = true from rfl),
    List.getElem?_append_right (Nat.le_of_eq hlength), hlength, Nat.sub_self,
    Text.byteSize_append, Nat.zero_add]
  rfl

theorem exists_lineStart (front back : List Char) :
    exists earlier tail, front = earlier ++ tail ∧
      (Cursor.between front.reverse back).lineBehind = tail.reverse ∧
      lineStart (lineBreaks 0 (front ++ back)) (front.countP isLineBreak) =
        some (byteSize earlier) := by
  have hbehind : (Cursor.between front.reverse back).behind.reverse = front :=
    List.reverse_reverse front
  have hnone := Text.countP_isLineBreak_eq_zero
    (Cursor.between front.reverse back).lineBreak_not_mem_lineBehind
  have hcases := (Cursor.between front.reverse back).lineBehind_cases
  rw [hbehind] at hcases
  generalize (Cursor.between front.reverse back).lineBehind = run at hnone hcases ⊢
  rcases hcases with rfl | ⟨earlier, rfl⟩
  · refine ⟨[], run.reverse, rfl, (List.reverse_reverse run).symm, ?_⟩
    rw [hnone]
    rfl
  · refine ⟨earlier ++ ['\n'], run.reverse, List.append_cons _ _ _,
      (List.reverse_reverse run).symm, ?_⟩
    rw [List.countP_append, List.countP_cons_of_pos rfl, hnone, List.append_assoc]
    exact lineStart_lineEnd earlier (run.reverse ++ back)

theorem lineStop_lineBreaks (front back : List Char) :
    ((lineBreaks 0 (front ++ back))[front.countP isLineBreak]?).getD (byteSize (front ++ back)) =
      byteSize (front ++ (Cursor.between front.reverse back).lineAhead) := by
  have hlength := length_lineBreaks front 0
  rw [lineBreaks_append, List.getElem?_append_right (Nat.le_of_eq hlength), hlength, Nat.sub_self,
    Text.byteSize_append, Text.byteSize_append, Nat.zero_add]
  show _ = byteSize front + byteSize (back.takeWhile (fun a => !isLineBreak a))
  generalize byteSize front = offset
  induction back generalizing offset with
  | nil => rfl
  | cons c rest ih =>
      rw [lineBreaks_cons, Text.byteSize_cons]
      by_cases hc : isLineBreak c = true
      · simp [hc]
      · rw [if_neg hc, List.takeWhile_cons_of_pos (by simpa using hc), Text.byteSize_cons,
          <- Nat.add_assoc, <- Nat.add_assoc]
        exact ih (offset + c.utf8Size)

theorem exists_slices (front back : List Char) :
    exists start,
      lineStart (lineBreaks 0 (front ++ back)) (front.countP isLineBreak) = some start ∧
      slice (front ++ back) start (byteSize front) =
        some (Cursor.between front.reverse back).lineBehind.reverse ∧
      slice (front ++ back) start
          (byteSize (front ++ (Cursor.between front.reverse back).lineAhead)) =
        some (Cursor.between front.reverse back).currentLine := by
  rcases exists_lineStart front back with ⟨earlier, tail, hfront, hbehind, hstart⟩
  have hahead : back = (Cursor.between front.reverse back).lineAhead ++
      back.dropWhile (fun a => !isLineBreak a) := List.takeWhile_append_dropWhile.symm
  refine ⟨byteSize earlier, hstart, ?_, ?_⟩
  · rw [hbehind, List.reverse_reverse]
    refine slice_eq_some_iff.mpr ⟨earlier, back, ?_, rfl, ?_⟩
    · rw [hfront, List.append_assoc]
    · rw [hfront, Text.byteSize_append]
  · rw [Cursor.currentLine, hbehind, List.reverse_reverse]
    refine slice_eq_some_iff.mpr
      ⟨earlier, back.dropWhile (fun a => !isLineBreak a), ?_, rfl, ?_⟩
    · rw [List.append_assoc, <- hahead, hfront, List.append_assoc]
    · rw [<- Text.byteSize_append, hfront, List.append_assoc]

/-!
# Places and excerpts
-/

theorem place_append (front back : List Char) :
    place (front ++ back) (byteSize front) = some (Cursor.between front.reverse back).place := by
  rcases exists_slices front back with ⟨start, hstart, hslice, _⟩
  unfold place
  simp only [lineOf_lineBreaks, hstart, Option.bind_eq_bind, Option.bind_some, hslice,
    List.length_reverse]
  unfold Cursor.place
  show some (⟨_, _⟩ : Place) = some ⟨front.reverse.countP isLineBreak + 1, _⟩
  rw [List.countP_reverse]

theorem place_eq (text : List Char) (offset : Nat) :
    place text offset = Text.place? text offset := by
  unfold Text.place?
  cases hat : Cursor.at? text offset with
  | some c =>
      rcases Cursor.at?_eq_some_iff.mp hat with ⟨front, back, rfl, rfl, rfl⟩
      exact place_append front back
  | none =>
      show place text offset = none
      rw [Option.eq_none_iff_forall_ne_some]
      intro p hp
      unfold place at hp
      simp only [Option.bind_eq_bind, Option.bind_eq_some_iff] at hp
      rcases hp with ⟨start, _, part, hslice, _⟩
      rcases slice_eq_some_iff.mp hslice with ⟨front, back, rfl, rfl, rfl⟩
      rw [<- List.append_assoc, <- Text.byteSize_append, Cursor.at?_append] at hat
      cases hat

theorem excerpt_append (front back : List Char) (stop : Nat) :
    excerpt (front ++ back) ⟨byteSize front, stop⟩ =
      Text.excerpt? (front ++ back) ⟨byteSize front, stop⟩ := by
  rcases exists_slices front back with ⟨start, hstart, _, hshown⟩
  have hend := lineStop_lineBreaks front back
  unfold excerpt Text.excerpt?
  simp only [place_append, Cursor.at?_append, Option.bind_eq_bind, Option.bind_some]
  obtain ⟨c, hc⟩ : exists c, Cursor.between front.reverse back = c := ⟨_, rfl⟩
  rw [hc] at hshown hend ⊢
  have hoffset : c.offset = byteSize front := by
    rw [<- hc]
    exact Text.byteSize_reverse front
  have hline : c.place.line = front.countP isLineBreak + 1 := by
    rw [<- hc]
    exact congrArg (· + 1) List.countP_reverse
  have hindent : sub c.place.column 1 = some c.lineBehind.length :=
    sub_of_le (Nat.le_add_left _ _)
  have hstop : max (min stop (byteSize (front ++ c.lineAhead))) (byteSize front) =
      Text.lineStop c stop := by
    rw [Text.lineStop, hoffset, Text.byteSize_append]
  have hunder : slice (front ++ back) (byteSize front) (Text.lineStop c stop) =
      (Cursor.at? c.ahead (Text.lineStop c stop - c.offset)).map (fun d => d.behind.reverse) := by
    have hle : byteSize front <= Text.lineStop c stop := by
      rw [<- hstop]
      exact Nat.le_max_right _ _
    subst hc
    rw [hoffset]
    exact slice_ahead front back hle
  rw [hline]
  simp only [sub_of_le (Nat.le_add_left _ _), Nat.add_sub_cancel, Option.bind_some, hstart, hend,
    hshown, hstop, hunder, hindent]
  cases Cursor.at? c.ahead (Text.lineStop c stop - c.offset) with
  | none => rfl
  | some cut =>
      simp only [Option.map_some, Option.bind_some, List.length_reverse]
      rw [Text.underline, hline]
      rfl

theorem excerpt_eq (text : List Char) (span : Span) :
    excerpt text span = Text.excerpt? text span := by
  cases hat : Cursor.at? text span.start with
  | some c =>
      rcases Cursor.at?_eq_some_iff.mp hat with ⟨front, back, rfl, hstart, rfl⟩
      cases span
      subst hstart
      exact excerpt_append front back _
  | none =>
      unfold excerpt Text.excerpt?
      simp only [place_eq, Text.place?, hat]
      rfl

end Machine
end Plectrum

import Plectrum.Proofs.Chord.Notation
import Plectrum.Proofs.Compile.Continuation
import Plectrum.Proofs.Score.Verdict
import Plectrum.Proofs.Text.Place

/-!
# Where a faulty tuple is written

Chords are put in line by line.  So a faulty tuple is in the line in which it is written,
although its place is one in the text with the chords put in.  It is in the same column
too if no chord is called in front of it in that line.
-/

namespace Plectrum

open Text (byteSize isLineBreak Cursor Place)

namespace Chord

theorem mem_of_mem_putIn {chords : List Chord} (h : Separate chords) {a : Char}
    (hdigit : a.isDigit = false) (text : List Char) : a ∈ putIn chords text -> a ∈ text := by
  induction text using putIn_induction chords with
  | hnil =>
      rw [putIn_nil]
      exact id
  | hcalled c rest hc ih =>
      rw [putIn_called h hc]
      intro hmem
      rcases List.mem_append.mp hmem with hmem | hrest
      · refine List.mem_append_left rest ?_
        rcases List.mem_cons.mp hmem with heq | hmem
        · exact heq ▸ List.mem_cons_self
        · rcases List.mem_append.mp hmem with hpairs | hclose
          · have hpair := (pairs_digits (h.valid c hc)).right a hpairs
            exact absurd (hdigit.symm.trans hpair) Bool.false_ne_true
          · exact List.mem_append_right _ hclose
      · exact List.mem_append_right _ (ih hrest)
  | hcons a rest hnone ih =>
      rw [putIn_cons hnone]
      intro hmem
      rcases List.mem_cons.mp hmem with heq | hrest
      · exact heq ▸ List.mem_cons_self
      · exact List.mem_cons_of_mem _ (ih hrest)

end Chord

namespace Tuple

def mark (t : Tuple) : List Char :=
  if t.brush then [marker] else []

theorem start_add_mark (t : Tuple) : t.span.start + byteSize t.mark = t.opening := by
  unfold mark opening
  cases t.brush <;> rfl

end Tuple

namespace ChordTable

/-!
# Lines with chords put in
-/

section Substituting

variable {table : ChordTable} (htable : table.WellFormed)
include htable

theorem lineBreak_not_mem_substitute {text : List Char} (h : '\n' ∉ text) :
    '\n' ∉ table.substitute text := by
  rw [substitute_eq_putIn htable]
  exact mt (Chord.mem_of_mem_putIn htable.separate rfl text) h

theorem splitOn_substitute (text : List Char) :
    (table.substitute text).splitOn '\n' = (text.splitOn '\n').map table.substitute := by
  have hline := Text.lineBreak_not_mem_firstLine text
  rcases Text.firstLine_cases text with hwhole | ⟨rest, hsplit⟩
  · rw [hwhole] at hline
    rw [List.splitOn_eq_singleton hline,
      List.splitOn_eq_singleton (lineBreak_not_mem_substitute htable hline)]
    rfl
  · have hshorter : rest.length < text.length := by
      rw [hsplit, List.length_append, List.length_cons]
      omega
    rw [hsplit, htable.substitute_append_lineEnd, List.splitOn_append_cons_self_of_not_mem hline,
      List.splitOn_append_cons_self_of_not_mem (lineBreak_not_mem_substitute htable hline),
      splitOn_substitute rest]
    rfl
termination_by text.length

theorem countP_lineBreak_substitute (text : List Char) :
    (table.substitute text).countP isLineBreak = text.countP isLineBreak := by
  have hlength := congrArg List.length (splitOn_substitute htable text)
  rw [List.length_map, Text.length_splitOn_lineBreak, Text.length_splitOn_lineBreak] at hlength
  exact Nat.succ.inj hlength

theorem lineBehind_substitute {c d : Cursor}
    (hd : d.behind.reverse = table.substitute c.behind.reverse) :
    d.lineBehind.reverse = table.substitute c.lineBehind.reverse := by
  have hline := mt List.mem_reverse.mp
    (lineBreak_not_mem_substitute htable c.lineBreak_not_mem_lineBehind)
  rw [List.reverse_eq_iff] at hd
  rw [List.reverse_eq_iff, Cursor.lineBehind, hd]
  rcases c.lineBehind_cases with hwhole | ⟨earlier, hsplit⟩
  · rw [hwhole]
    exact Text.firstLine_eq_self hline
  · rw [hsplit, htable.substitute_append_lineEnd, List.reverse_append, List.reverse_cons,
      List.append_assoc]
    exact Text.firstLine_append hline _

theorem line_substitute {c d : Cursor}
    (hd : d.behind.reverse = table.substitute c.behind.reverse) :
    d.place.line = c.place.line := by
  have hcount := countP_lineBreak_substitute htable c.behind.reverse
  rw [<- hd, List.countP_reverse, List.countP_reverse] at hcount
  exact congrArg (· + 1) hcount

theorem place_substitute {c d : Cursor}
    (hd : d.behind.reverse = table.substitute c.behind.reverse)
    (hnone : forall b, b ∈ table.chords -> ¬ parenthesized b.name <:+: c.lineBehind.reverse) :
    d.place = c.place := by
  have hbehind := lineBehind_substitute htable hd
  rw [substitute_eq_putIn htable, Chord.putIn_of_not_infix _ hnone] at hbehind
  have hcolumn : d.place.column = c.place.column :=
    congrArg (fun run : List Char => run.length + 1) (List.reverse_injective hbehind)
  calc
    d.place = ⟨d.place.line, d.place.column⟩ := rfl
    _ = ⟨c.place.line, c.place.column⟩ := by rw [line_substitute htable hd, hcolumn]
    _ = c.place := rfl

/-!
# Tuples where they are written
-/

theorem substitute_append_mark (front : List Char) (t : Tuple) :
    table.substitute (front ++ t.mark) = table.substitute front ++ t.mark := by
  unfold Tuple.mark
  cases t.brush with
  | false => simp
  | true =>
      have hnil : table.substitute [] = [] := by
        rw [substitute_eq_putIn htable, Chord.putIn_nil]
      have hcut := Chord.foldl_substitute_append_separator table.chords
        (fun c hc => Chord.not_mem_called (htable.valid c hc) (a := Tuple.marker) rfl (by decide)
          (by decide)) front []
      exact hcut.trans (congrArg (fun back => table.substitute front ++ Tuple.marker :: back) hnil)

end Substituting

def WrittenAt (table : ChordTable) (detect : Bool) (c : Cursor) (t : Tuple) : Prop :=
  exists w : Writing, w.StandsIn table c.text ∧ w.Becomes table detect t ∧
    w.before = c.behind.reverse ++ t.mark

theorem Writing.Becomes.exists_front {table : ChordTable} {detect : Bool} {w : Writing}
    {t : Tuple} (h : w.Becomes table detect t) : exists front, w.before = front ++ t.mark := by
  unfold Tuple.mark
  cases hbrush : t.brush with
  | false => exact ⟨w.before, (List.append_nil _).symm⟩
  | true =>
      have hmarked := (h.brush.mp hbrush).right
      exact ⟨w.before.dropLast, (List.dropLast_append_getLast? _ hmarked).symm⟩

/-- A tuple of the text with the chords put in begins behind what is in front of it where
it is written. -/
theorem WellFormed.exists_written {table : ChordTable} (htable : table.WellFormed)
    {detect : Bool} {text : List Char} {t : Tuple}
    (ht : t ∈ Tuple.all detect (table.substitute text)) :
    exists c d : Cursor, c.text = text ∧ WrittenAt table detect c t ∧
      Cursor.at? (table.substitute text) t.span.start = some d ∧
      d.behind.reverse = table.substitute c.behind.reverse := by
  rcases exists_writing_of_stands htable (Tuple.mem_all_iff.mp ht) with ⟨w, hw, hwt⟩
  rcases hwt.exists_front with ⟨front, hfront⟩
  rcases hw.text with ⟨behind, htext, _⟩
  generalize w.content ++ ')' :: (w.duration ++ behind) = inside at htext
  have hsplit : text = front ++ (t.mark ++ '(' :: inside) := by
    rw [htext, hfront, List.append_assoc]
  have hput : table.substitute text =
      table.substitute front ++ (t.mark ++ Chord.putIn table.chords ('(' :: inside)) := by
    rw [htext, substitute_eq_putIn htable, Chord.putIn_append_open htable.separate,
      <- substitute_eq_putIn htable w.before, hfront, substitute_append_mark htable,
      List.append_assoc]
  have hstart : t.span.start = byteSize (table.substitute front) := by
    have hsize := t.start_add_mark.trans hwt.opening
    rw [hfront, substitute_append_mark htable, Text.byteSize_append] at hsize
    exact Nat.add_right_cancel hsize
  have hctext : (Cursor.between front.reverse (t.mark ++ '(' :: inside)).text = text := by
    rw [hsplit]
    exact congrArg (· ++ (t.mark ++ '(' :: inside)) (List.reverse_reverse front)
  refine ⟨_, _, hctext, ⟨w, hctext.symm ▸ hw, hwt, ?_⟩,
    hput ▸ hstart ▸ Cursor.at?_append _ _, ?_⟩
  · rw [hfront]
    exact congrArg (· ++ t.mark) (List.reverse_reverse front).symm
  · show (table.substitute front).reverse.reverse = table.substitute front.reverse.reverse
    rw [List.reverse_reverse, List.reverse_reverse]

end ChordTable

theorem compile_eq_score_error_iff {configuration text : List Char}
    {chords : Option ChordTable} {manner : Manner} {p : Place} {e : ScoreError} :
    compile configuration text chords manner = .error (.score p e) <->
      (exists l, Latencies.read configuration = .ok l) ∧
        Score.read manner.detectsBrushes (withChords chords text) = .error e ∧
        p = faultPlace (withChords chords text) e := by
  unfold compile readScore
  simp only [Outcome.bind_eq_error_iff, Outcome.mapError_eq_error_iff,
    Outcome.mapError_eq_ok_iff]
  constructor
  · rintro (⟨d, _, hd⟩ | ⟨l, hl, ⟨d, hread, hd⟩ | ⟨score, _, d, _, hd⟩⟩)
    · cases hd
    · injection hd with hp he
      subst he
      exact ⟨⟨l, hl⟩, hread, hp.symm⟩
    · cases hd
  · rintro ⟨⟨l, hl⟩, hread, rfl⟩
    exact Or.inr ⟨l, hl, Or.inl ⟨e, hread, rfl⟩⟩

/--
Chords are put in line by line.  So if a score is not read, the place of the error is in
the line in which the first tuple that is not valid is written, and it is the very place
at which it is written if no chord is called in front of it in that line.
-/
theorem fault_places_survive_chords {lines : List Char} {table : ChordTable}
    (h : ChordTable.read lines = .ok table) :
    (forall text, (table.substitute text).splitOn '\n' =
      (text.splitOn '\n').map table.substitute) ∧
    forall configuration text manner p e,
      compile configuration text (some table) manner = .error (.score p e) ->
      exists earlier t later,
        Tuple.all manner.detectsBrushes (table.substitute text) = earlier ++ t :: later ∧
        (forall u, u ∈ earlier -> u.Valid) ∧ ¬ t.Valid ∧ e.span = t.span ∧
        exists c : Cursor, c.text = text ∧ table.WrittenAt manner.detectsBrushes c t ∧
          p.line = c.place.line ∧
          ((forall b, b ∈ table.chords -> ¬ parenthesized b.name <:+: c.lineBehind.reverse) ->
            p = c.place) := by
  have htable := ChordTable.wellFormed_read h
  refine ⟨ChordTable.splitOn_substitute htable, ?_⟩
  intro configuration text manner p e herror
  rcases compile_eq_score_error_iff.mp herror with ⟨_, hread, rfl⟩
  rcases Score.read_eq_error_iff.mp hread with
    ⟨earlier, t, later, hsplit, hearlier, hinvalid, hspan, _⟩
  have ht : t ∈ Tuple.all manner.detectsBrushes (table.substitute text) :=
    hsplit ▸ List.mem_append_right earlier List.mem_cons_self
  rcases htable.exists_written ht with ⟨c, d, htext, hwritten, hat, hd⟩
  have hplace : faultPlace (table.substitute text) e = d.place := by
    unfold faultPlace Text.place?
    rw [hspan, hat]
    rfl
  refine ⟨earlier, t, later, hsplit, hearlier, hinvalid, hspan, c, htext, hwritten, ?_, ?_⟩
  · exact hplace ▸ ChordTable.line_substitute htable hd
  · intro hnone
    exact hplace ▸ ChordTable.place_substitute htable hd hnone

/-!
# A sample

The chord in the first line is longer than its name.  The tuple behind it in the second
line names a string that does not exist.
-/

def displacedFault : List Char :=
  "(E)1\n x (0122)3\n(E)2".toList

theorem displaced_fault_place_survives :
    exists table, ChordTable.read "E 11\n".toList = .ok table ∧
      compile continuedConfiguration displacedFault (some table) continuedManner =
        .error (.score ⟨2, 4⟩ ⟨⟨9, 16⟩, .unknownString 0⟩) ∧
      exists t, t.span = ⟨9, 16⟩ ∧ exists c : Cursor, c.text = displacedFault ∧
        table.WrittenAt true c t ∧ c.place = ⟨2, 4⟩ := by
  have htable : ChordTable.read "E 11\n".toList = .ok ⟨[⟨['E'], ['1', '1']⟩]⟩ :=
    Outcome.toOption_eq_some_iff.mp (by decide +kernel)
  have herror : compile continuedConfiguration displacedFault
      (some ⟨[⟨['E'], ['1', '1']⟩]⟩) continuedManner =
        .error (.score ⟨2, 4⟩ ⟨⟨9, 16⟩, .unknownString 0⟩) := by
    decide +kernel
  rcases (fault_places_survive_chords htable).right _ _ _ _ _ herror with
    ⟨_, t, _, _, _, _, hspan, c, htext, hwritten, hline, hplace⟩
  refine ⟨_, htable, herror, t, hspan.symm, c, htext, hwritten, (hplace ?_).symm⟩
  intro b hb hinfix
  have hcurrent := c.getElem?_splitOn_text
  rw [htext, <- hline] at hcurrent
  have hsecond : c.currentLine = " x (0122)3".toList :=
    Option.some.inj (hcurrent.symm.trans (by decide +kernel))
  have hthere : parenthesized b.name <:+: c.currentLine :=
    hinfix.trans (List.prefix_append _ _).isInfix
  rw [hsecond, List.mem_singleton.mp hb] at hthere
  exact absurd hthere (by decide +kernel)

end Plectrum

import Plectrum.Proofs.Compile.Continuation
import Plectrum.Proofs.Machine.Loading
import Plectrum.Proofs.Machine.Reading
import Plectrum.Proofs.Machine.Scheduling

/-!
# Compiling without undefined operations

A tuple begins and ends between two characters and stands in one line, so it can be cut
out of the text and underlined in its line.  The tables, the score, its schedule and the
text of the schedule are then made without an undefined operation, as long as the clock
of the score has room for the durations and the counter for the tuples.
-/

namespace Plectrum

/-!
# Tuples as they are written
-/

namespace Tuple

open Text (Cursor byteSize)

def written (t : Tuple) : List Char :=
  (if t.brush then [marker] else []) ++ '(' :: (t.pairs ++ ')' :: t.duration)

theorem exists_written {detect : Bool} {text : List Char} {t : Tuple}
    (h : t ∈ all detect text) :
    exists front back, text = front ++ (t.written ++ back) ∧ t.span.start = byteSize front ∧
      t.span.stop = byteSize (front ++ t.written) ∧ '\n' ∉ t.written := by
  rcases mem_all_iff.mp h with ⟨before, after, htext, hopens⟩
  rcases hopens.inner with ⟨ahead, rest, rfl, hinner⟩
  have hopening := hopens.opening
  have hline := hinner.lineEnd_not_mem
  unfold opening at hopening
  unfold written
  by_cases hbrush : t.brush = true
  · rw [if_pos hbrush] at hopening ⊢
    have hlast := (hopens.brush.mp hbrush).right
    have hbefore := List.dropLast_append_getLast? _ hlast
    refine ⟨before.dropLast, rest, ?_, ?_, ?_, ?_⟩
    · rw [htext, hinner.text]
      conv_lhs => rw [<- hbefore]
      simp
    · rw [<- hbefore, Text.byteSize_append] at hopening
      exact Nat.add_right_cancel hopening
    · rw [hopens.stop, <- List.append_assoc, hbefore]
    · intro hmem
      rcases List.mem_append.mp hmem with hmark | hinside
      · cases List.mem_singleton.mp hmark
      · exact hline hinside
  · rw [if_neg hbrush] at hopening ⊢
    refine ⟨before, rest, ?_, hopening, ?_, ?_⟩
    · rw [htext, hinner.text]
      simp
    · exact hopens.stop
    · exact hline

end Tuple

namespace Text

theorem excerpt?_of_line {front part back : List Char} (hline : '\n' ∉ part) :
    excerpt? (front ++ (part ++ back)) ⟨byteSize front, byteSize (front ++ part)⟩ =
      some (underline (Cursor.between front.reverse (part ++ back)) part.length) := by
  have hoffset : (Cursor.between front.reverse (part ++ back)).offset = byteSize front :=
    byteSize_reverse front
  have hahead : exists more,
      (Cursor.between front.reverse (part ++ back)).lineAhead = part ++ more := by
    refine ⟨back.takeWhile (fun a => !isLineBreak a), ?_⟩
    apply List.takeWhile_append_of_pos
    intro a ha
    have hne : a ≠ '\n' := fun heq => hline (heq ▸ ha)
    simpa [isLineBreak] using hne
  rcases hahead with ⟨more, hmore⟩
  have hstop : lineStop (Cursor.between front.reverse (part ++ back))
      (byteSize (front ++ part)) = byteSize front + byteSize part := by
    rw [lineStop, hoffset, hmore, byteSize_append, byteSize_append]
    omega
  unfold excerpt?
  simp only [Cursor.at?_append, hstop, hoffset, Nat.add_sub_cancel_left, Option.bind_eq_bind,
    Option.bind_some]
  show ((Cursor.at? (part ++ back) (byteSize part)).bind _) = _
  rw [Cursor.at?_append]
  show some (underline _ part.reverse.length) = _
  rw [List.length_reverse]

end Text

namespace Machine

open Text (Cursor byteSize)

/-!
# Compiling
-/

def located (text : List Char) : Run ScoreError Score -> Run CompileError Score
  | none => none
  | some (.ok score) => certain (.ok score)
  | some (.error e) => do
      let _ <- defined (excerpt text e.span)
      let p <- defined (place text e.span.start)
      certain (.error (.score p e))

def compile (configuration score : List Char) (chords : Option ChordTable) (manner : Manner) :
    Run CompileError (List Tick) := do
  let l <- ExceptT.adapt .configuration (latencies configuration)
  let parsed <- located (withChords chords score)
    (read manner.detectsBrushes (withChords chords score))
  ExceptT.adapt .schedule (schedule parsed l manner.tempo manner.policy)

/-!
# Faulty tuples
-/

structure Shown (text : List Char) (e : ScoreError) (t : Tuple) : Prop where
  cut : slice text e.span.start e.span.stop = some t.written
  underlined : exists c, Cursor.at? text e.span.start = some c ∧
    excerpt text e.span =
      some (Text.Decimal.alignRight 4 (Text.Decimal.ofNat c.place.line) ++ '|' :: c.currentLine ++
        '\n' :: List.replicate (c.place.column + 4) ' ' ++
        List.replicate t.written.length '^' ++ ['\n'])

theorem shown_of_mem {detect : Bool} {text : List Char} {t : Tuple}
    (ht : t ∈ Tuple.all detect text) {e : ScoreError} (h : e.span = t.span) : Shown text e t := by
  rcases Tuple.exists_written ht with ⟨front, back, rfl, hstart, hstop, hline⟩
  have hspan : t.span = ⟨byteSize front, byteSize (front ++ t.written)⟩ := by
    rw [<- hstart, <- hstop]
  have hwidth : max t.written.length 1 = t.written.length := by
    apply Nat.max_eq_left
    unfold Tuple.written
    simp only [List.length_append, List.length_cons]
    omega
  rw [<- h] at hspan
  constructor
  · rw [hspan]
    exact slice_append front t.written back
  · refine ⟨_, by rw [hspan]; exact Cursor.at?_append front (t.written ++ back), ?_⟩
    rw [excerpt_eq, hspan, Text.excerpt?_of_line hline, Text.underline, hwidth]

theorem located_eq {text : List Char} {outcome : Except ScoreError Score}
    (h : forall e, outcome = .error e -> exists t, Shown text e t) :
    located text (some outcome) =
      some (outcome.mapError (fun e => .score (faultPlace text e) e)) := by
  cases outcome with
  | ok score => rfl
  | error e =>
      rcases h e rfl with ⟨t, hshown⟩
      rcases hshown.underlined with ⟨c, hc, hexcerpt⟩
      have hplace : place text e.span.start = some (faultPlace text e) := by
        rw [place_eq, faultPlace, Text.place?, hc]
        rfl
      rw [located, defined_bind hexcerpt, defined_bind hplace]
      rfl

theorem exists_shown {detect : Bool} {text : List Char} {e : ScoreError}
    (h : Score.read detect text = .error e) :
    exists earlier t later, Tuple.all detect text = earlier ++ t :: later ∧
      (forall u, u ∈ earlier -> u.Valid) ∧ ¬ t.Valid ∧ e.span = t.span ∧ Shown text e t := by
  rcases Score.read_eq_error_iff.mp h with
    ⟨earlier, t, later, hall, hearlier, hinvalid, hspan, _⟩
  have ht : t ∈ Tuple.all detect text := by
    rw [hall]
    exact List.mem_append_right earlier List.mem_cons_self
  exact ⟨earlier, t, later, hall, hearlier, hinvalid, hspan, shown_of_mem ht hspan⟩

/-!
# The whole compilation
-/

/-- Whether a score is read at all, and has more tuples than can be counted. -/
structure Overcounts (configuration score : List Char) (chords : Option ChordTable)
    (manner : Manner) : Prop where
  loaded : exists l, Latencies.read configuration = .ok l
  crowded : Crowded manner.detectsBrushes (withChords chords score)

section Compile

variable {configuration score : List Char} {chords : Option ChordTable} {manner : Manner}
  (hclock : ((Tuple.all manner.detectsBrushes (withChords chords score)).map clocked).sum <=
    9223372036854775807)
include hclock

theorem compile_eq (hcount : ¬ Overcounts configuration score chords manner) :
    compile configuration score chords manner =
      some (Plectrum.compile configuration score chords manner) := by
  unfold compile Plectrum.compile readScore
  rw [latencies_eq]
  refine bind_eq_some rfl fun l hl => ?_
  have hloaded := Outcome.mapError_eq_ok_iff.mp hl
  rw [read_eq hclock (fun hcrowded => hcount ⟨⟨l, hloaded⟩, hcrowded⟩)]
  refine bind_eq_some (located_eq ?_) fun parsed _ => ?_
  · intro e he
    rcases exists_shown he with ⟨_, t, _, _, _, _, _, hshown⟩
    exact ⟨t, hshown⟩
  · rw [schedule_eq]
    rfl

theorem compile_eq_none (hcount : Overcounts configuration score chords manner) :
    compile configuration score chords manner = none := by
  rcases hcount.loaded with ⟨l, hl⟩
  unfold compile
  rw [latencies_eq, hl, read_eq_none hclock hcount.crowded]
  rfl

end Compile

structure Compiles (configuration score : List Char) (chords : Option ChordTable)
    (manner : Manner) : Prop where
  compiled : compile configuration score chords manner =
    some (Plectrum.compile configuration score chords manner)
  rendered : forall ticks, Plectrum.compile configuration score chords manner = .ok ticks ->
    render ticks = some (Tick.render ticks)
  faulty : forall e,
    Score.read manner.detectsBrushes (withChords chords score) = .error e ->
      exists earlier t later,
        Tuple.all manner.detectsBrushes (withChords chords score) = earlier ++ t :: later ∧
          (forall u, u ∈ earlier -> u.Valid) ∧ ¬ t.Valid ∧ e.span = t.span ∧
            Shown (withChords chords score) e t

/--
Tables are loaded, and scores compiled and rendered, without an undefined operation,
provided that the durations that fit in 32 bits add up to a number that the clock of the
score can show.  The only exception is a score that begins with more valid tuples than can
be counted.
-/
theorem compiling_is_defined (lines configuration score : List Char)
    (chords : Option ChordTable) (manner : Manner)
    (hclock : ((Tuple.all manner.detectsBrushes (withChords chords score)).map clocked).sum <=
      9223372036854775807) :
    chordTable lines = some (ChordTable.read lines) ∧
      (¬ Overcounts configuration score chords manner ->
        Compiles configuration score chords manner) ∧
      (Overcounts configuration score chords manner ->
        compile configuration score chords manner = none) := by
  refine ⟨chordTable_eq lines, ?_, compile_eq_none hclock⟩
  intro hcount
  refine ⟨compile_eq hclock hcount, ?_, fun e he => exists_shown he⟩
  intro ticks h
  rcases compile_eq_ok_iff.mp h with ⟨l, parsed, _, hread, hticks⟩
  exact render_eq (fun t ht => Score.codable_of_schedule hread hticks ht)

/-!
# Samples

In the first score the second tuple names a string that does not exist, behind a character
of two bytes.
-/

def sampleFault : List Char :=
  "(E)1 \u00e4^(0122)3\n".toList

theorem sample_compiling_is_defined :
    exists table, ChordTable.read "E 11\n".toList = .ok table ∧
      ((Tuple.all true (table.substitute sampleFault)).map clocked).sum = 4 ∧
      chordTable "E 11\n".toList = some (.ok table) ∧
      Compiles continuedConfiguration sampleFault (some table) continuedManner ∧
      (compile continuedConfiguration sampleFault (some table) continuedManner).isSome ∧
      slice (table.substitute sampleFault) 8 16 = some "^(0122)3".toList := by
  have htable : ChordTable.read "E 11\n".toList = .ok ⟨[⟨['E'], ['1', '1']⟩]⟩ :=
    Outcome.toOption_eq_some_iff.mp (by decide +kernel)
  have hsum : ((Tuple.all true (ChordTable.substitute ⟨[⟨['E'], ['1', '1']⟩]⟩ sampleFault)).map
      clocked).sum = 4 := by
    decide +kernel
  have hlength : (Tuple.all true
      (ChordTable.substitute ⟨[⟨['E'], ['1', '1']⟩]⟩ sampleFault)).length = 2 := by
    decide +kernel
  rcases compiling_is_defined "E 11\n".toList continuedConfiguration sampleFault
    (some ⟨[⟨['E'], ['1', '1']⟩]⟩) continuedManner (Nat.le_trans (Nat.le_of_eq hsum) (by decide))
    with ⟨hload, hdefined, _⟩
  have hcompiles := hdefined (fun hcount =>
    not_crowded_of_length_le (Nat.le_trans (Nat.le_of_eq hlength) (by decide)) hcount.crowded)
  exact ⟨_, htable, hsum, htable ▸ hload, hcompiles, by rw [hcompiles.compiled]; rfl,
    by decide +kernel⟩

/-- So many lines with a tuple that lasts, and then a tuple that does not. -/
def crowdedScore : Nat -> List Char
  | 0 => "(10)0".toList
  | n + 1 => "(10)1".toList ++ '\n' :: crowdedScore n

theorem exists_all_crowdedScore (n : Nat) :
    exists front back, Tuple.all false (crowdedScore n) = front ++ back ∧
      (forall t, t ∈ front -> t.Valid) ∧ front.length = n ∧
      ((front ++ back).map clocked).sum = n := by
  have hline : forall t, t ∈ Tuple.all false "(10)1".toList -> t.Valid :=
    Score.read_ok_iff.mp (Outcome.isSome_toOption_iff.mp (by decide +kernel))
  have hone : (Tuple.all false "(10)1".toList).length = 1 ∧
      ((Tuple.all false "(10)1".toList).map clocked).sum = 1 := by
    decide +kernel
  induction n with
  | zero => exact ⟨[], _, rfl, List.forall_mem_nil _, rfl, by decide +kernel⟩
  | succ n ih =>
      rcases ih with ⟨front, back, hall, hvalid, hlength, hsum⟩
      let later := Tuple.moved (byteSize "(10)1".toList + 1)
      have hclocked : clocked ∘ later = clocked := rfl
      refine ⟨Tuple.all false "(10)1".toList ++ front.map later, back.map later, ?_, ?_, ?_, ?_⟩
      · rw [crowdedScore, Tuple.all_append, hall, List.map_append, List.append_assoc]
      · intro t ht
        rcases List.mem_append.mp ht with ht | ht
        · exact hline t ht
        · rcases List.mem_map.mp ht with ⟨u, hu, rfl⟩
          exact (hvalid u hu).moved _
      · rw [List.length_append, List.length_map, hone.left, hlength, Nat.add_comm]
      · rw [List.append_assoc, <- List.map_append, List.map_append, List.map_map, hclocked,
          List.sum_append, hone.right, hsum, Nat.add_comm]

/-- More tuples than can be counted have no answer, though only the last one is at fault. -/
theorem crowded_score_is_undefined :
    ((Tuple.all false (crowdedScore 2147483648)).map clocked).sum <= 9223372036854775807 ∧
      compile continuedConfiguration (crowdedScore 2147483648) none {} = none := by
  rcases exists_all_crowdedScore 2147483648 with ⟨front, back, hall, hvalid, hlength, hsum⟩
  have hclock : ((Tuple.all false (crowdedScore 2147483648)).map clocked).sum <=
      9223372036854775807 := by
    rw [hall, hsum]
    decide
  refine ⟨hclock, compile_eq_none hclock ⟨?_, front, back, hall, hvalid, ?_⟩⟩
  · exact Outcome.isSome_toOption_iff.mp (by decide +kernel)
  · rw [hlength]
    decide

end Machine
end Plectrum

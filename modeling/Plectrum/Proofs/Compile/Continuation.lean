import Plectrum.Compile
import Plectrum.Proofs.Chord.Substitution
import Plectrum.Proofs.Schedule.Continuation

/-!
# Scores that are written on

Lines that are added to a score do not change what the strings are asked for by the lines
before them.  No chord is called across a line end, no tuple goes on behind one, and a
note asks the same of its string whatever comes later.
-/

namespace Plectrum

theorem compile_eq_ok_iff {configuration score : List Char} {chords : Option ChordTable}
    {manner : Manner} {ticks : List Tick} :
    compile configuration score chords manner = .ok ticks <->
      exists l read, Latencies.read configuration = .ok l ∧
        Score.read manner.detectsBrushes (withChords chords score) = .ok read ∧
        read.schedule l manner.tempo manner.policy = .ok ticks := by
  unfold compile readScore
  simp only [Outcome.bind_eq_ok_iff, Outcome.mapError_eq_ok_iff]
  constructor
  · intro ⟨l, hl, read, hread, hticks⟩
    exact ⟨l, read, hl, hread, hticks⟩
  · intro ⟨l, read, hl, hread, hticks⟩
    exact ⟨l, hl, read, hread, hticks⟩

theorem withChords_append_lineEnd {chords : Option ChordTable}
    (hchords : forall table, table ∈ chords -> table.WellFormed) (front back : List Char) :
    withChords chords (front ++ '\n' :: back) =
      withChords chords front ++ '\n' :: withChords chords back := by
  cases chords with
  | none => rfl
  | some table => exact (hchords table rfl).substitute_append_lineEnd front back

theorem Manner.no_replacing_brush {manner : Manner} (h : manner.brush ≠ some .replace) :
    manner.detectsBrushes = false ∨ manner.policy = .append := by
  unfold detectsBrushes policy
  cases hbrush : manner.brush with
  | none => exact Or.inl rfl
  | some policy =>
      cases policy with
      | replace => exact absurd hbrush h
      | append => exact Or.inr rfl

/--
If a score can be compiled with more lines behind it, it can be compiled without them.
Each string is asked for the same things, all of them earlier by the same time, and for
others only behind them.
-/
theorem compiling_more_keeps_commands {chords : Option ChordTable}
    (hchords : forall table, table ∈ chords ->
      exists lines, ChordTable.read lines = .ok table)
    {manner : Manner} (hmanner : manner.brush ≠ some .replace)
    {configuration front back : List Char} {whole : List Tick}
    (h : compile configuration (front ++ '\n' :: back) chords manner = .ok whole) :
    exists ticks, compile configuration front chords manner = .ok ticks ∧
      exists c : Int, 0 <= c ∧ forall s,
        (Tick.cuesOn s ticks).map (Cue.later c) <+: Tick.cuesOn s whole := by
  have htables : forall table, table ∈ chords -> table.WellFormed := by
    intro table htable
    rcases hchords table htable with ⟨lines, hlines⟩
    exact ChordTable.wellFormed_read hlines
  rcases compile_eq_ok_iff.mp h with ⟨l, score, hl, hscore, hwhole⟩
  have hbrushes := Score.no_replacing_brush hscore (Manner.no_replacing_brush hmanner)
  have htimed := Score.wellTimed_read hscore
  rw [withChords_append_lineEnd htables] at hscore
  rcases Score.exists_joins_of_read hscore with ⟨first, second, hfirst, _, hjoins⟩
  rcases hjoins.exists_schedule (Score.wellTimed_read hfirst) htimed hwhole with
    ⟨ticks, hticks⟩
  exact ⟨ticks, compile_eq_ok_iff.mpr ⟨l, first, hl, hfirst, hticks⟩,
    hjoins.cuesOn_prefix hbrushes hticks hwhole⟩

/-!
# A sample

The second line has a note on another string, whose finger must start before the note of
the first line is prepared.
-/

def continuedConfiguration : List Char :=
  "fret_latency 10\npress_latency 5\nrelease_latency 5\nmove_latency 1 2 20\n".toList

def continuedManner : Manner where
  tempo := (Tempo.of? 6000 1).get (by decide)
  brush := some .append

theorem continued_sample :
    exists table whole, ChordTable.read "E 11\n".toList = .ok table ∧
      compile continuedConfiguration "(E)1\n(22)1".toList (some table) continuedManner =
        .ok whole ∧
      Tick.cuesOn ⟨0⟩ whole = [⟨10, .press⟩, ⟨15, .attack⟩] ∧
      exists ticks,
        compile continuedConfiguration "(E)1".toList (some table) continuedManner =
          .ok ticks ∧
        exists c : Int, 0 <= c ∧ forall s,
          (Tick.cuesOn s ticks).map (Cue.later c) <+: Tick.cuesOn s whole := by
  have htable : ChordTable.read "E 11\n".toList = .ok ⟨[⟨['E'], ['1', '1']⟩]⟩ :=
    Outcome.toOption_eq_some_iff.mp (by decide +kernel)
  have hcues : (compile continuedConfiguration "(E)1\n(22)1".toList
      (some ⟨[⟨['E'], ['1', '1']⟩]⟩) continuedManner).toOption.map (Tick.cuesOn ⟨0⟩) =
        some [⟨10, .press⟩, ⟨15, .attack⟩] := by
    decide +kernel
  rcases Option.map_eq_some_iff.mp hcues with ⟨whole, hsome, hcues⟩
  have h := Outcome.toOption_eq_some_iff.mp hsome
  have hchords : forall table, table ∈ some (⟨[⟨['E'], ['1', '1']⟩]⟩ : ChordTable) ->
      exists lines, ChordTable.read lines = .ok table := by
    intro table heq
    injection heq with heq
    exact ⟨_, heq ▸ htable⟩
  exact ⟨_, whole, htable, h, hcues,
    compiling_more_keeps_commands hchords (by decide) h⟩

end Plectrum

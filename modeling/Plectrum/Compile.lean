import Plectrum.Chord.Substitution
import Plectrum.Latency.Configuration
import Plectrum.Schedule.Journal
import Plectrum.Score.Reading

/-!
# Compiling scores

A score is compiled for an instrument with given latencies.  Chords are put in
before the score is read, so a place in an error is a place in the text with the
chords put in.
-/

namespace Plectrum

/-- How a score is to be played.  Without a policy, brush markers mean nothing. -/
structure Manner where
  tempo : Tempo := Tempo.standard
  brush : Option BrushPolicy := none
  deriving DecidableEq

namespace Manner

def detectsBrushes (m : Manner) : Bool :=
  m.brush.isSome

def policy (m : Manner) : BrushPolicy :=
  m.brush.getD .replace

end Manner

inductive CompileError where
  | configuration (e : ConfigurationError)
  | score (place : Text.Place) (e : ScoreError)
  | schedule (e : ScheduleError)
  deriving DecidableEq

namespace CompileError

def message : CompileError -> String
  | configuration e => s!"latency configuration: {e.message}"
  | score place e => s!"score {String.ofList place.label}: {e.fault.message}"
  | schedule e => e.message

end CompileError

def withChords (chords : Option ChordTable) (score : List Char) : List Char :=
  match chords with
  | some table => table.substitute score
  | none => score

/--
The place where the faulty tuple begins.  A tuple begins between two characters,
so it always has a place.
-/
def faultPlace (text : List Char) (e : ScoreError) : Text.Place :=
  (Text.place? text e.span.start).getD ⟨1, 1⟩

def readScore (detect : Bool) (text : List Char) : Except CompileError Score :=
  (Score.read detect text).mapError (fun e => .score (faultPlace text e) e)

def compile (configuration score : List Char) (chords : Option ChordTable)
    (manner : Manner) : Except CompileError (List Tick) := do
  let latencies <- (Latencies.read configuration).mapError .configuration
  let score <- readScore manner.detectsBrushes (withChords chords score)
  (score.schedule latencies manner.tempo manner.policy).mapError .schedule

def compileJournal (configuration score : List Char) (chords : Option ChordTable)
    (manner : Manner) : List Message :=
  Latencies.journal configuration ++
    match Latencies.read configuration with
    | .error _ => []
    | .ok latencies =>
        let text := withChords chords score
        Score.journal manner.detectsBrushes text ++
          match Score.read manner.detectsBrushes text with
          | .error _ => []
          | .ok score => score.scheduleJournal latencies manner.tempo manner.policy

end Plectrum

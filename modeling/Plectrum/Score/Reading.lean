import Plectrum.Latency.Basic
import Plectrum.Score.Basic
import Plectrum.Score.Tuple
import Plectrum.Text.Quoted
import Plectrum.Journal

/-!
# Reading scores

The notes of a tuple start together, and the next tuple starts after its duration.
Each tuple must have a duration, name existing strings and positions, and name no
string twice.  A brush must run over neighbouring strings.
-/

namespace Plectrum

inductive TupleFault where
  | unknownString (number : Nat)
  | positionTooLarge (position : Nat)
  | noDuration
  | durationTooLong (text : List Char)
  | conflict (string : StringId) (time : Int)
  | brushSkips (source target : StringId)
  | brushTooNarrow
  deriving DecidableEq

namespace TupleFault

def message : TupleFault -> String
  | unknownString number => s!"invalid string id {number}"
  | positionTooLarge position =>
      s!"position {position} exceeds the maximum position {Position.last}"
  | noDuration => "duration must be positive"
  | durationTooLong text => s!"duration {Text.quoted text} is too long"
  | conflict string time =>
      s!"conflicting operations on string {string.number} at time {time}"
  | brushSkips source target =>
      s!"brush skips from string {source.number} to string {target.number}"
  | brushTooNarrow => "brush needs at least two strings"

end TupleFault

structure ScoreError where
  span : Text.Span
  fault : TupleFault
  deriving DecidableEq

namespace Tuple

def divisions (t : Tuple) : Except TupleFault Nat :=
  match Text.Decimal.value? wordMax t.duration with
  | some 0 => .error .noDuration
  | some n => .ok n
  | none => .error (.durationTooLong t.duration)

/-- The values of digits two by two, behind those found before, given latest first. -/
def pairUpFrom (found : List (Nat × Nat)) : List Char -> List (Nat × Nat)
  | a :: b :: rest =>
      pairUpFrom ((Text.Decimal.digitValue a, Text.Decimal.digitValue b) :: found) rest
  | _ => found.reverse

def attacks (t : Tuple) : List (Nat × Nat) :=
  pairUpFrom [] t.pairs

def touched (t : Tuple) : List StringId :=
  t.attacks.filterMap (fun pair => StringId.ofNumber? pair.1)

end Tuple

namespace Brush

def steps : List StringId -> Except TupleFault Unit
  | a :: b :: rest =>
      if a.number + 1 = b.number ∨ b.number + 1 = a.number then
        steps (b :: rest)
      else
        .error (.brushSkips a b)
  | _ => .ok ()

def across (start : Int) : List StringId -> Except TupleFault Brush
  | first :: second :: rest =>
      (steps (first :: second :: rest)).map (fun _ =>
        { start := start, first := first, last := rest.getLastD second })
  | _ => .error .brushTooNarrow

end Brush

namespace Score

def readPair (pair : Nat × Nat) : Except TupleFault (StringId × Position) :=
  match StringId.ofNumber? pair.1 with
  | none => .error (.unknownString pair.1)
  | some s =>
      if pair.2 <= Position.last then
        .ok (s, pair.2)
      else
        .error (.positionTooLarge pair.2)

def addNote (score : Score) (duration : Nat) (s : StringId) (p : Position) :
    Except TupleFault Score :=
  match (score.timeline s).insert ⟨score.length, p, duration⟩ with
  | .ok t => .ok (score.setTimeline s t)
  | .error _ => .error (.conflict s score.length)

def addAttack (duration : Nat) (score : Score) (pair : Nat × Nat) :
    Except TupleFault Score := do
  let note <- readPair pair
  score.addNote duration note.1 note.2

def addBrush (score : Score) (b : Brush) : Score :=
  { score with latestBrushes := b :: score.latestBrushes }

def addStroke (score : Score) (t : Tuple) : Except TupleFault Score :=
  if t.brush then
    (Brush.across score.length t.touched).map score.addBrush
  else
    .ok score

def advance (score : Score) (duration : Nat) : Score :=
  { score with length := score.length + duration }

def add (score : Score) (t : Tuple) : Except TupleFault Score := do
  let duration <- t.divisions
  let attacked <- t.attacks.foldlM (addAttack duration) score
  let brushed <- attacked.addStroke t
  return brushed.advance duration

def addTuple (score : Score) (t : Tuple) : Except ScoreError Score :=
  (score.add t).mapError (ScoreError.mk t.span)

def ofTuples (tuples : List Tuple) : Except ScoreError Score :=
  tuples.foldlM addTuple {}

/-- Reads a score.  If `detect` is false, brush markers mean nothing. -/
def read (detect : Bool) (text : List Char) : Except ScoreError Score :=
  ofTuples (Tuple.all detect text)

/-!
# Journal
-/

def summary (score : Score) (tuples : Nat) : Message :=
  .debug <|
    s!"parsed {tuples} tuples on {score.strings.length} strings, " ++
      s!"{score.brushes.length} brushes, {score.length} divisions"

def journal (detect : Bool) (text : List Char) : List Message :=
  match read detect text with
  | .ok score => [score.summary (Tuple.all detect text).length]
  | .error e =>
      ((Text.excerpt? text e.span).map (fun excerpt =>
        Message.debug (String.ofList ('\n' :: excerpt)))).toList

end Score
end Plectrum

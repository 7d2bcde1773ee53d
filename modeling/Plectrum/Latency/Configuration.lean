import Plectrum.Latency.Directive
import Plectrum.Text.Lines
import Plectrum.Text.Words
import Plectrum.Journal

/-!
# Latency configurations

A configuration is a text with one directive a line.  Blank lines and lines that
begin with an unknown word are passed over.  Every single latency must be given
exactly once, and a travel time at most once in either direction; both directions
may be given if they agree.
-/

namespace Plectrum

structure Move where
  source : Position
  target : Position
  travel : Latency
  deriving DecidableEq

namespace Move

def goes (m : Move) (source target : Position) : Bool :=
  m.source == source && m.target == target

def joins (m : Move) (a b : Position) : Bool :=
  m.goes a b || m.goes b a

/-- Whether a later line may not give the travel time `later` as well. -/
def excludes (m later : Move) : Bool :=
  m.goes later.source later.target ||
    (m.goes later.target later.source && m.travel != later.travel)

end Move

structure Draft where
  scalar : Scalar -> Option Latency := fun _ => none
  /-- The travel times, latest first. -/
  moves : List Move := []

namespace Draft

/-!
# Reading one line
-/

def latencyArgument (directive : Directive) (argument : Nat) (text : List Char) :
    Except DirectiveFault Latency :=
  match Latency.ofNumeral? text with
  | some l => .ok l
  | none => .error (.notPositive directive argument text)

def positionArgument (argument : Nat) (text : List Char) :
    Except DirectiveFault Position := do
  let n <- latencyArgument .move argument text
  if n.ms <= Position.last then return n.ms else throw (.positionTooLarge n.ms)

def moveArguments (source target travel : List Char) : Except DirectiveFault Move := do
  let a <- positionArgument 1 source
  let b <- positionArgument 2 target
  let t <- latencyArgument .move 3 travel
  if a = b then throw (.moveToItself a) else return ⟨a, b, t⟩

def setScalar (d : Draft) (s : Scalar) (l : Latency) : Draft :=
  { d with scalar := fun t => if t = s then some l else d.scalar t }

def addScalar (d : Draft) (s : Scalar) (arguments : List (List Char)) :
    Except DirectiveFault Draft :=
  match arguments with
  | [text] =>
      if (d.scalar s).isSome then
        .error (.repeatedScalar s)
      else
        (latencyArgument (.scalar s) 1 text).map (d.setScalar s)
  | _ => .error (.argumentCount (.scalar s))

def addMove (d : Draft) (arguments : List (List Char)) : Except DirectiveFault Draft :=
  match arguments with
  | [source, target, travel] => do
      let m <- moveArguments source target travel
      if d.moves.any (fun earlier => earlier.excludes m) then
        throw (.repeatedMove m.source m.target)
      else
        return { d with moves := m :: d.moves }
  | _ => .error (.argumentCount .move)

def addWords (d : Draft) : List (List Char) -> Except DirectiveFault Draft
  | [] => .ok d
  | first :: arguments =>
      match Directive.ofWord? first with
      | some (.scalar s) => d.addScalar s arguments
      | some .move => d.addMove arguments
      | none => .ok d

def addLine (d : Draft) (line : Text.Line) : Except ConfigurationError Draft :=
  (d.addWords (Text.words line.text)).mapError (.line line.number)

/-!
# Completing the table
-/

/-- All pairs of positions between which a finger may travel, in ascending order. -/
def pairs : List (Position × Position) :=
  (List.range' 1 Position.last).flatMap (fun low =>
    (List.range' (low + 1) (Position.last - low)).map (fun high => (low, high)))

def travel? (d : Draft) (a b : Position) : Option Latency :=
  (d.moves.find? (fun m => m.joins a b)).map Move.travel

def edges (d : Draft) : List Edge :=
  pairs.filterMap (fun pair =>
    (d.travel? pair.1 pair.2).map (fun t => ⟨pair.1, pair.2, t⟩))

def require (d : Draft) (s : Scalar) : Except ConfigurationError Latency :=
  match d.scalar s with
  | some l => .ok l
  | none => .error (.missing s)

def finish (d : Draft) : Except ConfigurationError Latencies := do
  let settle <- d.require .settle
  let press <- d.require .press
  let release <- d.require .release
  return { settle, press, release, edges := d.edges }

end Draft

namespace Latencies

def readLines (lines : List Text.Line) : Except ConfigurationError Draft :=
  lines.foldlM Draft.addLine {}

def read (configuration : List Char) : Except ConfigurationError Latencies :=
  readLines (Text.numberedLines configuration) >>= Draft.finish

/-!
# Journal
-/

def passedOver (line : Text.Line) : List Message :=
  match Text.words line.text with
  | [] => []
  | first :: _ =>
      if (Directive.ofWord? first).isSome then
        []
      else
        [.info s!"line {line.number}: ignoring unknown directive {Text.quoted first}"]

/-- The lines up to the first faulty one, latest first. -/
def soundLines (sound : List Text.Line) (d : Draft) : List Text.Line -> List Text.Line
  | [] => sound
  | line :: rest =>
      match d.addLine line with
      | .ok next => soundLines (line :: sound) next rest
      | .error _ => sound

def summary (l : Latencies) : Message :=
  .debug <|
    s!"latencies: fret {l.settle.ms} ms, press {l.press.ms} ms, " ++
      s!"release {l.release.ms} ms, {l.edges.length} move edges"

def journal (configuration : List Char) : List Message :=
  (soundLines [] {} (Text.numberedLines configuration)).reverse.flatMap passedOver ++
    match read configuration with
    | .ok l => [summary l]
    | .error _ => []

end Latencies
end Plectrum

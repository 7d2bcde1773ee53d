import Plectrum.Text.Lines
import Plectrum.Text.Words
import Plectrum.Text.Decimal
import Plectrum.Text.Quoted
import Plectrum.Journal

/-!
# Chord tables

A chord table is a text with one chord a line: its name, and the digits for which
it stands.  Blank lines and lines that begin with a number sign are passed over.
A name is given only once.
-/

namespace Plectrum

structure Chord where
  name : List Char
  pairs : List Char
  deriving DecidableEq

inductive ChordFault where
  | malformed
  | invalidName (name : List Char)
  | invalidPairs (name pairs : List Char)
  | repeated (name : List Char)
  deriving DecidableEq

namespace ChordFault

def message : ChordFault -> String
  | malformed => "expected a chord name followed by digit pairs"
  | invalidName name => s!"invalid chord name {Text.quoted name}"
  | invalidPairs name pairs =>
      s!"chord {String.ofList name} is not a sequence of digit pairs: {Text.quoted pairs}"
  | repeated name => s!"chord {String.ofList name} is defined twice"

end ChordFault

structure ChordError where
  line : Nat
  fault : ChordFault
  deriving DecidableEq

namespace ChordError

def message (e : ChordError) : String :=
  s!"line {e.line}: {e.fault.message}"

end ChordError

namespace Chord

def validName : List Char -> Bool
  | [] => false
  | first :: rest =>
      first.isAlpha && rest.all (fun c => c.isAlphanum || c == '#' || c == '_')

def validPairs (pairs : List Char) : Bool :=
  Text.Decimal.isNumeral pairs && pairs.length % 2 == 0

def ofWords : List (List Char) -> Except ChordFault Chord
  | [name, pairs] =>
      if !validName name then
        .error (.invalidName name)
      else if !validPairs pairs then
        .error (.invalidPairs name pairs)
      else
        .ok ⟨name, pairs⟩
  | _ => .error .malformed

end Chord

/-- The chords of a table, in ascending order of their names. -/
structure ChordTable where
  chords : List Chord := []
  deriving DecidableEq

namespace ChordTable

def get? (table : ChordTable) (name : List Char) : Option (List Char) :=
  (table.chords.find? (fun c => c.name == name)).map Chord.pairs

def size (table : ChordTable) : Nat :=
  table.chords.length

def place (c : Chord) : List Chord -> List Chord
  | [] => [c]
  | d :: rest => if c.name < d.name then c :: d :: rest else d :: place c rest

def add (table : ChordTable) (c : Chord) : Except ChordFault ChordTable :=
  if (table.get? c.name).isSome then
    .error (.repeated c.name)
  else
    .ok { chords := place c table.chords }

def passedOver : List (List Char) -> Bool
  | (first :: _) :: _ => first == '#'
  | _ => true

def addWords (table : ChordTable) (words : List (List Char)) :
    Except ChordFault ChordTable :=
  if passedOver words then .ok table else Chord.ofWords words >>= table.add

def addLine (table : ChordTable) (line : Text.Line) : Except ChordError ChordTable :=
  (table.addWords (Text.words line.text)).mapError (ChordError.mk line.number)

def read (text : List Char) : Except ChordError ChordTable :=
  (Text.numberedLines text).foldlM addLine {}

def journal (text : List Char) : List Message :=
  match read text with
  | .ok table => [.debug s!"loaded {table.size} chords"]
  | .error _ => []

end ChordTable
end Plectrum

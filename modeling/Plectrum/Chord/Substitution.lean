import Plectrum.Chord.Table
import Plectrum.Text.Replacement

/-!
# Chords in a score

A chord name in parentheses stands for the digits of the chord in parentheses.
-/

namespace Plectrum

def parenthesized (text : List Char) : List Char :=
  '(' :: text ++ [')']

namespace Chord

def substitute (text : List Char) (c : Chord) : List Char :=
  Text.replace (parenthesized c.name) (parenthesized c.pairs) text

end Chord

namespace ChordTable

def substitute (table : ChordTable) (text : List Char) : List Char :=
  table.chords.foldl Chord.substitute text

end ChordTable
end Plectrum

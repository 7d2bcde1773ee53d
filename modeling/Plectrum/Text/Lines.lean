/-!
# Numbered lines

A line ends at a line feed, at a carriage return, or at both in this order.  Lines
are numbered from 1.  What follows the last line end counts as a line only if it
is not empty.
-/

namespace Plectrum
namespace Text

structure Line where
  number : Nat
  text : List Char
  deriving DecidableEq

structure LineReader where
  /-- Finished lines, latest first. -/
  finished : List Line := []
  number : Nat := 1
  /-- The characters of the current line, latest first. -/
  current : List Char := []
  afterReturn : Bool := false
  deriving DecidableEq

namespace LineReader

def endLine (r : LineReader) (afterReturn : Bool) : LineReader where
  finished := ⟨r.number, r.current.reverse⟩ :: r.finished
  number := r.number + 1
  current := []
  afterReturn := afterReturn

def push (r : LineReader) (c : Char) : LineReader :=
  if c = '\n' then
    if r.afterReturn then { r with afterReturn := false } else r.endLine false
  else if c = '\r' then
    r.endLine true
  else
    { r with current := c :: r.current, afterReturn := false }

def lines (r : LineReader) : List Line :=
  if r.current.isEmpty then
    r.finished.reverse
  else
    (r.endLine false).finished.reverse

end LineReader

def numberedLines (text : List Char) : List Line :=
  (text.foldl LineReader.push {}).lines

end Text
end Plectrum

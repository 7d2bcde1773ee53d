import Plectrum.Text.Cursor
import Plectrum.Text.Decimal

/-!
# Places and excerpts

A place names a position in a text by line and column, both counted from 1, the
column in characters.  A line break belongs to the line that it ends.  An excerpt
shows the line in which a span begins and underlines the span.
-/

namespace Plectrum
namespace Text

/-- A region of a text in bytes, from `start` up to but not including `stop`. -/
structure Span where
  start : Nat
  stop : Nat
  deriving DecidableEq

structure Place where
  line : Nat
  column : Nat
  deriving DecidableEq

namespace Place

def label (p : Place) : List Char :=
  Decimal.ofNat p.line ++ ':' :: Decimal.ofNat p.column

end Place

def isLineBreak (c : Char) : Bool :=
  c == '\n'

namespace Cursor

/-- The part of the current line behind the cursor, nearest first. -/
def lineBehind (c : Cursor) : List Char :=
  c.behind.takeWhile (fun a => !isLineBreak a)

def lineAhead (c : Cursor) : List Char :=
  c.ahead.takeWhile (fun a => !isLineBreak a)

def currentLine (c : Cursor) : List Char :=
  c.lineBehind.reverse ++ c.lineAhead

def place (c : Cursor) : Place where
  line := c.behind.countP isLineBreak + 1
  column := c.lineBehind.length + 1

end Cursor

def place? (text : List Char) (offset : Nat) : Option Place :=
  (Cursor.at? text offset).map Cursor.place

/-- Where a span that begins at the cursor ends, when it is cut at the end of the line. -/
def lineStop (c : Cursor) (stop : Nat) : Nat :=
  max (min stop (c.offset + byteSize c.lineAhead)) c.offset

def underline (c : Cursor) (width : Nat) : List Char :=
  Decimal.alignRight 4 (Decimal.ofNat c.place.line) ++ '|' :: c.currentLine ++
    '\n' :: List.replicate (c.place.column + 4) ' ' ++
    List.replicate (max width 1) '^' ++ ['\n']

/--
The line in which a span begins, with the span underlined as far as that line
reaches.  There is none if the span begins or, cut at the end of the line, ends
inside a character or beyond the text.
-/
def excerpt? (text : List Char) (span : Span) : Option (List Char) := do
  let c <- Cursor.at? text span.start
  let cut <- Cursor.at? c.ahead (lineStop c span.stop - c.offset)
  return underline c cut.behind.length

end Text
end Plectrum

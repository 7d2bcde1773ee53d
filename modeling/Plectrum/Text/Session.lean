import Plectrum.Text.Cursor

/-!
# Reading sessions

A session reads a text through one cursor and can come back to a place that it
has saved.  Every step reports what it read.  Before the first save, the saved
place is the start of the text.
-/

namespace Plectrum
namespace Text

inductive Step where
  | next
  | current
  | eat (expected : Char)
  | skipPast (target : Char)
  | takeWhile (p : Char -> Bool)
  | save
  | restore

inductive Report where
  | read (next : Option (Nat × Char))
  | seen (current : Option Char)
  | eaten (done : Bool)
  | found (offset : Option Nat)
  | taken (run : List Char)
  | silent
  deriving DecidableEq

structure Session where
  cursor : Cursor
  saved : Cursor
  deriving DecidableEq

namespace Session

def start (text : List Char) : Session where
  cursor := Cursor.start text
  saved := Cursor.start text

def step (s : Session) : Step -> Report × Session
  | .next =>
      match s.cursor.next? with
      | some (a, past) => (.read (some (s.cursor.offset, a)), { s with cursor := past })
      | none => (.read none, s)
  | .current => (.seen s.cursor.current?, s)
  | .eat expected =>
      match s.cursor.eat? expected with
      | some past => (.eaten true, { s with cursor := past })
      | none => (.eaten false, s)
  | .skipPast target =>
      let found := s.cursor.skipPast target
      (.found found.1, { s with cursor := found.2 })
  | .takeWhile p =>
      let taken := s.cursor.takeWhile p
      (.taken taken.1, { s with cursor := taken.2 })
  | .save => (.silent, { s with saved := s.cursor })
  | .restore => (.silent, { s with cursor := s.saved })

def run (s : Session) : List Step -> List (Report × Session) × Session
  | [] => ([], s)
  | step :: rest =>
      let answer := s.step step
      let later := answer.2.run rest
      (answer :: later.1, later.2)

theorem run_append (front back : List Step) :
    forall s : Session,
      s.run (front ++ back) =
        ((s.run front).1 ++ ((s.run front).2.run back).1,
          ((s.run front).2.run back).2) := by
  induction front with
  | nil =>
      intro s
      rfl
  | cons step rest ih =>
      intro s
      simp [run, ih]

end Session
end Text
end Plectrum

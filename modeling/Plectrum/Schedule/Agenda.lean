import Std.Data.TreeMap
import Plectrum.Schedule.Tick
import Plectrum.Schedule.Performance
import Plectrum.Text.Quoted

/-!
# Agendas

An agenda holds the commands of each instant.  Those of the same instant stand in
the order in which they were added, unless a brush takes the instant for itself.
-/

namespace Plectrum

inductive BrushPolicy where
  | replace
  | append
  deriving DecidableEq

structure UnknownPolicy where
  word : List Char
  deriving DecidableEq

namespace UnknownPolicy

def message (e : UnknownPolicy) : String :=
  s!"unknown brush policy {Text.quoted e.word}"

end UnknownPolicy

namespace BrushPolicy

def all : List BrushPolicy :=
  [replace, append]

def word : BrushPolicy -> String
  | replace => "replace"
  | append => "append"

def ofWord (word : List Char) : Except UnknownPolicy BrushPolicy :=
  match all.find? (fun policy => policy.word.toList == word) with
  | some policy => .ok policy
  | none => .error ⟨word⟩

end BrushPolicy

/-!
# Commands by instant
-/

/-- The commands of each instant, in the order in which they were given. -/
abbrev Agenda := Std.TreeMap Int (List Command)

namespace Agenda

def add (agenda : Agenda) (time : Int) (c : Command) : Agenda :=
  agenda.alter time (fun commands => some (commands.getD [] ++ [c]))

def addCue (s : StringId) (agenda : Agenda) (cue : Cue) : Agenda :=
  agenda.add cue.time (.operate s cue.operation)

def addCues (agenda : Agenda) (s : StringId) (cues : List Cue) : Agenda :=
  cues.foldl (addCue s) agenda

def addBrush (agenda : Agenda) (policy : BrushPolicy) (time : Int) (c : Command) : Agenda :=
  match policy with
  | .replace => agenda.insert time [c]
  | .append => agenda.add time c

def ticks (agenda : Agenda) : List Tick :=
  agenda.toList.map (fun entry => ⟨entry.1, entry.2⟩)

end Agenda
end Plectrum

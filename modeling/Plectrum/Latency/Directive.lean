import Plectrum.Latency.Basic
import Plectrum.Text.Quoted

/-!
# Directives of a latency configuration

A directive sets one of the three single latencies or gives the travel time
between two positions.
-/

namespace Plectrum

/-- A latency that is given once. -/
inductive Scalar where
  | settle
  | press
  | release
  deriving DecidableEq

namespace Scalar

def word : Scalar -> String
  | settle => "fret_latency"
  | press => "press_latency"
  | release => "release_latency"

end Scalar

inductive Directive where
  | scalar (s : Scalar)
  | move
  deriving DecidableEq

namespace Directive

def word : Directive -> String
  | scalar s => s.word
  | move => "move_latency"

def all : List Directive :=
  [scalar .settle, scalar .press, scalar .release, move]

def ofWord? (text : List Char) : Option Directive :=
  all.find? (fun d => d.word.toList == text)

theorem word_of_ofWord? {text : List Char} {d : Directive}
    (h : ofWord? text = some d) : d.word.toList = text := by
  have hfound := List.find?_some h
  exact eq_of_beq hfound

theorem ofWord?_word (d : Directive) : ofWord? d.word.toList = some d := by
  cases d with
  | scalar s => cases s <;> decide +kernel
  | move => decide +kernel

theorem word_injective {d e : Directive} (h : d.word.toList = e.word.toList) : d = e := by
  have hword := ofWord?_word d
  rw [h, ofWord?_word e] at hword
  exact (Option.some.inj hword).symm

end Directive

/-!
# Faults
-/

inductive DirectiveFault where
  | argumentCount (directive : Directive)
  | repeatedScalar (scalar : Scalar)
  | repeatedMove (source target : Position)
  | positionTooLarge (position : Nat)
  | moveToItself (position : Position)
  | notPositive (directive : Directive) (argument : Nat) (text : List Char)
  deriving DecidableEq

namespace DirectiveFault

def message : DirectiveFault -> String
  | argumentCount directive =>
      s!"wrong number of arguments to {directive.word}"
  | repeatedScalar scalar =>
      s!"conflicting assignment of {scalar.word}"
  | repeatedMove source target =>
      s!"conflicting assignment of {Directive.move.word} {source} {target}"
  | positionTooLarge position =>
      s!"{Directive.move.word} position {position} exceeds the maximum position {Position.last}"
  | moveToItself position =>
      s!"{Directive.move.word} cannot apply to the same position {position}"
  | notPositive directive argument text =>
      s!"argument #{argument} of {directive.word} is not a positive integer: {Text.quoted text}"

end DirectiveFault

inductive ConfigurationError where
  | line (number : Nat) (fault : DirectiveFault)
  | missing (scalar : Scalar)
  deriving DecidableEq

namespace ConfigurationError

def message : ConfigurationError -> String
  | line number fault => s!"line {number}: {fault.message}"
  | missing scalar => s!"missing {scalar.word} directive"

end ConfigurationError
end Plectrum

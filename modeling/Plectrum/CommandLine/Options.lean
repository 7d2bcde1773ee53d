import Plectrum.Journal
import Plectrum.Latency.Basic
import Plectrum.Schedule.Agenda
import Plectrum.Text.Decimal

/-!
# Options of the program

The program is told on its command line which files to read, how the score is to
be played and where the commands go.
-/

namespace Plectrum

structure Options where
  /-- How often more messages were asked for. -/
  verbosity : Nat
  configuration : String
  score : String
  chords : Option String
  tempo : Nat
  divisions : Nat
  /-- Without a policy, brush markers mean nothing. -/
  brush : Option BrushPolicy
  /-- Without an output file, the commands are printed. -/
  output : Option String
  deriving DecidableEq

namespace Options

def detail? (o : Options) : Option Detail :=
  match o.verbosity with
  | 0 => none
  | 1 => some .info
  | 2 => some .debug
  | _ => some .trace

end Options

inductive Setting where
  | chords
  | tempo
  | divisions
  | brush
  | output
  deriving DecidableEq

namespace Setting

def all : List Setting :=
  [chords, tempo, divisions, brush, output]

/-- The value of an option that is not given. -/
def standard? : Setting -> Option (List Char)
  | tempo => some ['6', '0']
  | divisions => some ['1']
  | _ => none

end Setting

inductive Flag where
  | setting (s : Setting)
  | verbose
  | help
  | version
  deriving DecidableEq

namespace Flag

def all : List (Flag × String × Option Char) :=
  [(verbose, "verbose", some 'v'), (help, "help", some 'h'), (version, "version", some 'V'),
    (setting .chords, "chords", some 'c'), (setting .tempo, "tempo", none),
    (setting .divisions, "divisions", none), (setting .brush, "brush", none),
    (setting .output, "output", some 'o')]

def ofName? (name : List Char) : Option Flag :=
  (all.find? (fun entry => entry.2.1.toList == name)).map Prod.fst

def ofLetter? (letter : Char) : Option Flag :=
  (all.find? (fun entry => entry.2.2 == some letter)).map Prod.fst

end Flag

inductive UsageError where
  | unknownArgument
  | missingArgument
  | missingValue
  | impossibleValue
  | notNumber
  | repeatedOption
  /-- Not an error: the usage was asked for. -/
  | helpAsked
  /-- Not an error: the version was asked for. -/
  | versionAsked
  deriving DecidableEq

namespace UsageError

def message : UsageError -> String
  | unknownArgument => "unknown argument"
  | missingArgument => "a configuration and a score are required"
  | missingValue => "an option has no value"
  | impossibleValue => "an option has an impossible value"
  | notNumber => "an option needs a number"
  | repeatedOption => "an option is given twice"
  | helpAsked => "options: -v -c CHORDS -o OUTPUT --tempo --divisions --brush; CONFIGURATION SCORE"
  | versionAsked => "1"

def status : UsageError -> Nat
  | helpAsked => 0
  | versionAsked => 0
  | _ => 1

end UsageError
end Plectrum

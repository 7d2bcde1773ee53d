import Plectrum.CommandLine.Options

/-!
# Reading the command line

Options and paths may come in any order.  Options with a value take it from behind
an equals sign, from the rest of a group of letters, or from the next argument
unless that begins with a dash.  A single dash is a path or a value, and behind
two dashes alone there are only paths.
-/

namespace Plectrum

structure Arguments where
  /-- The paths, latest first. -/
  paths : List (List Char) := []
  verbosity : Nat := 0
  given : List Setting := []
  /-- The values, latest first. -/
  values : List (Setting × List Char) := []
  pending : Option Setting := none
  onlyPaths : Bool := false
  deriving DecidableEq

namespace Arguments

def addPath (a : Arguments) (path : List Char) : Except UsageError Arguments :=
  if a.paths.length < 2 then
    .ok { a with paths := path :: a.paths }
  else
    .error .unknownArgument

def addValue (a : Arguments) (s : Setting) (value : List Char) : Arguments :=
  { a with values := (s, value) :: a.values, pending := none }

def addSetting (a : Arguments) (s : Setting) (value? : Option (List Char)) : Arguments :=
  let b := { a with given := s :: a.given }
  match value? with
  | some value => b.addValue s (value.dropWhile (fun c => c == '='))
  | none => { b with pending := some s }

def addVerbose (a : Arguments) : Arguments :=
  { a with verbosity := a.verbosity + 1, pending := none }

def addLong (a : Arguments) (text : List Char) : Except UsageError Arguments :=
  let name := text.takeWhile (fun c => c != '=')
  let rest := text.dropWhile (fun c => c != '=')
  match Flag.ofName? name with
  | some (.setting s) => .ok (a.addSetting s (if rest.isEmpty then none else some rest))
  | some .verbose => .ok a.addVerbose
  | some .help => .error .helpAsked
  | some .version => .error .versionAsked
  | none => .error .unknownArgument

def addLetters (a : Arguments) : List Char -> Except UsageError Arguments
  | [] => .ok a
  | letter :: rest =>
      match Flag.ofLetter? letter with
      | some (.setting s) => .ok (a.addSetting s (if rest.isEmpty then none else some rest))
      | some .verbose => a.addVerbose.addLetters rest
      | some .help => .error .helpAsked
      | some .version => .error .versionAsked
      | none => .error .unknownArgument

def add (a : Arguments) (text : List Char) : Except UsageError Arguments :=
  if a.onlyPaths then
    a.addPath text
  else
    match text with
    | ['-', '-'] => .ok { a with onlyPaths := true }
    | '-' :: '-' :: rest => a.addLong (rest.dropWhile (fun c => c == '-'))
    | '-' :: c :: rest => a.addLetters (c :: rest)
    | _ =>
        match a.pending with
        | some s => .ok (a.addValue s text)
        | none => a.addPath text

/-!
# From arguments to options
-/

def valuesOf (a : Arguments) (s : Setting) : List (List Char) :=
  let found := (a.values.filter (fun entry => entry.1 == s)).map Prod.snd
  if found.isEmpty then s.standard?.toList else found.reverse

/-- A number of 32 bits, which may have a plus sign. -/
def number? (text : List Char) : Option Nat :=
  let digits :=
    match text with
    | '+' :: rest => rest
    | _ => text
  if Text.Decimal.isNumeral digits then Text.Decimal.value? wordMax digits else none

def checkValue (s : Setting) (value : List Char) : Except UsageError Unit :=
  match s with
  | .tempo | .divisions => if (number? value).isSome then .ok () else .error .notNumber
  | .brush =>
      match BrushPolicy.ofWord value with
      | .ok _ => .ok ()
      | .error _ => .error .impossibleValue
  | .chords | .output => .ok ()

def checkSetting (a : Arguments) (s : Setting) : Except UsageError Unit := do
  if (a.valuesOf s).isEmpty then throw .missingValue
  (a.valuesOf s).forM (checkValue s)
  if 1 < a.given.count s then throw .repeatedOption

def checkPending (a : Arguments) : Except UsageError Unit :=
  match a.pending with
  | some s => if (a.valuesOf s).isEmpty then .error .missingValue else .ok ()
  | none => .ok ()

def value? (a : Arguments) (s : Setting) : Option (List Char) :=
  (a.valuesOf s).head?

def policy? (a : Arguments) : Option BrushPolicy :=
  (a.value? .brush).bind (fun word => (BrushPolicy.ofWord word).toOption)

def finish (a : Arguments) : Except UsageError Options :=
  match a.paths.reverse with
  | [configuration, score] => do
      a.checkPending
      (Setting.all.filter a.given.contains).forM a.checkSetting
      return {
        verbosity := a.verbosity
        configuration := String.ofList configuration
        score := String.ofList score
        chords := (a.value? .chords).map String.ofList
        tempo := ((a.value? .tempo).bind number?).getD 0
        divisions := ((a.value? .divisions).bind number?).getD 0
        brush := a.policy?
        output := (a.value? .output).map String.ofList }
  | _ => .error .missingArgument

end Arguments

namespace Options

def read (arguments : List String) : Except UsageError Options :=
  (arguments.map String.toList).foldlM Arguments.add {} >>= Arguments.finish

end Options
end Plectrum

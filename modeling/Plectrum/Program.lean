import Plectrum.CommandLine.Reading
import Plectrum.Compile
import Plectrum.Files.Store

/-!
# The program

The program reads its files, compiles the score and writes the commands.  It does
so through a host, which gives it files, an output and a place for messages.
Nothing is written unless the score compiles.
-/

namespace Plectrum

inductive ProgramError where
  | tempo (beatsPerMinute divisionsPerBeat : Nat)
  | unreadable (path : String) (failure : FileFailure)
  | chords (e : ChordError)
  | compile (e : CompileError)
  | unwritable (failure : FileFailure)
  deriving DecidableEq

namespace ProgramError

def message : ProgramError -> String
  | tempo beats divisions =>
      s!"invalid tempo {beats} bpm with {divisions} divisions per beat"
  | unreadable path failure => s!"cannot read {path}: {failure.message}"
  | chords e => s!"chord table: {e.message}"
  | compile e => e.message
  | unwritable failure => s!"cannot write output: {failure.message}"

end ProgramError

/-!
# Hosts
-/

structure Host (m : Type -> Type) where
  read : String -> m (Except FileFailure String)
  write : String -> String -> m (Except FileFailure Unit)
  print : String -> m (Except FileFailure Unit)
  tell : List Message -> m Unit

namespace Host

variable {m : Type -> Type} [Monad m]

def readText (host : Host m) (path : String) : ExceptT ProgramError m (List Char) := do
  match <- host.read path with
  | .ok text => return text.toList
  | .error failure => throw (.unreadable path failure)

def tellWanted (host : Host m) (o : Options) (messages : Unit -> List Message) :
    ExceptT ProgramError m Unit :=
  match o.detail? with
  | some detail => host.tell (Message.wanted detail (messages ()))
  | none => return

def readChords (host : Host m) (o : Options) : ExceptT ProgramError m (Option ChordTable) := do
  match o.chords with
  | none => return none
  | some path =>
      let text <- host.readText path
      host.tellWanted o (fun _ => ChordTable.journal text)
      match ChordTable.read text with
      | .ok table => return some table
      | .error e => throw (.chords e)

def deliver (host : Host m) (o : Options) (text : String) : ExceptT ProgramError m Unit := do
  let outcome <-
    match o.output with
    | some path => host.write path text
    | none => host.print text
  match outcome with
  | .ok () => return
  | .error failure => throw (.unwritable failure)

end Host

/-!
# Running the program
-/

section

variable {m : Type -> Type} [Monad m]

def run (host : Host m) (o : Options) : ExceptT ProgramError m Unit := do
  let some tempo := Tempo.of? o.tempo o.divisions | throw (.tempo o.tempo o.divisions)
  let configuration <- host.readText o.configuration
  let score <- host.readText o.score
  let chords <- host.readChords o
  let manner : Manner := { tempo := tempo, brush := o.brush }
  host.tellWanted o (fun _ =>
    .info s!"compiling {o.score}" :: compileJournal configuration score chords manner)
  match compile configuration score chords manner with
  | .ok ticks => host.deliver o (String.ofList (Tick.render ticks))
  | .error e => throw (.compile e)

inductive Outcome where
  | misused (e : UsageError)
  | ended (o : Options) (result : Except ProgramError Unit)

namespace Outcome

def status : Outcome -> Nat
  | misused e => e.status
  | ended _ (.ok _) => 0
  | ended _ (.error _) => 1

def complaint : Outcome -> String
  | misused e => s!"{e.message}\n"
  | ended _ (.ok _) => ""
  | ended _ (.error e) => s!"error: {e.message}\n"

end Outcome

def execute (host : Host m) (arguments : List String) : m Outcome :=
  match Options.read arguments with
  | .error e => return .misused e
  | .ok o => return .ended o (<- (run host o).run)

end

/-!
# Running on stored files
-/

structure World where
  store : Store := {}
  printed : String := ""
  deriving DecidableEq

namespace World

/-- The host that keeps everything in a world and has no interest in messages. -/
def host : Host (StateM World) where
  read := fun path => return (<- get).store.read path
  write := fun path text => do
    let world <- get
    match world.store.write path text with
    | .ok store => do
        set { world with store := store }
        return .ok ()
    | .error failure => return .error failure
  print := fun text => do
    modify (fun world => { world with printed := world.printed ++ text })
    return .ok ()
  tell := fun _ => return

end World
end Plectrum

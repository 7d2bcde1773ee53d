import Plectrum.Files.Failure
import Plectrum.Text.Cursor

/-!
# Stored files

A store holds the files of a working directory and of the directories in it.
Paths are resolved part by part as the system does: every part but the last must
be a directory, a dot stays in a directory, and two dots go back to the one above.
-/

namespace Plectrum

inductive Contents where
  | text (text : String)
  | bytes
  deriving DecidableEq

/-- The names that lead from the working directory to a file. -/
abbrev Route := List (List Char)

namespace Route

/-- The parts of a path between its slashes, behind a part given latest character first. -/
def partsFrom (part : List Char) : List Char -> Route
  | [] => [part.reverse]
  | c :: rest =>
      if c = '/' then part.reverse :: partsFrom [] rest else partsFrom (c :: part) rest

def parts (path : List Char) : Route :=
  partsFrom [] path

/-- The part that goes to the directory above. -/
def above : List Char :=
  ['.', '.']

def stays (part : List Char) : Bool :=
  part == [] || part == ['.']

/-- The directory in which absolute paths begin.  No file has this name. -/
def root : Route :=
  [['/']]

def up (route : Route) : Route :=
  if route = root then
    root
  else
    match route.getLast? with
    | none => [above]
    | some name => if name = above then route ++ [above] else route.dropLast

def isTooLong (route : Route) : Bool :=
  255 < Text.byteSize (route.getLastD [])

end Route

structure Store where
  files : List (Route × Contents) := []
  deriving DecidableEq

namespace Store

inductive Target where
  | directory
  | name (route : Route)
  | directoryName (route : Route)
  | failed (failure : FileFailure)
  deriving DecidableEq

def get? (store : Store) (route : Route) : Option Contents :=
  (store.files.find? (fun entry => entry.1 == route)).map Prod.snd

def put (store : Store) (route : Route) (contents : Contents) : Store where
  files := (store.files.filter (fun entry => entry.1 != route)) ++ [(route, contents)]

/-- The working directory, those above it, the root, and those that files lie in. -/
def isDirectory (store : Store) (route : Route) : Bool :=
  route.all (fun name => name == Route.above) || route == Route.root ||
    store.files.any (fun entry => route.isPrefixOf entry.1 && entry.1 != route)

def enter (store : Store) (route : Route) : Except FileFailure Route :=
  if route.isTooLong then .error .nameTooLong
  else if (store.get? route).isSome then .error .notDirectory
  else if store.isDirectory route then .ok route
  else .error .noSuchFile

def follow (store : Store) (route : Route) : Route -> Target
  | [] => .directory
  | part :: rest =>
      if Route.stays part then
        store.follow route rest
      else if part = Route.above then
        store.follow route.up rest
      else if rest.isEmpty then
        .name (route ++ [part])
      else if rest.all List.isEmpty then
        .directoryName (route ++ [part])
      else
        match store.enter (route ++ [part]) with
        | .ok here => store.follow here rest
        | .error failure => .failed failure

def resolve (store : Store) (path : List Char) : Target :=
  if path.contains '\x00' then .failed .zeroInName
  else if path.isEmpty then .failed .noSuchFile
  else if 4096 <= Text.byteSize path then .failed .nameTooLong
  else if path.head? = some '/' then store.follow Route.root (Route.parts path)
  else store.follow [] (Route.parts path)

def read (store : Store) (path : String) : Except FileFailure String :=
  match store.resolve path.toList with
  | .directory => .error .isDirectory
  | .directoryName route =>
      (store.enter route).bind (fun _ => .error .isDirectory)
  | .name route =>
      match store.get? route with
      | some (.text text) => .ok text
      | some .bytes => .error .notText
      | none => (store.enter route).bind (fun _ => .error .isDirectory)
  | .failed failure => .error failure

/-- Writes a file.  A name with a slash behind it is refused before it is looked up. -/
def write (store : Store) (path text : String) : Except FileFailure Store :=
  match store.resolve path.toList with
  | .directory => .error .isDirectory
  | .directoryName _ => .error .isDirectory
  | .name route =>
      if route.isTooLong then .error .nameTooLong
      else if store.isDirectory route then .error .isDirectory
      else .ok (store.put route (.text text))
  | .failed failure => .error failure

end Store
end Plectrum

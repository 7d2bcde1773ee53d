import Plectrum.Program

/-!
# Command line
-/

namespace Plectrum
namespace Console

def failure : IO.Error -> FileFailure
  | .noFileOrDirectory _ code details => said code details
  | .inappropriateType _ code details => said code details
  | .permissionDenied _ code details => said code details
  | .invalidArgument _ code details => said code details
  | .alreadyExists _ code details => said code details
  | .resourceExhausted _ code details => said code details
  | .resourceBusy code details => said code details
  | .resourceVanished code details => said code details
  | .hardwareFault code details => said code details
  | .unsupportedOperation code details => said code details
  | .otherError code details => said code details
  | e => .other (toString e)
where
  said (code : UInt32) (details : String) : FileFailure :=
    .other s!"{details} (os error {code})"

def read (path : String) : IO (Except FileFailure String) := do
  try
    match String.fromUTF8? (<- IO.FS.readBinFile path) with
    | some text => return .ok text
    | none => return .error .notText
  catch e => return .error (failure e)

def attempt (action : IO Unit) : IO (Except FileFailure Unit) := do
  try
    action
    return .ok ()
  catch e => return .error (failure e)

def printMessage (m : Message) : IO Unit :=
  IO.println s!"{m.detail.label} {m.text}"

def host : Host IO where
  read := read
  write := fun path text => attempt (IO.FS.writeFile path text)
  print := fun text => attempt (do
    let output <- IO.getStdout
    output.putStr text
    output.flush)
  tell := fun messages => messages.forM printMessage

end Console
end Plectrum

def main (arguments : List String) : IO UInt32 := do
  let outcome <- Plectrum.execute Plectrum.Console.host arguments
  IO.eprint outcome.complaint
  return UInt32.ofNat outcome.status

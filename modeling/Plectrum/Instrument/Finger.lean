import Plectrum.Latency.Basic

/-!
# Fingers

A finger prepares each attack of its string.  For a new position it releases the
string if it presses it, travels, and presses again; for the open string it only
releases.  All of this must be done when the attack comes, so every preparing
action has a negative offset to the attack.
-/

namespace Plectrum

/-- An operation and the milliseconds from the attack to it. -/
structure Action where
  offset : Int
  operation : Operation
  deriving DecidableEq

structure Finger where
  position : Position := Position.rest
  pressed : Bool := false
  deriving DecidableEq

namespace Finger

def releaseAhead (f : Finger) (time : Nat) : List Action :=
  if f.pressed then [⟨-time, .release⟩] else []

def pressAhead (f : Finger) (time : Nat) : List Action :=
  if f.pressed then [] else [⟨-time, .press⟩]

/-- The actions that prepare an attack at a position, latest first. -/
def preparation (f : Finger) (l : Latencies) (target : Position) :
    Except UnknownTravel (List Action) :=
  if target = Position.openString then
    .ok (f.releaseAhead l.release.ms)
  else if target = f.position then
    .ok (f.pressAhead l.press.ms)
  else
    (l.travel f.position target).map (fun t =>
      ⟨-l.press.ms, .press⟩ :: ⟨-(l.press.ms + t.ms : Nat), .move target⟩ ::
        f.releaseAhead (l.press.ms + t.ms + l.release.ms))

def after (f : Finger) (target : Position) : Finger :=
  if target = Position.openString then
    { f with pressed := false }
  else
    { position := target, pressed := true }

def play (f : Finger) (l : Latencies) (target : Position) :
    Except UnknownTravel (List Action × Finger) :=
  (f.preparation l target).map (fun actions => (actions ++ [⟨0, .attack⟩], f.after target))

/--
Plays positions one after the other.  A position that cannot be reached is left
out, and the finger stays as it is.
-/
def run (f : Finger) (l : Latencies) :
    List Position -> List (Except UnknownTravel (List Action) × Finger)
  | [] => []
  | target :: rest =>
      match f.play l target with
      | .ok (actions, next) => (.ok actions, next) :: next.run l rest
      | .error e => (.error e, f) :: f.run l rest

end Finger
end Plectrum

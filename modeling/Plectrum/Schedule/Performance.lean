import Plectrum.Instrument.Finger
import Plectrum.Score.Basic

/-!
# Playing one string

Each note of a string is attacked at its time, and its finger prepares the attack.
Nothing may happen on the string while it settles after the attack before.  All
times must fit in 64 bits with a sign.
-/

namespace Plectrum

inductive ScheduleError where
  | unknownTravel (string : StringId) (time : Int) (travel : UnknownTravel)
  | tooEarly (string : StringId) (time instant busyUntil : Int)
  | timeOverflow (string : StringId) (time : Int)
  /-- A time does not fit in 64 bits when counted from the first command. -/
  | shiftOverflow (instant origin : Int)
  deriving DecidableEq

namespace ScheduleError

def message : ScheduleError -> String
  | unknownTravel string time travel =>
      s!"string {string.number} at division {time}: {travel.message}"
  | tooEarly string time instant busyUntil =>
      s!"not enough time for playing string {string.number} at division {time}: " ++
        s!"command at {instant} ms, string busy until {busyUntil} ms"
  | timeOverflow string time =>
      s!"string {string.number} at division {time}: time exceeds the representable range"
  | shiftOverflow instant origin =>
      s!"command at {instant} ms cannot be shifted to the origin at {origin} ms"

end ScheduleError

/-!
# Representable times
-/

def Representable (time : Int) : Prop :=
  -9223372036854775808 <= time ∧ time <= 9223372036854775807

instance (time : Int) : Decidable (Representable time) :=
  inferInstanceAs (Decidable (_ ∧ _))

def checked (error : ScheduleError) (time : Int) : Except ScheduleError Int :=
  if Representable time then .ok time else .error error

theorem checked_eq_ok_iff {error : ScheduleError} {time t : Int} :
    checked error time = .ok t <-> Representable time ∧ t = time := by
  unfold checked
  split
  · rename_i h
    constructor
    · intro heq
      injection heq with ht
      exact ⟨h, ht.symm⟩
    · intro heq
      rw [heq.right]
  · rename_i h
    constructor
    · intro heq
      cases heq
    · intro heq
      exact absurd heq.left h

/-!
# Performances
-/

structure Cue where
  time : Int
  operation : Operation
  deriving DecidableEq

structure Performance where
  finger : Finger := {}
  lastAttack : Option Int := none
  /-- What the string has been told to do, latest first. -/
  cues : List Cue := []
  deriving DecidableEq

/-- Why a string cannot be played, and what it has been told before, latest first. -/
structure Halt where
  error : ScheduleError
  cues : List Cue
  deriving DecidableEq

namespace Performance

def instant (l : Latencies) (s : StringId) (n : Note) (lastAttack : Option Int)
    (attack : Int) (a : Action) : Except ScheduleError Int := do
  let time <- checked (.timeOverflow s n.start) (attack + a.offset)
  match lastAttack with
  | none => return time
  | some last =>
      let busyUntil <- checked (.timeOverflow s n.start) (last + l.settle.ms)
      if time < busyUntil then throw (.tooEarly s n.start time busyUntil) else return time

def cue (l : Latencies) (s : StringId) (n : Note) (lastAttack : Option Int)
    (attack : Int) (cues : List Cue) (a : Action) : Except Halt (List Cue) :=
  match instant l s n lastAttack attack a with
  | .ok time => .ok (⟨time, a.operation⟩ :: cues)
  | .error e => .error ⟨e, cues⟩

def plan (l : Latencies) (unit : Nat) (s : StringId) (f : Finger) (n : Note) :
    Except ScheduleError (Int × List Action × Finger) := do
  let attack <- checked (.timeOverflow s n.start) (n.start * unit)
  let played <- (f.play l n.position).mapError (.unknownTravel s n.start)
  return (attack, played)

def play (l : Latencies) (unit : Nat) (s : StringId) (p : Performance) (n : Note) :
    Except Halt Performance :=
  match plan l unit s p.finger n with
  | .error e => .error ⟨e, p.cues⟩
  | .ok (attack, actions, finger) =>
      (actions.foldlM (cue l s n p.lastAttack attack) p.cues).map (fun cues =>
        { finger := finger, lastAttack := some attack, cues := cues })

def playAll (l : Latencies) (unit : Nat) (s : StringId) (p : Performance)
    (notes : List Note) : Except Halt Performance :=
  notes.foldlM (play l unit s) p

/-- What a string is told to do for its notes, in the order in which it is told. -/
def perform (l : Latencies) (unit : Nat) (s : StringId) (notes : List Note) :
    Except Halt (List Cue) :=
  (playAll l unit s {} notes).map (fun p => p.cues.reverse)

end Performance
end Plectrum

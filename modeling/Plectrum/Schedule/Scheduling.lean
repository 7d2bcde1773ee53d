import Plectrum.Schedule.Agenda
import Plectrum.Schedule.Tempo

/-!
# Schedules

The commands of all strings are put together by their instants.  Strings come in
ascending order, so commands of the same instant are ordered by string and then as
the string was told.  Brushes come last.  The first command is at time 0.
-/

namespace Plectrum

namespace Brush

def command (b : Brush) : Command :=
  .brush b.first b.last

def instant (unit : Nat) (b : Brush) : Except ScheduleError Int :=
  checked (.timeOverflow b.first b.start) (b.start * unit)

end Brush

namespace Tick

def shift (origin : Int) (t : Tick) : Except ScheduleError Tick :=
  (checked (.shiftOverflow t.time origin) (t.time - origin)).map (fun time =>
    { t with time := time })

/-- Counts all times from that of the first tick. -/
def shiftAll : List Tick -> Except ScheduleError (List Tick)
  | [] => .ok []
  | first :: rest => (first :: rest).mapM (shift first.time)

end Tick

/-!
# Scheduling a score
-/

namespace Score

def cues (score : Score) (l : Latencies) (unit : Nat) (s : StringId) :
    Except Halt (List Cue) :=
  Performance.perform l unit s (score.timeline s).notes

def addString (score : Score) (l : Latencies) (unit : Nat) (agenda : Agenda)
    (s : StringId) : Except ScheduleError Agenda :=
  ((score.cues l unit s).mapError Halt.error).map (agenda.addCues s)

def stringAgenda (score : Score) (l : Latencies) (unit : Nat) :
    Except ScheduleError Agenda :=
  score.strings.foldlM (score.addString l unit) {}

def agenda (score : Score) (l : Latencies) (unit : Nat) (policy : BrushPolicy) :
    Except ScheduleError Agenda := do
  let strings <- score.stringAgenda l unit
  score.brushes.foldlM (fun agenda b =>
    (b.instant unit).map (fun time => agenda.addBrush policy time b.command)) strings

def schedule (score : Score) (l : Latencies) (tempo : Tempo) (policy : BrushPolicy) :
    Except ScheduleError (List Tick) := do
  let agenda <- score.agenda l tempo.unit policy
  Tick.shiftAll agenda.ticks

end Score
end Plectrum

import Plectrum.Schedule.Scheduling
import Plectrum.Journal

/-!
# The journal of a schedule

Every command is told with its instant, before the instants are counted from the
first one.  If a string cannot be played, its commands up to that note are told,
and nothing after them.
-/

namespace Plectrum

namespace StringId

def described (s : StringId) : String :=
  s!"StringId({s.number})"

end StringId

namespace Operation

def described : Operation -> String
  | press => "Press"
  | release => "Release"
  | move target => s!"Move({target})"
  | attack => "FretConfirm"

end Operation

namespace Command

def described : Command -> String
  | operate string operation =>
      s!"String \x7b string: {string.described}, op: {operation.described} \x7d"
  | brush first last =>
      s!"Brush \x7b first: {first.described}, last: {last.described} \x7d"

def told (time : Int) (c : Command) : Message :=
  let instant := String.ofList (Text.Decimal.alignRight 7 (Text.Decimal.ofInt time))
  .trace s!"{instant}: {c.described}"

end Command

namespace Score

def toldCues (s : StringId) (cues : List Cue) : List Message :=
  cues.map (fun cue => (Command.operate s cue.operation).told cue.time)

def toldStrings (score : Score) (l : Latencies) (unit : Nat) :
    List StringId -> List Message
  | [] => []
  | s :: rest =>
      match score.cues l unit s with
      | .ok cues =>
          toldCues s cues ++
            .debug s!"string {s.number}: {(score.timeline s).size} notes" ::
              score.toldStrings l unit rest
      | .error halt => toldCues s halt.cues.reverse

def toldBrushes (score : Score) (unit : Nat) : List Message :=
  (score.brushes.takeWhile (fun b => Representable (b.start * unit))).map (fun b =>
    b.command.told (b.start * unit))

def toldTicks (ticks : List Tick) : Message :=
  let commands := ticks.foldl (fun count t => count + t.commands.length) 0
  .info s!"{commands} commands at {ticks.length} distinct times"

def scheduleJournal (score : Score) (l : Latencies) (tempo : Tempo)
    (policy : BrushPolicy) : List Message :=
  let opening := Message.info
    s!"scheduling at {tempo.beatsPerMinute} bpm, {tempo.unit} ms per division"
  let brushes :=
    match score.stringAgenda l tempo.unit with
    | .ok _ => score.toldBrushes tempo.unit
    | .error _ => []
  let closing :=
    match score.schedule l tempo policy with
    | .ok ticks => [toldTicks ticks]
    | .error _ => []
  opening :: score.toldStrings l tempo.unit score.strings ++ brushes ++ closing

end Score
end Plectrum

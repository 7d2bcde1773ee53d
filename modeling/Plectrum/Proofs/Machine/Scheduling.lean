import Plectrum.Proofs.Machine.Operations
import Plectrum.Proofs.Schedule.Rendering

/-!
# Playing and rendering in words and bytes

The times at which a finger prepares an attack are counted backwards from it, in words.
The codes of commands are bytes.
-/

namespace Plectrum
namespace Machine

/-!
# Fingers
-/

def releaseAhead (f : Finger) (l : Latencies) (time : Int) : Option (List Action) :=
  if f.pressed then do
    let released <- word (time - l.release.ms)
    return [⟨released, .release⟩]
  else
    some []

def pressAhead (f : Finger) (l : Latencies) : Option (List Action) :=
  if f.pressed then
    some []
  else do
    let pressed <- word (0 - l.press.ms)
    return [⟨pressed, .press⟩]

def preparation (f : Finger) (l : Latencies) (target : Position) :
    Run UnknownTravel (List Action) :=
  if target = Position.openString then
    defined (releaseAhead f l 0)
  else if target = f.position then
    defined (pressAhead f l)
  else do
    let travel <- certain (l.travel f.position target)
    let pressed <- defined (word (0 - l.press.ms))
    let moved <- defined (word (pressed - travel.ms))
    let released <- defined (releaseAhead f l moved)
    certain (.ok (⟨pressed, .press⟩ :: ⟨moved, .move target⟩ :: released))

def play (f : Finger) (l : Latencies) (target : Position) :
    Run UnknownTravel (List Action × Finger) := do
  let actions <- preparation f l target
  certain (.ok (actions ++ [⟨0, .attack⟩], f.after target))

theorem representable_neg {time : Nat} (h : time <= 3 * wordMax) :
    Representable (-(time : Int)) := by
  unfold Representable
  unfold wordMax at h
  omega

theorem releaseAhead_eq (f : Finger) (l : Latencies) (time : Nat) (h : time <= 2 * wordMax) :
    releaseAhead f l (-(time : Int)) = some (f.releaseAhead (time + l.release.ms)) := by
  have hle := l.release.ms_le
  have htime : -(time : Int) - l.release.ms = -((time + l.release.ms : Nat) : Int) := by omega
  unfold releaseAhead Finger.releaseAhead
  rw [htime, word_of_representable (representable_neg (by omega))]
  split
  · rfl
  · rfl

theorem word_press (l : Latencies) : word (0 - l.press.ms) = some (-(l.press.ms : Int)) := by
  have hle := l.press.ms_le
  rw [Int.zero_sub]
  exact word_of_representable (representable_neg (by omega))

theorem preparation_eq (f : Finger) (l : Latencies) (target : Position) :
    preparation f l target = some (f.preparation l target) := by
  unfold preparation Finger.preparation
  split
  · have hrelease := releaseAhead_eq f l 0 (Nat.zero_le _)
    rw [Nat.zero_add] at hrelease
    rw [show (0 : Int) = -((0 : Nat) : Int) from rfl, hrelease]
    rfl
  · split
    · unfold pressAhead Finger.pressAhead
      rw [word_press]
      split
      · rfl
      · rfl
    · cases htravel : l.travel f.position target with
      | error e => rfl
      | ok travel =>
          have hpress := l.press.ms_le
          have hle := travel.ms_le
          have hmoved : word (-(l.press.ms : Int) - travel.ms) =
              some (-((l.press.ms + travel.ms : Nat) : Int)) := by
            rw [show -(l.press.ms : Int) - travel.ms = -((l.press.ms + travel.ms : Nat) : Int) by
              omega]
            exact word_of_representable (representable_neg (by omega))
          have hreleased := releaseAhead_eq f l (l.press.ms + travel.ms) (by omega)
          show (defined (word _) >>= fun pressed => _) = _
          rw [defined_bind (word_press l), defined_bind hmoved, defined_bind hreleased]
          rfl

theorem play_eq (f : Finger) (l : Latencies) (target : Position) :
    play f l target = some (f.play l target) := by
  unfold play Finger.play
  exact map_eq_some (preparation_eq f l target) _

/-!
# Schedules
-/

def plan (l : Latencies) (unit : Nat) (s : StringId) (f : Finger) (n : Note) :
    Run ScheduleError (Int × List Action × Finger) := do
  let attack <- certain (checked (.timeOverflow s n.start) (n.start * unit))
  let played <- ExceptT.adapt (.unknownTravel s n.start) (play f l n.position)
  certain (.ok (attack, played))

def playNote (l : Latencies) (unit : Nat) (s : StringId) (p : Performance) (n : Note) :
    Run Halt Performance := do
  let planned <- ExceptT.adapt (fun e => ⟨e, p.cues⟩) (plan l unit s p.finger n)
  let cues <- certain
    (planned.2.1.foldlM (Performance.cue l s n p.lastAttack planned.1) p.cues)
  certain (.ok { finger := planned.2.2, lastAttack := some planned.1, cues := cues })

def perform (l : Latencies) (unit : Nat) (s : StringId) (notes : List Note) :
    Run Halt (List Cue) := do
  let p <- notes.foldlM (playNote l unit s) {}
  certain (.ok p.cues.reverse)

def addString (score : Score) (l : Latencies) (unit : Nat) (agenda : Agenda) (s : StringId) :
    Run ScheduleError Agenda := do
  let cues <- ExceptT.adapt Halt.error (perform l unit s (score.timeline s).notes)
  certain (.ok (agenda.addCues s cues))

def schedule (score : Score) (l : Latencies) (tempo : Tempo) (policy : BrushPolicy) :
    Run ScheduleError (List Tick) := do
  let strings <- score.strings.foldlM (addString score l tempo.unit) {}
  let agenda <- certain (score.brushes.foldlM (fun agenda b =>
    (b.instant tempo.unit).map (fun time => agenda.addBrush policy time b.command)) strings)
  certain (Tick.shiftAll agenda.ticks)

theorem plan_eq (l : Latencies) (unit : Nat) (s : StringId) (f : Finger) (n : Note) :
    plan l unit s f n = some (Performance.plan l unit s f n) := by
  unfold plan Performance.plan
  rw [play_eq]
  exact bind_eq_some rfl fun attack _ => bind_eq_some rfl fun played _ => rfl

theorem playNote_eq (l : Latencies) (unit : Nat) (s : StringId) (p : Performance) (n : Note) :
    playNote l unit s p n = some (Performance.play l unit s p n) := by
  unfold playNote Performance.play
  rw [plan_eq]
  cases Performance.plan l unit s p.finger n with
  | error e => rfl
  | ok planned =>
      cases planned with
      | mk attack played =>
          exact map_eq_some (rfl : certain (played.1.foldlM _ p.cues) = some _) _

theorem perform_eq (l : Latencies) (unit : Nat) (s : StringId) (notes : List Note) :
    perform l unit s notes = some (Performance.perform l unit s notes) := by
  unfold perform Performance.perform Performance.playAll
  exact map_eq_some (foldlM_eq_some_of_forall (playNote_eq l unit s) {} notes) _

theorem addString_eq (score : Score) (l : Latencies) (unit : Nat) (agenda : Agenda)
    (s : StringId) :
    addString score l unit agenda s = some (score.addString l unit agenda s) := by
  unfold addString Score.addString Score.cues
  rw [perform_eq]
  exact map_eq_some rfl (agenda.addCues s)

theorem schedule_eq (score : Score) (l : Latencies) (tempo : Tempo) (policy : BrushPolicy) :
    schedule score l tempo policy = some (score.schedule l tempo policy) := by
  unfold schedule Score.schedule Score.agenda Score.stringAgenda
  rw [bind_assoc]
  have hstrings := foldlM_eq_some_of_forall (addString_eq score l tempo.unit) {} score.strings
  exact bind_eq_some hstrings fun strings _ => bind_eq_some rfl fun agenda _ => rfl

/-!
# Codes
-/

def index (s : StringId) : Option Nat :=
  sub s.number 1

def operationCode : Operation -> Option Char
  | .move target => do
      let code <- byte ('0'.toNat + target)
      return Char.ofNat code
  | .press => some '6'
  | .release => some '7'
  | .attack => some '8'

def letter (s : StringId) : Option Char := do
  let i <- index s
  let code <- byte ('A'.toNat + i)
  return Char.ofNat code

def code : Command -> Option (List Char)
  | .operate string operation => do
      let i <- index string
      let c <- operationCode operation
      return [Nat.digitChar i, c]
  | .brush first last => do
      let a <- letter first
      let b <- letter last
      return [a, b]

def line (t : Tick) : Option (List Char) := do
  let codes <- t.commands.mapM code
  return Text.Decimal.ofInt t.time ++ codes.flatMap (fun word => ' ' :: word)

def render (ticks : List Tick) : Option (List Char) := do
  let lines <- ticks.mapM line
  return lines.flatMap (fun line => line ++ ['\n'])

theorem index_eq (s : StringId) : index s = some s.index.val :=
  sub_of_le s.number_pos

theorem operationCode_eq {o : Operation} (h : o.Codable) : operationCode o = some o.code := by
  cases o with
  | move target =>
      have hbyte : '0'.toNat + target < 256 := Nat.add_lt_add_left (Nat.lt_succ_of_le h.left) 48
      rw [operationCode, byte_of_lt hbyte]
      rfl
  | press => rfl
  | release => rfl
  | attack => rfl

theorem letter_eq (s : StringId) : letter s = some s.letter := by
  have hbyte : 'A'.toNat + s.index.val < 256 :=
    Nat.lt_trans (Nat.add_lt_add_left s.index.isLt 65) (by decide)
  unfold letter
  rw [index_eq, Option.bind_eq_bind, Option.bind_some, byte_of_lt hbyte]
  rfl

theorem code_eq {c : Command} (h : c.Codable) : code c = some c.code := by
  cases c with
  | operate s o =>
      rw [code, index_eq, operationCode_eq h]
      rfl
  | brush first last =>
      rw [code, letter_eq, letter_eq]
      rfl

theorem line_eq {t : Tick} (h : t.Codable) : line t = some t.line := by
  unfold line Tick.line
  rw [mapM_eq_some (fun c hc => code_eq (h c hc)), Option.bind_eq_bind, Option.bind_some,
    List.flatMap_map]
  rfl

theorem render_eq {ticks : List Tick} (h : forall t, t ∈ ticks -> t.Codable) :
    render ticks = some (Tick.render ticks) := by
  unfold render Tick.render
  rw [mapM_eq_some (fun t ht => line_eq (h t ht)), Option.bind_eq_bind, Option.bind_some,
    List.flatMap_map]
  rfl

end Machine
end Plectrum

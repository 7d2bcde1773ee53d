import Plectrum.Proofs.Schedule.Agenda
import Plectrum.Proofs.Schedule.Performance
import Plectrum.Schedule.Scheduling

/-!
# The calls of a score

The calls of a score are generated string by string in ascending order, note by note,
and for each note in the order in which its actions are given.  If all notes can be
played, the agenda of a score is filled with these calls and then with its brushes.
-/

namespace Plectrum

namespace Cue

def call (s : StringId) (cue : Cue) : Call :=
  ⟨cue.time, .operate s cue.operation⟩

end Cue

namespace Brush

def call (unit : Nat) (b : Brush) : Call :=
  ⟨b.start * unit, b.command⟩

end Brush

theorem Agenda.addCues_eq_addCalls (agenda : Agenda) (s : StringId) (cues : List Cue) :
    agenda.addCues s cues = agenda.addCalls (cues.map (Cue.call s)) := by
  unfold addCues addCalls
  rw [List.foldl_map]
  rfl

namespace Score

def callsTo (score : Score) (l : Latencies) (unit : Nat) (s : StringId) : List Call :=
  (({} : Finger).cuesFor l unit (score.timeline s).notes).map (Cue.call s)

/-- The calls to all strings, in the order in which they are generated. -/
def calls (score : Score) (l : Latencies) (unit : Nat) : List Call :=
  score.strings.flatMap (score.callsTo l unit)

def Playable (score : Score) (l : Latencies) (unit : Nat) : Prop :=
  forall s, Performance.AllPlayable l unit {} none (score.timeline s).notes

theorem mem_calls {score : Score} {l : Latencies} {unit : Nat} {c : Call} :
    c ∈ score.calls l unit <-> exists s, c ∈ score.callsTo l unit s := by
  unfold calls
  rw [List.mem_flatMap]
  constructor
  · intro ⟨s, _, hc⟩
    exact ⟨s, hc⟩
  · intro ⟨s, hc⟩
    refine ⟨s, Decidable.not_not.mp (fun hs => ?_), hc⟩
    rw [callsTo, notes_of_not_mem_strings hs] at hc
    cases hc

/-!
# Filling the agenda
-/

theorem addString_eq_ok_iff {score : Score} {l : Latencies} {unit : Nat} {s : StringId}
    {agenda result : Agenda} :
    score.addString l unit agenda s = .ok result <->
      Performance.AllPlayable l unit {} none (score.timeline s).notes ∧
        result = agenda.addCalls (score.callsTo l unit s) := by
  unfold addString cues
  rw [Outcome.map_eq_ok_iff]
  constructor
  · intro ⟨told, htold, hresult⟩
    rcases Performance.perform_eq_ok_iff.mp (Outcome.mapError_eq_ok_iff.mp htold) with
      ⟨hall, rfl⟩
    refine ⟨hall, ?_⟩
    rw [<- hresult, Agenda.addCues_eq_addCalls]
    rfl
  · intro ⟨hall, hresult⟩
    refine ⟨_, Outcome.mapError_eq_ok_iff.mpr
      (Performance.perform_eq_ok_iff.mpr ⟨hall, rfl⟩), ?_⟩
    rw [hresult, Agenda.addCues_eq_addCalls]
    rfl

theorem foldlM_addString_eq_ok_iff {score : Score} {l : Latencies} {unit : Nat}
    (strings : List StringId) {agenda result : Agenda} :
    strings.foldlM (score.addString l unit) agenda = .ok result <->
      (forall s, s ∈ strings ->
        Performance.AllPlayable l unit {} none (score.timeline s).notes) ∧
        result = agenda.addCalls (strings.flatMap (score.callsTo l unit)) := by
  rw [Agenda.addCalls_flatMap]
  apply Outcome.foldlM_eq_ok_iff
  intro agenda s next
  exact addString_eq_ok_iff

theorem stringAgenda_eq_ok_iff {score : Score} {l : Latencies} {unit : Nat}
    {agenda : Agenda} :
    score.stringAgenda l unit = .ok agenda <->
      score.Playable l unit ∧ agenda = Agenda.addCalls {} (score.calls l unit) := by
  unfold stringAgenda calls
  rw [foldlM_addString_eq_ok_iff]
  constructor
  · intro ⟨hall, hagenda⟩
    refine ⟨?_, hagenda⟩
    intro s
    by_cases hs : s ∈ score.strings
    · exact hall s hs
    · rw [notes_of_not_mem_strings hs]
      trivial
  · intro ⟨hall, hagenda⟩
    exact ⟨fun s _ => hall s, hagenda⟩

end Score

/-!
# Adding the brushes
-/

theorem Brush.instant_eq_ok_iff {unit : Nat} {b : Brush} {time : Int} :
    b.instant unit = .ok time <->
      Representable (b.start * unit) ∧ time = b.start * unit :=
  checked_eq_ok_iff

namespace Agenda

def addBrushes (agenda : Agenda) (policy : BrushPolicy) (unit : Nat)
    (brushes : List Brush) : Agenda :=
  brushes.foldl (fun agenda b => agenda.addBrush policy (b.start * unit) b.command) agenda

theorem foldlM_addBrush_eq_ok_iff {policy : BrushPolicy} {unit : Nat}
    (brushes : List Brush) {agenda result : Agenda} :
    brushes.foldlM (fun agenda b =>
        (b.instant unit).map (fun time => agenda.addBrush policy time b.command))
        agenda = .ok result <->
      (forall b, b ∈ brushes -> Representable (b.start * unit)) ∧
        result = agenda.addBrushes policy unit brushes := by
  apply Outcome.foldlM_eq_ok_iff
  intro agenda b next
  rw [Outcome.map_eq_ok_iff]
  constructor
  · intro ⟨time, htime, hnext⟩
    rcases Brush.instant_eq_ok_iff.mp htime with ⟨hrep, rfl⟩
    exact ⟨hrep, hnext.symm⟩
  · intro ⟨hrep, hnext⟩
    exact ⟨_, Brush.instant_eq_ok_iff.mpr ⟨hrep, rfl⟩, hnext.symm⟩

theorem addBrushes_append (agenda : Agenda) (unit : Nat) (brushes : List Brush) :
    agenda.addBrushes .append unit brushes =
      agenda.addCalls (brushes.map (Brush.call unit)) := by
  unfold addBrushes addCalls
  rw [List.foldl_map]
  rfl

end Agenda

namespace Score

theorem agenda_eq_ok_iff {score : Score} {l : Latencies} {unit : Nat}
    {policy : BrushPolicy} {agenda : Agenda} :
    score.agenda l unit policy = .ok agenda <->
      score.Playable l unit ∧
        (forall b, b ∈ score.brushes -> Representable (b.start * unit)) ∧
        agenda =
          (Agenda.addCalls {} (score.calls l unit)).addBrushes policy unit
            score.brushes := by
  unfold Score.agenda
  rw [Outcome.bind_eq_ok_iff]
  constructor
  · intro ⟨strings, hstrings, hagenda⟩
    rcases stringAgenda_eq_ok_iff.mp hstrings with ⟨hplayable, rfl⟩
    exact ⟨hplayable, (Agenda.foldlM_addBrush_eq_ok_iff _).mp hagenda⟩
  · intro ⟨hplayable, hbrushes⟩
    exact ⟨_, stringAgenda_eq_ok_iff.mpr ⟨hplayable, rfl⟩,
      (Agenda.foldlM_addBrush_eq_ok_iff _).mpr hbrushes⟩

theorem schedule_eq_ok_iff {score : Score} {l : Latencies} {tempo : Tempo}
    {policy : BrushPolicy} {ticks : List Tick} :
    score.schedule l tempo policy = .ok ticks <->
      exists agenda, score.agenda l tempo.unit policy = .ok agenda ∧
        Tick.shiftAll agenda.ticks = .ok ticks :=
  Outcome.bind_eq_ok_iff

theorem playable_of_schedule {score : Score} {l : Latencies} {tempo : Tempo}
    {policy : BrushPolicy} {ticks : List Tick}
    (h : score.schedule l tempo policy = .ok ticks) : score.Playable l tempo.unit := by
  rcases schedule_eq_ok_iff.mp h with ⟨agenda, hagenda, _⟩
  exact (agenda_eq_ok_iff.mp hagenda).left

def allCalls (score : Score) (l : Latencies) (unit : Nat) : List Call :=
  score.calls l unit ++ score.brushes.map (Brush.call unit)

theorem allCalls_of_brushes_nil {score : Score} (h : score.brushes = [])
    (l : Latencies) (unit : Nat) : score.allCalls l unit = score.calls l unit := by
  rw [allCalls, h]
  exact List.append_nil _

theorem agenda_eq_addCalls {score : Score} {l : Latencies} {unit : Nat}
    {policy : BrushPolicy} {agenda : Agenda}
    (hpolicy : score.brushes = [] ∨ policy = .append)
    (h : score.agenda l unit policy = .ok agenda) :
    agenda = Agenda.addCalls {} (score.allCalls l unit) := by
  rcases agenda_eq_ok_iff.mp h with ⟨_, _, rfl⟩
  unfold allCalls
  rw [Agenda.addCalls_append, <- Agenda.addBrushes_append]
  cases hpolicy with
  | inl hnil =>
      rw [hnil]
      rfl
  | inr happend => rw [happend]

end Score
end Plectrum

import Plectrum.Proofs.Schedule.Chronicle
import Plectrum.Proofs.Schedule.Merge

/-!
# Playing back a schedule

The commands for one string, read off the ticks of a schedule, are the chronicle of
that string.  So its finger can obey them one after the other, and it stands at each
attack where the note has it.
-/

namespace Plectrum

namespace Command

def on? (s : StringId) : Command -> Option Operation
  | operate r o => if r = s then some o else none
  | brush _ _ => none

end Command

namespace Cue

def countedFrom (origin : Int) (cue : Cue) : Cue :=
  { cue with time := cue.time - origin }

end Cue

namespace Tick

def operationsOn (s : StringId) (t : Tick) : List Operation :=
  t.commands.filterMap (Command.on? s)

def allOperationsOn (s : StringId) (ticks : List Tick) : List Operation :=
  ticks.flatMap (operationsOn s)

def cuesOn (s : StringId) (ticks : List Tick) : List Cue :=
  ticks.flatMap (fun t => (t.operationsOn s).map (Cue.mk t.time))

theorem map_operation_cuesOn (s : StringId) (ticks : List Tick) :
    (cuesOn s ticks).map Cue.operation = allOperationsOn s ticks := by
  unfold cuesOn allOperationsOn
  rw [List.map_flatMap]
  apply List.flatMap_congr
  intro t _
  rw [List.map_map]
  exact List.map_id (t.operationsOn s)

end Tick

/-!
# The calls to one string
-/

namespace Call

def cuesOn (s : StringId) (calls : List Call) : List Cue :=
  calls.filterMap (fun c => (c.command.on? s).map (Cue.mk c.time))

theorem cuesOn_append (s : StringId) (front back : List Call) :
    cuesOn s (front ++ back) = cuesOn s front ++ cuesOn s back :=
  List.filterMap_append

theorem cuesOn_brushes (s : StringId) (unit : Nat) (brushes : List Brush) :
    cuesOn s (brushes.map (Brush.call unit)) = [] := by
  apply List.filterMap_eq_nil_iff.mpr
  intro c hc
  rcases List.mem_map.mp hc with ⟨b, _, rfl⟩
  rfl

theorem cuesOn_cues (s r : StringId) (cues : List Cue) :
    cuesOn s (cues.map (Cue.call r)) = if r = s then cues else [] := by
  unfold cuesOn
  rw [List.filterMap_map]
  by_cases hrs : r = s
  · simp [Cue.call, Command.on?, hrs]
  · simp [Cue.call, Command.on?, hrs]

theorem filterMap_commandsAt (s : StringId) (calls : List Call) (time : Int) :
    (commandsAt calls time).filterMap (Command.on? s) =
      ((cuesOn s calls).filter (fun cue => cue.time == time)).map Cue.operation := by
  induction calls with
  | nil => rfl
  | cons c rest ih =>
      have hsplit := cuesOn_append s [c] rest
      rw [List.singleton_append] at hsplit
      rw [hsplit, commandsAt_cons, List.filter_append, List.map_append, <- ih]
      cases hon : c.command.on? s with
      | none => by_cases htime : c.time = time <;> simp [cuesOn, hon, htime]
      | some o => by_cases htime : c.time = time <;> simp [cuesOn, hon, htime]

end Call

namespace Score

theorem nodup_strings (score : Score) : score.strings.Nodup := by
  apply List.Pairwise.filter
  apply List.pairwise_map.mpr
  apply List.Pairwise.imp _ (List.nodup_finRange stringCount)
  intro i j hne heq
  injection heq with heq
  exact hne heq

theorem cuesOn_flatMap_callsTo {score : Score} {l : Latencies} {unit : Nat}
    (s : StringId) (strings : List StringId) (hnodup : strings.Nodup) :
    Call.cuesOn s (strings.flatMap (score.callsTo l unit)) =
      if s ∈ strings then ({} : Finger).cuesFor l unit (score.timeline s).notes
      else [] := by
  induction strings with
  | nil => rfl
  | cons r rest ih =>
      rcases List.nodup_cons.mp hnodup with ⟨hr, hrest⟩
      rw [List.flatMap_cons, Call.cuesOn_append, ih hrest, callsTo, Call.cuesOn_cues]
      by_cases hrs : r = s
      · subst hrs
        simp [hr]
      · simp [hrs, Ne.symm hrs]

theorem cuesOn_allCalls (score : Score) (l : Latencies) (unit : Nat) (s : StringId) :
    Call.cuesOn s (score.allCalls l unit) =
      ({} : Finger).cuesFor l unit (score.timeline s).notes := by
  rw [allCalls, Call.cuesOn_append, Call.cuesOn_brushes, List.append_nil, calls,
    cuesOn_flatMap_callsTo s _ score.nodup_strings]
  by_cases hs : s ∈ score.strings
  · rw [if_pos hs]
  · rw [if_neg hs, notes_of_not_mem_strings hs]
    rfl

end Score

/-!
# The ticks for one string
-/

namespace Tick

theorem Merges.operationsOn {calls : List Call} {ticks : List Tick}
    (h : Merges calls ticks) {cues : List Cue} (hcues : Ascending Cue.time cues)
    {s : StringId} (hperm : cues.Perm (Call.cuesOn s calls)) {t : Tick} (ht : t ∈ ticks) :
    t.operationsOn s =
      (cues.filter (fun cue => cue.time == t.time + Call.origin calls)).map
        Cue.operation := by
  unfold Tick.operationsOn
  rw [<- commandsAt_of_mem h.ascending ht, h.commands, Call.filterMap_commandsAt,
    hcues.filter_eq_of_perm hperm.symm]

theorem Merges.cuesOn {calls : List Call} {ticks : List Tick}
    (h : Merges calls ticks) {cues : List Cue} (hcues : Ascending Cue.time cues)
    {s : StringId} (hperm : cues.Perm (Call.cuesOn s calls)) :
    Tick.cuesOn s ticks = cues.map (Cue.countedFrom (Call.origin calls)) := by
  have hascending : Ascending (fun t => t.time + Call.origin calls) ticks := by
    apply List.Pairwise.imp _ h.ascending
    intro t u hlt
    exact Int.add_lt_add_right hlt _
  have hcover : forall cue, cue ∈ cues ->
      exists t, t ∈ ticks ∧ t.time + Call.origin calls = cue.time := by
    intro cue hcue
    rcases List.mem_filterMap.mp (hperm.mem_iff.mp hcue) with ⟨c, hc, hon⟩
    rcases Option.map_eq_some_iff.mp hon with ⟨o, _, rfl⟩
    exact h.exists_tick hc
  -- The cues are cut at the times of the ticks, one cue to a tick at most.
  rw [<- hcues.flatMap_filter hascending hcover, List.map_flatMap]
  apply List.flatMap_congr
  intro t ht
  rw [h.operationsOn hcues hperm ht, List.map_map]
  apply List.map_congr_left
  intro cue hcue
  have htime := eq_of_beq (List.mem_filter.mp hcue).right
  show Cue.mk t.time cue.operation = cue.countedFrom (Call.origin calls)
  rw [Cue.countedFrom, htime, Int.add_sub_cancel]

end Tick

namespace Score

theorem perm_chronicle_cuesOn (score : Score) (l : Latencies) (unit : Nat) (s : StringId) :
    (({} : Finger).chronicle l unit (score.timeline s).notes).Perm
      (Call.cuesOn s (score.allCalls l unit)) := by
  rw [cuesOn_allCalls]
  exact Finger.perm_chronicle l unit _ {}

theorem no_replacing_brush {detect : Bool} {text : List Char} {score : Score}
    (hread : Score.read detect text = .ok score) {policy : BrushPolicy}
    (hpolicy : detect = false ∨ policy = .append) :
    score.brushes = [] ∨ policy = .append := by
  cases hpolicy with
  | inl hdetect =>
      subst hdetect
      exact Or.inl (brushes_of_read_false hread)
  | inr happend => exact Or.inr happend

section Chronicles

variable {score : Score} {l : Latencies} {tempo : Tempo} {policy : BrushPolicy}
  {ticks : List Tick} (hbrushes : score.brushes = [] ∨ policy = .append)
  (h : score.schedule l tempo policy = .ok ticks) (s : StringId)
include hbrushes h

theorem operationsOn_schedule {t : Tick} (ht : t ∈ ticks) :
    t.operationsOn s =
      ((({} : Finger).chronicle l tempo.unit (score.timeline s).notes).filter
        (fun cue => cue.time == t.time + Call.origin (score.allCalls l tempo.unit))).map
          Cue.operation :=
  (merges_schedule hbrushes h).operationsOn (playable_of_schedule h s).ascending
    (score.perm_chronicle_cuesOn l tempo.unit s) ht

theorem cuesOn_schedule :
    Tick.cuesOn s ticks =
      (({} : Finger).chronicle l tempo.unit (score.timeline s).notes).map
        (Cue.countedFrom (Call.origin (score.allCalls l tempo.unit))) :=
  (merges_schedule hbrushes h).cuesOn (playable_of_schedule h s).ascending
    (score.perm_chronicle_cuesOn l tempo.unit s)

end Chronicles

/--
Every string can obey a schedule: its finger starts at rest and is never asked for
anything it cannot do, it is asked for one thing at a time, and there is one attack
for each note, at which the finger holds the position of the note.
-/
theorem schedule_plays_back {detect : Bool} {text : List Char} {score : Score}
    (hread : Score.read detect text = .ok score) {policy : BrushPolicy}
    (hpolicy : detect = false ∨ policy = .append) {l : Latencies} {tempo : Tempo}
    {ticks : List Tick} (h : score.schedule l tempo policy = .ok ticks) (s : StringId) :
    (exists fingers,
        ({} : Finger).playback? (Tick.allOperationsOn s ticks) = some fingers ∧
          List.Forall₂ (fun f n => f.Holds n.position) fingers (score.timeline s).notes) ∧
      (forall t, t ∈ ticks -> (t.operationsOn s).length <= 1) ∧
      (Tick.allOperationsOn s ticks).count .attack = (score.timeline s).notes.length := by
  have hbrushes := no_replacing_brush hread hpolicy
  have hplayable := playable_of_schedule h s
  have hoperations : Tick.allOperationsOn s ticks =
      (({} : Finger).chronicle l tempo.unit (score.timeline s).notes).map Cue.operation := by
    rw [<- Tick.map_operation_cuesOn, cuesOn_schedule hbrushes h s, List.map_map]
    rfl
  rcases hplayable.playback with ⟨fingers, hplayback, hholds⟩
  rw [<- hoperations] at hplayback
  refine ⟨⟨fingers, hplayback, hholds⟩, ?_, ?_⟩
  · intro t ht
    rw [operationsOn_schedule hbrushes h s ht, List.length_map]
    exact hplayable.ascending.length_filter_le_one _
  · rw [Finger.count_attack_of_playback? _ hplayback]
    exact hholds.length_eq

theorem sample_plays_back :
    exists ticks,
      sample.schedule Latencies.sample Tempo.standard .append = .ok ticks ∧
        Tick.allOperationsOn ⟨0⟩ ticks =
          [.move 2, .press, .attack, .release, .move 3, .press, .attack] ∧
        exists fingers,
          ({} : Finger).playback? (Tick.allOperationsOn ⟨0⟩ ticks) = some fingers ∧
            List.Forall₂ (fun f n => f.Holds n.position) fingers
              (sample.timeline ⟨0⟩).notes := by
  have hoperations :
      (sample.schedule Latencies.sample Tempo.standard .append).toOption.map
        (Tick.allOperationsOn ⟨0⟩) =
          some [.move 2, .press, .attack, .release, .move 3, .press, .attack] := by
    decide +kernel
  rcases Option.map_eq_some_iff.mp hoperations with ⟨ticks, hsome, hoperations⟩
  have h := Outcome.toOption_eq_some_iff.mp hsome
  exact ⟨ticks, h, hoperations,
    (schedule_plays_back read_sampleText (Or.inr rfl) h ⟨0⟩).left⟩

end Score
end Plectrum

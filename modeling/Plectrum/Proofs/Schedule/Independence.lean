import Plectrum.Proofs.Schedule.Continuation
import Plectrum.Proofs.Schedule.Failure

/-!
# Strings on their own

Strings share the agenda and the origin of a schedule, and nothing else.  What a string
is told depends on its own notes, but for the instant from which all times are counted.
A score without brushes can be scheduled as far as each of its strings can be on its own,
and otherwise the first string that cannot gives the error.
-/

namespace Plectrum

def Timeline.filter (keep : Note -> Bool) (t : Timeline) : Timeline where
  latestFirst := t.latestFirst.filter keep
  descending := t.descending.filter keep

theorem Timeline.notes_filter (keep : Note -> Bool) (t : Timeline) :
    (t.filter keep).notes = t.notes.filter keep :=
  List.filter_reverse.symm

namespace Score

/-!
# One string of a score
-/

/--
The score with the notes of one string, and without brushes.  It is known by
`notes_only`; the vector itself is not to be unfolded.
-/
@[irreducible] def only (score : Score) (s : StringId) : Score where
  timelines := Vector.ofFn (fun i => score.timelines[i].filter (fun _ => s.index = i))
  length := score.length

theorem notes_only (score : Score) (s r : StringId) :
    ((score.only s).timeline r).notes = if s = r then (score.timeline s).notes else [] := by
  have hfilter : (score.only s).timeline r =
      (score.timeline r).filter (fun _ => s.index = r.index) := by
    simp [only, timeline]
  rw [hfilter, Timeline.notes_filter]
  by_cases h : s = r
  · subst h
    simp
  · have hindex : s.index ≠ r.index := fun heq => h (congrArg StringId.mk heq)
    simp [h, hindex]

theorem brushes_only (score : Score) (s : StringId) : (score.only s).brushes = [] := by
  unfold only
  rfl

theorem playable_only_iff {score : Score} {s : StringId} {l : Latencies} {unit : Nat} :
    (score.only s).Playable l unit <->
      Performance.AllPlayable l unit {} none (score.timeline s).notes := by
  constructor
  · intro h
    have hs := h s
    rw [notes_only, if_pos rfl] at hs
    exact hs
  · intro h r
    rw [notes_only]
    split
    · exact h
    · trivial

theorem playable_iff_only {score : Score} {l : Latencies} {unit : Nat} :
    score.Playable l unit <->
      forall s, s ∈ score.strings -> (score.only s).Playable l unit := by
  simp only [playable_only_iff]
  constructor
  · intro h s _
    exact h s
  · intro h s
    by_cases hs : s ∈ score.strings
    · exact h s hs
    · rw [notes_of_not_mem_strings hs]
      trivial

theorem stringAgenda_only_eq_error {score : Score} {s : StringId} {l : Latencies}
    {unit : Nat} {e : ScheduleError} (hs : s ∈ score.strings)
    (h : Performance.FirstFault l unit s (score.timeline s).notes e) :
    (score.only s).stringAgenda l unit = .error e := by
  have hmem : s ∈ (score.only s).strings := by
    rw [mem_strings, notes_only, if_pos rfl]
    exact mem_strings.mp hs
  rcases List.eq_append_cons_of_mem hmem with ⟨front, back, hstrings, hfront⟩
  refine stringAgenda_eq_error_iff.mpr ⟨front, s, back, hstrings, ?_, ?_⟩
  · intro r hr
    have hne : s ≠ r := fun heq => hfront (heq ▸ hr)
    rw [notes_only, if_neg hne]
    trivial
  · rw [notes_only, if_pos rfl]
    exact h

/-!
# Success of all strings
-/

/-- Whether scheduling succeeds, or fails only when times are counted from the first. -/
def Passes (score : Score) (l : Latencies) (tempo : Tempo) (policy : BrushPolicy) : Prop :=
  (exists ticks, score.schedule l tempo policy = .ok ticks) ∨
    exists instant origin,
      score.schedule l tempo policy = .error (.shiftOverflow instant origin)

section Plain

variable {score : Score} (hplain : score.brushes = []) {l : Latencies} {tempo : Tempo}
  {policy : BrushPolicy}
include hplain

theorem passes_iff_playable :
    score.Passes l tempo policy <-> score.Playable l tempo.unit := by
  constructor
  · intro h
    rcases h with ⟨ticks, hticks⟩ | ⟨instant, origin, hshift⟩
    · exact playable_of_schedule hticks
    · rcases schedule_error_cases hshift with hstrings | ⟨hplayable, _⟩
      · rcases stringAgenda_eq_error_iff.mp hstrings with
          ⟨_, s, _, _, _, earlier, n, _, _, _, hfault⟩
        exact absurd rfl (hfault.ne_shiftOverflow instant origin)
      · exact hplayable
  · intro hplayable
    cases hschedule : score.schedule l tempo policy with
    | ok ticks => exact Or.inl ⟨ticks, hschedule⟩
    | error e =>
        rcases schedule_error_cases hschedule with hstrings | ⟨_, hbrush | hshift⟩
        · rw [stringAgenda_eq_ok_iff.mpr ⟨hplayable, rfl⟩] at hstrings
          cases hstrings
        · rcases hbrush with ⟨b, hb, _⟩
          rw [hplain] at hb
          cases hb
        · rcases hshift with ⟨instant, origin, rfl⟩
          exact Or.inr ⟨instant, origin, hschedule⟩

theorem passes_iff_only :
    score.Passes l tempo policy <->
      forall s, s ∈ score.strings -> (score.only s).Passes l tempo policy := by
  simp only [passes_iff_playable hplain, passes_iff_playable (score.brushes_only _)]
  exact playable_iff_only

theorem exists_only_of_not_passes (h : ¬ score.Passes l tempo policy) :
    exists s, s ∈ score.strings ∧ ¬ (score.only s).Passes l tempo policy ∧
      (forall r, r ∈ score.strings -> r.number < s.number ->
        (score.only r).Passes l tempo policy) ∧
      score.schedule l tempo policy = (score.only s).schedule l tempo policy := by
  have herror : exists e, score.stringAgenda l tempo.unit = .error e := by
    cases hagenda : score.stringAgenda l tempo.unit with
    | ok agenda =>
        have hplayable := (stringAgenda_eq_ok_iff.mp hagenda).left
        exact absurd ((passes_iff_playable hplain).mpr hplayable) h
    | error e => exact ⟨e, rfl⟩
  rcases herror with ⟨e, hagenda⟩
  rcases stringAgenda_eq_error_iff.mp hagenda with
    ⟨front, s, back, hstrings, hfront, hfault⟩
  have hs : s ∈ score.strings := by
    rw [hstrings]
    exact List.mem_append_right front List.mem_cons_self
  have honly := stringAgenda_only_eq_error hs hfault
  refine ⟨s, hs, ?_, ?_, ?_⟩
  · intro hpasses
    rw [passes_iff_playable (score.brushes_only s)] at hpasses
    rw [stringAgenda_eq_ok_iff.mpr ⟨hpasses, rfl⟩] at honly
    cases honly
  · intro r hr hlt
    rw [passes_iff_playable (score.brushes_only r), playable_only_iff]
    exact hfront r (mem_front_of_number_lt hstrings hr hlt)
  · unfold schedule agenda
    rw [hagenda, honly]
    rfl

/--
Strings do not interfere.  Two schedules tell a string with the same notes the same
things, all of them later or earlier by the same time.  Scheduling passes if it passes for
every string on its own; otherwise its error is that of the first string that does not.
-/
theorem strings_are_independent (l : Latencies) (tempo : Tempo) (policy : BrushPolicy) :
    (forall (other : Score) (way : BrushPolicy) (ticks others : List Tick),
        other.brushes = [] -> score.schedule l tempo policy = .ok ticks ->
        other.schedule l tempo way = .ok others ->
        exists c : Int, forall s, score.timeline s = other.timeline s ->
          Tick.cuesOn s others = (Tick.cuesOn s ticks).map (Cue.later c)) ∧
      (score.Passes l tempo policy <->
        forall s, s ∈ score.strings -> (score.only s).Passes l tempo policy) ∧
      (¬ score.Passes l tempo policy ->
        exists s, s ∈ score.strings ∧ ¬ (score.only s).Passes l tempo policy ∧
          (forall r, r ∈ score.strings -> r.number < s.number ->
            (score.only r).Passes l tempo policy) ∧
          score.schedule l tempo policy = (score.only s).schedule l tempo policy) := by
  refine ⟨?_, passes_iff_only hplain, exists_only_of_not_passes hplain⟩
  intro other way ticks others hother h hothers
  refine ⟨Call.origin (score.allCalls l tempo.unit) -
    Call.origin (other.allCalls l tempo.unit), ?_⟩
  intro s hsame
  rw [cuesOn_schedule (Or.inl hplain) h s, cuesOn_schedule (Or.inl hother) hothers s,
    List.map_map, Cue.later_comp_countedFrom, hsame]

end Plain

/-!
# A sample

A further string is prepared before the first attack of the other one, which therefore
comes later.
-/

def solo : Score :=
  (Score.read false "(10)1".toList).toOption.get (by decide +kernel)

def duet : Score :=
  (Score.read false "(1022)1".toList).toOption.get (by decide +kernel)

theorem duet_strings_are_independent :
    solo.timeline ⟨0⟩ = duet.timeline ⟨0⟩ ∧
      (exists ticks others,
        solo.schedule Latencies.sample Tempo.standard .append = .ok ticks ∧
          duet.schedule Latencies.sample Tempo.standard .append = .ok others ∧
          Tick.cuesOn ⟨0⟩ ticks = [⟨0, .attack⟩] ∧
          exists c : Int,
            Tick.cuesOn ⟨0⟩ others = (Tick.cuesOn ⟨0⟩ ticks).map (Cue.later c)) ∧
      exists s, s ∈ duet.strings ∧
        duet.schedule { Latencies.sample with edges := [] } Tempo.standard .append =
          (duet.only s).schedule { Latencies.sample with edges := [] } Tempo.standard
            .append := by
  have hsolo : solo.brushes = [] := by decide +kernel
  have hduet : duet.brushes = [] := by decide +kernel
  have hsame : solo.timeline ⟨0⟩ = duet.timeline ⟨0⟩ := by decide +kernel
  refine ⟨hsame, ?_, ?_⟩
  · have hcues : (solo.schedule Latencies.sample Tempo.standard .append).toOption.map
        (Tick.cuesOn ⟨0⟩) = some [⟨0, .attack⟩] := by
      decide +kernel
    have hsome :
        (duet.schedule Latencies.sample Tempo.standard .append).toOption.isSome = true := by
      decide +kernel
    rcases Option.map_eq_some_iff.mp hcues with ⟨ticks, hticks, hcues⟩
    rcases Outcome.isSome_toOption_iff.mp hsome with ⟨others, hother⟩
    have h := Outcome.toOption_eq_some_iff.mp hticks
    rcases (strings_are_independent hsolo Latencies.sample Tempo.standard .append).left
      duet .append ticks others hduet h hother with ⟨c, hc⟩
    exact ⟨ticks, others, h, hother, hcues, c, hc ⟨0⟩ hsame⟩
  · have hunknown :
        (match duet.schedule { Latencies.sample with edges := [] } Tempo.standard
            .append with
          | .error (.unknownTravel _ _ _) => true
          | _ => false) = true := by
      decide +kernel
    have hfails :
        ¬ duet.Passes { Latencies.sample with edges := [] } Tempo.standard .append := by
      intro h
      rcases h with ⟨ticks, hticks⟩ | ⟨instant, origin, hshift⟩
      · rw [hticks] at hunknown
        cases hunknown
      · rw [hshift] at hunknown
        cases hunknown
    rcases (strings_are_independent hduet _ _ _).right.right hfails with
      ⟨s, hs, _, _, hschedule⟩
    exact ⟨s, hs, hschedule⟩

end Score
end Plectrum

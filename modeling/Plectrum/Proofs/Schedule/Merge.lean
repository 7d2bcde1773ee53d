import Plectrum.Proofs.Schedule.Calls
import Plectrum.Proofs.Schedule.Shift
import Plectrum.Proofs.Score.Reading

/-!
# Merged calls

Ticks merge some calls if they have one tick for each instant of a call, in ascending
order, with the calls of that instant in their order, and if times are counted from
the first call.  There is only one such list of ticks, and it is the schedule.
-/

namespace Plectrum

namespace Call

def origin (calls : List Call) : Int :=
  ((calls.map Call.time).min?).getD 0

theorem origin_le {calls : List Call} {c : Call} (hc : c ∈ calls) :
    origin calls <= c.time := by
  unfold origin
  have htime : c.time ∈ calls.map Call.time := List.mem_map_of_mem hc
  cases hmin : (calls.map Call.time).min? with
  | none =>
      rw [List.min?_eq_none_iff.mp hmin] at htime
      cases htime
  | some first => exact (List.min?_eq_some_iff.mp hmin).right c.time htime

theorem exists_first {calls : List Call} (hne : calls ≠ []) :
    exists c, c ∈ calls ∧ c.time = origin calls := by
  unfold origin
  cases hmin : (calls.map Call.time).min? with
  | none => exact absurd (List.map_eq_nil_iff.mp (List.min?_eq_none_iff.mp hmin)) hne
  | some first => exact List.mem_map.mp (List.min?_eq_some_iff.mp hmin).left

end Call

namespace Tick

def commandsAt (ticks : List Tick) (time : Int) : List Command :=
  ((ticks.find? (fun t => t.time == time)).map Tick.commands).getD []

/-- Whether ticks are the calls in order of time, those of one instant together. -/
structure Merges (calls : List Call) (ticks : List Tick) : Prop where
  ascending : Ascending Tick.time ticks
  nonempty : forall t, t ∈ ticks -> t.commands ≠ []
  origin : calls ≠ [] -> ticks.head?.map Tick.time = some 0
  commands : forall time,
    commandsAt ticks time = Call.commandsAt calls (time + Call.origin calls)

/-!
# One list of ticks
-/

theorem commandsAt_of_mem {ticks : List Tick} (h : Ascending Tick.time ticks) {t : Tick}
    (ht : t ∈ ticks) : commandsAt ticks t.time = t.commands := by
  unfold commandsAt
  cases hfound : ticks.find? (fun u => u.time == t.time) with
  | none =>
      have hnone := List.find?_eq_none.mp hfound t ht
      exact absurd (beq_self_eq_true t.time) hnone
  | some u =>
      have hu := List.mem_of_find?_eq_some hfound
      have hfind := List.find?_some hfound
      have htime : u.time = t.time := eq_of_beq hfind
      rw [h.eq_of_key_eq hu ht htime]
      rfl

theorem exists_mem_of_commandsAt {ticks : List Tick} {time : Int}
    (h : commandsAt ticks time ≠ []) :
    exists t, t ∈ ticks ∧ t.time = time ∧ t.commands = commandsAt ticks time := by
  unfold commandsAt at h ⊢
  cases hfound : ticks.find? (fun u => u.time == time) with
  | none =>
      rw [hfound] at h
      exact absurd rfl h
  | some t =>
      have hfind := List.find?_some hfound
      have htime : t.time = time := eq_of_beq hfind
      exact ⟨t, List.mem_of_find?_eq_some hfound, htime, rfl⟩

theorem mem_of_commandsAt {ticks : List Tick} {t : Tick}
    (h : commandsAt ticks t.time = t.commands) (hne : t.commands ≠ []) : t ∈ ticks := by
  rcases exists_mem_of_commandsAt (h ▸ hne) with ⟨u, hu, htime, hcommands⟩
  have heq : u = t := by
    cases u
    cases t
    rw [h] at hcommands
    simp only at htime hcommands
    rw [htime, hcommands]
  exact heq ▸ hu

theorem Merges.unique {calls : List Call} {ticks other : List Tick}
    (h : Merges calls ticks) (hother : Merges calls other) : other = ticks := by
  apply hother.ascending.eq_of_mem_iff h.ascending
  intro t
  constructor
  · intro ht
    apply mem_of_commandsAt _ (hother.nonempty t ht)
    rw [h.commands, <- hother.commands]
    exact commandsAt_of_mem hother.ascending ht
  · intro ht
    apply mem_of_commandsAt _ (h.nonempty t ht)
    rw [hother.commands, <- h.commands]
    exact commandsAt_of_mem h.ascending ht

theorem Merges.exists_tick {calls : List Call} {ticks : List Tick}
    (h : Merges calls ticks) {c : Call} (hc : c ∈ calls) :
    exists t, t ∈ ticks ∧ t.time + Call.origin calls = c.time := by
  have hcommands := h.commands (c.time - Call.origin calls)
  rw [Int.sub_add_cancel] at hcommands
  have hne : commandsAt ticks (c.time - Call.origin calls) ≠ [] := by
    rw [hcommands]
    exact List.ne_nil_of_mem (Call.mem_commandsAt.mpr hc)
  rcases exists_mem_of_commandsAt hne with ⟨t, ht, htime, _⟩
  refine ⟨t, ht, ?_⟩
  rw [htime, Int.sub_add_cancel]

end Tick

/-!
# The ticks of an agenda
-/

namespace Agenda

theorem exists_tick_of_call {calls : List Call} {c : Call} (hc : c ∈ calls) :
    exists t, t ∈ (addCalls {} calls).ticks ∧ t.time = c.time := by
  refine ⟨⟨c.time, Call.commandsAt calls c.time⟩, ?_, rfl⟩
  apply mem_ticks_addCalls.mpr
  refine ⟨rfl, ?_⟩
  exact List.ne_nil_of_mem (Call.mem_commandsAt.mpr hc)

theorem exists_call_of_tick {calls : List Call} {t : Tick}
    (ht : t ∈ (addCalls {} calls).ticks) : exists c, c ∈ calls ∧ c.time = t.time := by
  rcases mem_ticks_addCalls.mp ht with ⟨hcommands, hne⟩
  rcases List.exists_mem_of_ne_nil _ hne with ⟨command, hcommand⟩
  rw [hcommands] at hcommand
  exact ⟨⟨t.time, command⟩, Call.mem_commandsAt.mp hcommand, rfl⟩

theorem commandsAt_ticks_addCalls (calls : List Call) (time : Int) :
    Tick.commandsAt (addCalls {} calls).ticks time = Call.commandsAt calls time := by
  by_cases hnone : Call.commandsAt calls time = []
  · rw [hnone]
    have hfind : (addCalls {} calls).ticks.find? (fun t => t.time == time) = none := by
      apply List.find?_eq_none.mpr
      intro t ht htime
      rcases mem_ticks_addCalls.mp ht with ⟨hcommands, hne⟩
      rw [eq_of_beq htime, hnone] at hcommands
      exact hne hcommands
    rw [Tick.commandsAt, hfind]
    rfl
  · have ht : (⟨time, Call.commandsAt calls time⟩ : Tick) ∈ (addCalls {} calls).ticks :=
      mem_ticks_addCalls.mpr ⟨rfl, hnone⟩
    exact Tick.commandsAt_of_mem (ascending_ticks _) ht

theorem origin_ticks_addCalls (calls : List Call) :
    Tick.origin (addCalls {} calls).ticks = Call.origin calls := by
  cases hticks : (addCalls {} calls).ticks with
  | nil =>
      cases calls with
      | nil => rfl
      | cons c rest =>
          have hc : c ∈ c :: rest := List.mem_cons_self
          rcases exists_tick_of_call hc with ⟨t, ht, _⟩
          rw [hticks] at ht
          cases ht
  | cons first rest =>
      have hfirst : first ∈ (addCalls {} calls).ticks := by
        rw [hticks]
        exact List.mem_cons_self
      rcases exists_call_of_tick hfirst with ⟨c, hc, hfirstTime⟩
      rcases Call.exists_first (List.ne_nil_of_mem hc) with ⟨d, hd, horigin⟩
      rcases exists_tick_of_call hd with ⟨t, ht, htime⟩
      have hascending := ascending_ticks (addCalls {} calls)
      rw [hticks] at ht hascending
      apply Int.le_antisymm
      · show first.time <= Call.origin calls
        rw [<- horigin, <- htime]
        exact hascending.head_le ht
      · show Call.origin calls <= first.time
        rw [<- hfirstTime]
        exact Call.origin_le hc

end Agenda

namespace Tick

theorem commandsAt_map_countedFrom (origin : Int) (ticks : List Tick) (time : Int) :
    commandsAt (ticks.map (countedFrom origin)) time = commandsAt ticks (time + origin) := by
  unfold commandsAt
  rw [List.find?_map]
  have hsame : ((fun t : Tick => t.time == time) ∘ countedFrom origin) =
      (fun t => t.time == time + origin) := by
    funext t
    apply Bool.eq_iff_iff.mpr
    simp only [Function.comp, countedFrom, beq_iff_eq]
    omega
  rw [hsame, Option.map_map]
  rfl

theorem merges_of_shiftAll {calls : List Call} {ticks : List Tick}
    (h : shiftAll (Agenda.addCalls {} calls).ticks = .ok ticks) : Merges calls ticks := by
  rcases shiftAll_eq_ok_iff.mp h with ⟨_, rfl⟩
  constructor
  · apply List.pairwise_map.mpr
    apply List.Pairwise.imp _ (Agenda.ascending_ticks _)
    intro t u hlt
    show t.time - _ < u.time - _
    omega
  · intro t ht
    rcases List.mem_map.mp ht with ⟨u, hu, rfl⟩
    exact (Agenda.mem_ticks_addCalls.mp hu).right
  · intro hne
    rcases List.exists_mem_of_ne_nil _ hne with ⟨c, hc⟩
    rcases Agenda.exists_tick_of_call hc with ⟨t, ht, _⟩
    cases hticks : (Agenda.addCalls {} calls).ticks with
    | nil =>
        rw [hticks] at ht
        cases ht
    | cons first rest =>
        show some (first.time - first.time) = some 0
        rw [Int.sub_self]
  · intro time
    rw [commandsAt_map_countedFrom, Agenda.commandsAt_ticks_addCalls,
      Agenda.origin_ticks_addCalls]

/-!
# Buckets in any order
-/

/-- The ticks of buckets in any order: sorted, and counted from the first. -/
def ofBuckets (buckets : List (Int × List Command)) : Except ScheduleError (List Tick) :=
  shiftAll ((buckets.map (fun bucket => ⟨bucket.1, bucket.2⟩)).mergeSort
    (fun t u => t.time <= u.time))

theorem ofBuckets_of_perm {agenda : Agenda} {buckets : List (Int × List Command)}
    (h : buckets.Perm agenda.toList) : ofBuckets buckets = shiftAll agenda.ticks := by
  unfold ofBuckets
  rw [(Agenda.ascending_ticks agenda).mergeSort_eq_of_perm (h.map _)]

end Tick

namespace Score

theorem merges_schedule {score : Score} {l : Latencies} {tempo : Tempo}
    {policy : BrushPolicy} {ticks : List Tick}
    (hpolicy : score.brushes = [] ∨ policy = .append)
    (h : score.schedule l tempo policy = .ok ticks) :
    Tick.Merges (score.allCalls l tempo.unit) ticks := by
  rcases schedule_eq_ok_iff.mp h with ⟨agenda, hagenda, hticks⟩
  rw [agenda_eq_addCalls hpolicy hagenda] at hticks
  exact Tick.merges_of_shiftAll hticks

/--
A schedule without brushes is the one list of ticks that merges the calls of the
score, and it does not depend on the order in which the buckets are listed.
-/
theorem schedule_is_stable_merge {score : Score} (hplain : score.brushes = [])
    {l : Latencies} {tempo : Tempo} {policy : BrushPolicy} {ticks : List Tick}
    (h : score.schedule l tempo policy = .ok ticks) :
    Tick.Merges (score.calls l tempo.unit) ticks ∧
      (forall other, Tick.Merges (score.calls l tempo.unit) other -> other = ticks) ∧
      exists agenda, score.agenda l tempo.unit policy = .ok agenda ∧
        forall buckets : List (Int × List Command), buckets.Perm agenda.toList ->
          Tick.ofBuckets buckets = .ok ticks := by
  have hmerges := merges_schedule (Or.inl hplain) h
  rw [allCalls_of_brushes_nil hplain] at hmerges
  rcases schedule_eq_ok_iff.mp h with ⟨agenda, hagenda, hticks⟩
  refine ⟨hmerges, fun other => hmerges.unique, agenda, hagenda, ?_⟩
  intro buckets hperm
  rw [Tick.ofBuckets_of_perm hperm]
  exact hticks

end Score

/-!
# A sample

Three notes on two strings, and a brush over both.
-/

def Latencies.sample : Latencies where
  settle := ⟨10, by decide, by decide⟩
  press := ⟨5, by decide, by decide⟩
  release := ⟨5, by decide, by decide⟩
  edges := [⟨1, 2, ⟨20, by decide, by decide⟩⟩, ⟨2, 3, ⟨30, by decide, by decide⟩⟩]

namespace Score

def sampleText : List Char :=
  "(12)4^(1320)1".toList

def sample : Score :=
  (Score.read true sampleText).toOption.get (by decide +kernel)

theorem read_sampleText : Score.read true sampleText = .ok sample :=
  Outcome.toOption_eq_some_iff.mp (Option.some_get _).symm

theorem merges_plain_sample :
    exists ticks,
      sample.withoutBrushes.schedule Latencies.sample Tempo.standard .append = .ok ticks ∧
        ticks.map Tick.time = [0, 20, 25, 3985, 3990, 4020, 4025] ∧
        Tick.Merges (sample.withoutBrushes.calls Latencies.sample Tempo.standard.unit)
          ticks := by
  have htimes :
      (sample.withoutBrushes.schedule Latencies.sample Tempo.standard .append).toOption.map
        (List.map Tick.time) = some [0, 20, 25, 3985, 3990, 4020, 4025] := by
    decide +kernel
  rcases Option.map_eq_some_iff.mp htimes with ⟨ticks, hsome, htimes⟩
  have h := Outcome.toOption_eq_some_iff.mp hsome
  exact ⟨ticks, h, htimes, (schedule_is_stable_merge rfl h).left⟩

end Score
end Plectrum

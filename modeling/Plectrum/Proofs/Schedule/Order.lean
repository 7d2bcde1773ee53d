import Plectrum.Latency.Configuration
import Plectrum.Proofs.Schedule.Gesture

/-!
# The order of attacks

Notes are attacked in the order in which they start.  One string is always attacked in
different ticks, since it must settle.  On different strings notes of different starts
fall into one tick if a division is so short that it is rounded to no time at all.
-/

namespace Plectrum

namespace Tick

def attacking (s : StringId) (ticks : List Tick) : List Tick :=
  ticks.filter (fun t => .operate s .attack ∈ t.commands)

theorem mem_attacking {s : StringId} {ticks : List Tick} {t : Tick} :
    t ∈ attacking s ticks <-> t ∈ ticks ∧ .operate s .attack ∈ t.commands := by
  rw [attacking, List.mem_filter, decide_eq_true_eq]

theorem Merges.mem_commands_iff {calls : List Call} {ticks : List Tick}
    (h : Merges calls ticks) {t : Tick} (ht : t ∈ ticks) {command : Command} :
    command ∈ t.commands <-> ⟨t.time + Call.origin calls, command⟩ ∈ calls := by
  rw [<- commandsAt_of_mem h.ascending ht, h.commands, Call.mem_commandsAt]

end Tick

namespace Call

theorem mem_cuesOn_iff {s : StringId} {calls : List Call} {time : Int} {o : Operation} :
    ⟨time, o⟩ ∈ cuesOn s calls <-> ⟨time, .operate s o⟩ ∈ calls := by
  unfold cuesOn
  rw [List.mem_filterMap]
  constructor
  · intro ⟨⟨instant, command⟩, hc, hon⟩
    rcases Option.map_eq_some_iff.mp hon with ⟨p, hp, hcue⟩
    injection hcue with htime hoperation
    cases command with
    | operate r q =>
        rcases Option.ite_some_none_eq_some.mp hp with ⟨rfl, rfl⟩
        rw [<- htime, <- hoperation]
        exact hc
    | brush first last => cases hp
  · intro hc
    exact ⟨_, hc, by simp [Command.on?]⟩

end Call

namespace Score

def attacks (score : Score) (ticks : List Tick) (s : StringId) : List (Note × Tick) :=
  (score.timeline s).notes.zip (Tick.attacking s ticks)

theorem Playable.instant_lt {score : Score} {l : Latencies} {unit : Nat}
    (h : score.Playable l unit) {s : StringId} {m n : Note}
    (hm : m ∈ (score.timeline s).notes) (hn : n ∈ (score.timeline s).notes)
    (hlt : m.start < n.start) : m.instant unit < n.instant unit := by
  rcases List.append_of_mem hn with ⟨earlier, later, hnotes⟩
  have hpairwise := (score.timeline s).pairwise_notes
  rw [hnotes] at hm hpairwise
  have hearlier : m ∈ earlier := by
    rcases List.mem_append.mp hm with hm | hm
    · exact hm
    · have hle := Ascending.head_le (List.pairwise_append.mp hpairwise).right.left hm
      exact absurd hlt (Int.not_lt.mpr hle)
  have hsettled := h.settled ⟨later, hnotes⟩ hearlier
  have hpos := l.settle.ms_pos
  omega

section Schedules

variable {score : Score} {l : Latencies} {tempo : Tempo} {policy : BrushPolicy}
  {ticks : List Tick} (hbrushes : score.brushes = [] ∨ policy = .append)
  (h : score.schedule l tempo policy = .ok ticks) (s : StringId)
include hbrushes h

theorem mem_attacking_iff {t : Tick} (ht : t ∈ ticks) :
    t ∈ Tick.attacking s ticks <-> exists n, n ∈ (score.timeline s).notes ∧
      n.instant tempo.unit = t.time + Call.origin (score.allCalls l tempo.unit) := by
  rw [Tick.mem_attacking, and_iff_right ht, (merges_schedule hbrushes h).mem_commands_iff ht,
    <- Call.mem_cuesOn_iff, cuesOn_allCalls]
  exact (playable_of_schedule h s).attack_iff

theorem map_time_attacking :
    (Tick.attacking s ticks).map Tick.time = (score.timeline s).notes.map (fun n =>
      n.instant tempo.unit - Call.origin (score.allCalls l tempo.unit)) := by
  have hmerges := merges_schedule hbrushes h
  have hplayable := playable_of_schedule h
  have hticks : Ascending id ((Tick.attacking s ticks).map Tick.time) :=
    List.pairwise_map.mpr (List.Pairwise.filter _ hmerges.ascending)
  have hnotes : Ascending id ((score.timeline s).notes.map (fun n =>
      n.instant tempo.unit - Call.origin (score.allCalls l tempo.unit))) := by
    apply List.pairwise_map.mpr
    apply (score.timeline s).pairwise_notes.imp_of_mem
    intro m n hm hn hlt
    exact Int.sub_lt_sub_right (hplayable.instant_lt hm hn hlt) _
  apply hticks.eq_of_mem_iff hnotes
  intro time
  rw [List.mem_map, List.mem_map]
  constructor
  · intro ⟨t, ht, htime⟩
    rcases (mem_attacking_iff hbrushes h s (Tick.mem_attacking.mp ht).left).mp ht with
      ⟨n, hn, hinstant⟩
    refine ⟨n, hn, ?_⟩
    rw [hinstant, Int.add_sub_cancel]
    exact htime
  · intro ⟨n, hn, htime⟩
    have hcall : ⟨n.instant tempo.unit, .operate s .attack⟩ ∈
        score.allCalls l tempo.unit := by
      rw [<- Call.mem_cuesOn_iff, cuesOn_allCalls]
      exact ((hplayable s).attack hn).right
    rcases hmerges.exists_tick hcall with ⟨t, ht, hinstant⟩
    refine ⟨t, (mem_attacking_iff hbrushes h s ht).mpr ⟨n, hn, hinstant.symm⟩, ?_⟩
    rw [<- htime, <- show t.time + _ = n.instant tempo.unit from hinstant,
      Int.add_sub_cancel]

theorem forall₂_attacking :
    List.Forall₂
      (fun n t => t.time =
        n.instant tempo.unit - Call.origin (score.allCalls l tempo.unit))
      (score.timeline s).notes (Tick.attacking s ticks) := by
  have htimes := map_time_attacking hbrushes h s
  rw [<- List.forall₂_eq_eq_eq, List.forall₂_map_left_iff, List.forall₂_map_right_iff]
    at htimes
  exact htimes.flip

end Schedules

/--
Every note is attacked in a tick of its own string, and never later than a note that
starts after it.  It is attacked in an earlier tick if the notes are on one string, or if
a minute has so few divisions that each takes a millisecond when it is rounded; on
different strings both are attacked in one tick otherwise.
-/
theorem schedule_keeps_order {detect : Bool} {text : List Char} {score : Score}
    (hread : Score.read detect text = .ok score) {policy : BrushPolicy}
    (hpolicy : detect = false ∨ policy = .append) {l : Latencies} {tempo : Tempo}
    {ticks : List Tick} (h : score.schedule l tempo policy = .ok ticks) :
    ticks.Pairwise (fun t u => t.time < u.time) ∧
      (forall s, (score.timeline s).notes.length = (Tick.attacking s ticks).length) ∧
      forall r m t s n u, (m, t) ∈ score.attacks ticks r -> (n, u) ∈ score.attacks ticks s ->
        m.start < n.start ->
          t.time <= u.time ∧
            (t.time < u.time <-> r = s ∨ tempo.divisionsPerMinute <= 2 * 60000) := by
  have hbrushes := no_replacing_brush hread hpolicy
  have hattacking := fun s => List.forall₂_iff_zip.mp (forall₂_attacking hbrushes h s)
  refine ⟨(merges_schedule hbrushes h).ascending, fun s => (hattacking s).left, ?_⟩
  intro r m t s n u hm hn hlt
  have ht := (hattacking r).right hm
  have hu := (hattacking s).right hn
  have hle : m.instant tempo.unit <= n.instant tempo.unit :=
    Int.mul_le_mul_of_nonneg_right (Int.le_of_lt hlt) (Int.natCast_nonneg _)
  refine ⟨by omega, ?_⟩
  rw [<- tempo.unit_pos_iff]
  constructor
  · intro hearlier
    -- Without time between them, notes of different starts are at one instant.
    refine Or.inr (Nat.pos_of_ne_zero fun hunit => ?_)
    have hzero : forall k : Note, k.instant tempo.unit = 0 := by
      intro k
      rw [Note.instant, hunit]
      exact Int.mul_zero k.start
    rw [ht, hu, hzero, hzero] at hearlier
    exact Int.lt_irrefl _ hearlier
  · rintro (rfl | hpos)
    · have hstrict := (playable_of_schedule h).instant_lt (List.of_mem_zip hm).left
        (List.of_mem_zip hn).left hlt
      omega
    · have hstrict : m.instant tempo.unit < n.instant tempo.unit :=
        Int.mul_lt_mul_of_pos_right hlt (Int.natCast_pos.mpr hpos)
      omega

/-!
# Two open strings

Two open strings are played one after the other.  At one millisecond to a division they
are attacked in this order, and together if there are a few divisions more to a minute
than two for each millisecond.
-/

def openConfiguration : List Char :=
  "fret_latency 1\npress_latency 1\nrelease_latency 1\n".toList

def openLatencies : Latencies where
  settle := ⟨1, by decide, by decide⟩
  press := ⟨1, by decide, by decide⟩
  release := ⟨1, by decide, by decide⟩
  edges := []

def openText : List Char :=
  "(10)1(20)1".toList

def openStrings : Score :=
  (Score.read false openText).toOption.get (by decide +kernel)

theorem read_openText : Score.read false openText = .ok openStrings :=
  Outcome.toOption_eq_some_iff.mp (Option.some_get _).symm

/-- A division of one millisecond. -/
def briskTempo : Tempo :=
  (Tempo.of? 60000 1).get (by decide)

/-- A division of a little less than half a millisecond. -/
def hastyTempo : Tempo :=
  (Tempo.of? 120001 1).get (by decide)

theorem brisk_schedule_keeps_order :
    exists ticks t u, Score.read false openText = .ok openStrings ∧
      openStrings.schedule openLatencies briskTempo .append = .ok ticks ∧
      (⟨0, 0, 1⟩, t) ∈ openStrings.attacks ticks ⟨0⟩ ∧
      (⟨1, 0, 1⟩, u) ∈ openStrings.attacks ticks ⟨1⟩ ∧ t.time < u.time := by
  have h : openStrings.schedule openLatencies briskTempo .append =
      .ok [⟨0, [.operate ⟨0⟩ .attack]⟩, ⟨1, [.operate ⟨1⟩ .attack]⟩] :=
    Outcome.toOption_eq_some_iff.mp (by decide +kernel)
  rcases schedule_keeps_order read_openText (Or.inl rfl) h with ⟨_, _, horder⟩
  refine ⟨_, ⟨0, [.operate ⟨0⟩ .attack]⟩, ⟨1, [.operate ⟨1⟩ .attack]⟩, read_openText, h,
    by decide +kernel, by decide +kernel, ?_⟩
  exact (horder ⟨0⟩ ⟨0, 0, 1⟩ _ ⟨1⟩ ⟨1, 0, 1⟩ _ (by decide +kernel) (by decide +kernel)
    (by decide)).right.mpr (Or.inr (by decide))

/-- Notes of different starts are attacked in one tick. -/
theorem hasty_schedule_loses_order :
    exists l score ticks t u, Latencies.read openConfiguration = .ok l ∧
      Tempo.of? 120001 1 = some hastyTempo ∧ Score.read false openText = .ok score ∧
      score.schedule l hastyTempo .append = .ok ticks ∧
      (⟨0, 0, 1⟩, t) ∈ score.attacks ticks ⟨0⟩ ∧ (⟨1, 0, 1⟩, u) ∈ score.attacks ticks ⟨1⟩ ∧
      ¬ t.time < u.time := by
  have hconfiguration : Latencies.read openConfiguration = .ok openLatencies :=
    Outcome.toOption_eq_some_iff.mp (by decide +kernel)
  have h : openStrings.schedule openLatencies hastyTempo .append =
      .ok [⟨0, [.operate ⟨0⟩ .attack, .operate ⟨1⟩ .attack]⟩] :=
    Outcome.toOption_eq_some_iff.mp (by decide +kernel)
  exact ⟨openLatencies, openStrings, _, ⟨0, [.operate ⟨0⟩ .attack, .operate ⟨1⟩ .attack]⟩,
    ⟨0, [.operate ⟨0⟩ .attack, .operate ⟨1⟩ .attack]⟩, hconfiguration, rfl, read_openText,
    h, by decide +kernel, by decide +kernel, by decide⟩

end Score
end Plectrum

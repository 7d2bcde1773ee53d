import Plectrum.Proofs.Schedule.Failure
import Plectrum.Proofs.Schedule.Gesture

/-!
# Faster mechanics and slower tempos

Shorter latencies leave more time for every note, and so does a slower tempo.  A score
that can be scheduled can then still be scheduled, unless a time gets too large to be
represented.  The time to settle is only a bound: as long as it is not longer, it does
not change the schedule.
-/

namespace Plectrum

/-- Whether no latency is longer than in another table, and no travel is missing. -/
structure Latencies.Faster (fast slow : Latencies) : Prop where
  settle : fast.settle.ms <= slow.settle.ms
  press : fast.press.ms <= slow.press.ms
  release : fast.release.ms <= slow.release.ms
  travel : forall a b t, slow.travel? a b = some t ->
    exists u, fast.travel? a b = some u ∧ u.ms <= t.ms

namespace Finger

variable {fast slow : Latencies} {f : Finger} {target : Position}

theorem Reaches.faster (hfaster : fast.Faster slow) (h : f.Reaches slow target) :
    f.Reaches fast target := by
  intro hopen hother
  rcases Option.isSome_iff_exists.mp (h hopen hother) with ⟨t, ht⟩
  rcases hfaster.travel _ _ t ht with ⟨u, hu, _⟩
  rw [hu]
  rfl

theorem lead_le_of_faster (hfaster : fast.Faster slow) (h : f.Reaches slow target) :
    f.lead fast target <= f.lead slow target := by
  have hrelease : f.releaseTime fast <= f.releaseTime slow := by
    unfold releaseTime
    split
    · exact hfaster.release
    · exact Nat.le_refl 0
  unfold lead
  by_cases hopen : target = Position.openString
  · rw [if_pos hopen, if_pos hopen]
    exact hrelease
  · rw [if_neg hopen, if_neg hopen]
    by_cases hsame : target = f.position
    · rw [if_pos hsame, if_pos hsame]
      split
      · exact Nat.le_refl 0
      · exact hfaster.press
    · rw [if_neg hsame, if_neg hsame]
      rcases Option.isSome_iff_exists.mp (h hopen hsame) with ⟨t, ht⟩
      rcases hfaster.travel _ _ t ht with ⟨u, hu, hle⟩
      have htravel : f.travelTime fast target <= f.travelTime slow target := by
        simp only [travelTime, ht, hu]
        exact hle
      exact Nat.add_le_add (Nat.add_le_add hfaster.press htravel) hrelease

end Finger

theorem Note.Before.instant_sub_le {m n : Note} (h : m.Before n) {unit slower : Nat}
    (hunit : unit <= slower) :
    n.instant unit - m.instant unit <= n.instant slower - m.instant slower := by
  have hpos : 0 <= n.start - m.start := Int.sub_nonneg_of_le (Int.le_of_lt h)
  have hle := Int.mul_le_mul_of_nonneg_left (Int.ofNat_le.mpr hunit) hpos
  rw [Int.sub_mul, Int.sub_mul] at hle
  exact hle

theorem Performance.NoteFault.eq_timeOverflow {l : Latencies} {unit : Nat} {s : StringId}
    {f : Finger} {lastAttack : Option Int} {n : Note} {e : ScheduleError}
    (h : NoteFault l unit s f lastAttack n e) (hreaches : f.Reaches l n.position)
    (hsettled : forall last, lastAttack = some last ->
      last + l.settle.ms <= n.instant unit - f.lead l n.position) :
    e = .timeOverflow s n.start := by
  cases h with
  | attack _ => rfl
  | travel _ hno => exact absurd hreaches hno
  | action _ hplay _ ha =>
      cases ha with
      | timeOverflow _ => rfl
      | busyOverflow _ _ _ => rfl
      | tooEarly _ hlast _ hearly =>
          have hsettle := hsettled _ hlast
          have hoffset := Finger.offset_of_mem_play hplay
            (List.mem_append_right _ List.mem_cons_self)
          omega

namespace Score

section Faster

variable {score : Score} {fast slow : Latencies} (hfaster : fast.Faster slow) {unit : Nat}
  (h : score.Playable slow unit)
include hfaster h

theorem Playable.reaches_faster {s : StringId} {earlier : List Note} {n : Note}
    (hn : score.Plays s earlier n) :
    (Finger.leftBy earlier).Reaches fast n.position ∧
      n.lead fast earlier <= n.lead slow earlier := by
  have hreaches := (playable_iff.mp h s earlier n hn).reaches
  exact ⟨hreaches.faster hfaster, Finger.lead_le_of_faster hfaster hreaches⟩

theorem Playable.settled_faster {slower : Nat} (hunit : unit <= slower) {s : StringId}
    {earlier : List Note} {n m : Note} (hn : score.Plays s earlier n) (hm : m ∈ earlier) :
    m.instant slower + fast.settle.ms <= n.instant slower - n.lead fast earlier := by
  have hsettled := h.settled hn hm
  have hlead := (h.reaches_faster hfaster hn).right
  have hsettle := hfaster.settle
  have hlonger := (hn.before hm).instant_sub_le hunit
  omega

theorem Playable.error_faster {slower : Nat} (hunit : unit <= slower) {e : ScheduleError}
    (herror : score.stringAgenda fast slower = .error e) :
    exists s time, e = .timeOverflow s time := by
  rcases stringAgenda_eq_error_iff.mp herror with
    ⟨_, s, _, _, _, earlier, n, later, hnotes, _, hfault⟩
  have hn : score.Plays s earlier n := ⟨later, hnotes⟩
  refine ⟨s, n.start, hfault.eq_timeOverflow (h.reaches_faster hfaster hn).left ?_⟩
  intro last hlast
  rcases Note.exists_of_lastInstant hlast with ⟨m, hm, rfl⟩
  exact h.settled_faster hfaster hunit hn hm

theorem Playable.faster : score.Playable fast unit := by
  apply playable_iff.mpr
  intro s earlier n hn
  have hplayable := playable_iff.mp h s earlier n hn
  have hattack := hplayable.attack
  have hbegins := hplayable.begins.representable
  rcases h.reaches_faster hfaster hn with ⟨hreaches, hlead⟩
  refine ⟨hreaches, hattack, hbegins.between hattack ?_ ?_, ?_⟩
  · show n.instant unit - n.lead slow earlier <= n.instant unit - n.lead fast earlier
    omega
  · show n.instant unit - n.lead fast earlier <= n.instant unit
    omega
  · intro last hlast
    rcases Note.exists_of_lastInstant hlast with ⟨m, hm, rfl⟩
    have hearlier := ((h s).attack (hn.mem_of_earlier hm)).left
    have hsettled := h.settled_faster hfaster (Nat.le_refl unit) hn hm
    exact ⟨hearlier.between hattack (by omega) (by omega), hsettled⟩

end Faster

end Score

/-!
# The time to settle
-/

theorem Finger.cuesFor_settle (l : Latencies) (settle : Latency) (unit : Nat)
    (notes : List Note) :
    forall f : Finger,
      f.cuesFor { l with settle := settle } unit notes = f.cuesFor l unit notes := by
  induction notes with
  | nil =>
      intro f
      rfl
  | cons n rest ih =>
      intro f
      have hplay : f.play { l with settle := settle } n.position = f.play l n.position := rfl
      unfold Finger.cuesFor
      rw [hplay]
      cases f.play l n.position with
      | ok played => exact congrArg (_ ++ ·) (ih played.2)
      | error e => exact ih f

namespace Score

theorem calls_settle (score : Score) (l : Latencies) (settle : Latency) (unit : Nat) :
    score.calls { l with settle := settle } unit = score.calls l unit := by
  unfold calls callsTo
  simp only [Finger.cuesFor_settle]

theorem agenda_settle {score : Score} {l : Latencies} {settle : Latency} {unit : Nat}
    {policy : BrushPolicy} {agenda : Agenda}
    (hplayable : score.Playable { l with settle := settle } unit)
    (h : score.agenda l unit policy = .ok agenda) :
    score.agenda { l with settle := settle } unit policy = .ok agenda := by
  rcases agenda_eq_ok_iff.mp h with ⟨_, hbrushes, hagenda⟩
  rw [<- calls_settle score l settle] at hagenda
  exact agenda_eq_ok_iff.mpr ⟨hplayable, hbrushes, hagenda⟩

/--
A score that can be scheduled is not refused with faster mechanics and a tempo that is
not faster, unless a time gets too large.  If only the time to settle is shorter, the
schedule is the same.
-/
theorem schedule_is_monotone {score : Score} {fast slow : Latencies}
    (hfaster : fast.Faster slow) {tempo slower : Tempo} (hunit : tempo.unit <= slower.unit)
    {policy : BrushPolicy} {ticks : List Tick}
    (h : score.schedule slow tempo policy = .ok ticks) :
    ((exists others, score.schedule fast slower policy = .ok others) ∨
        (exists s time, score.schedule fast slower policy = .error (.timeOverflow s time)) ∨
        exists instant origin,
          score.schedule fast slower policy = .error (.shiftOverflow instant origin)) ∧
      (fast = { slow with settle := fast.settle } -> slower.unit = tempo.unit ->
        score.schedule fast slower policy = .ok ticks) := by
  have hplayable := playable_of_schedule h
  constructor
  · cases hschedule : score.schedule fast slower policy with
    | ok others => exact Or.inl ⟨others, rfl⟩
    | error e =>
        rcases schedule_error_cases hschedule with hstrings | ⟨_, hbrush | hshift⟩
        · rcases hplayable.error_faster hfaster hunit hstrings with ⟨s, time, rfl⟩
          exact Or.inr (Or.inl ⟨s, time, rfl⟩)
        · rcases hbrush with ⟨b, _, rfl⟩
          exact Or.inr (Or.inl ⟨_, _, rfl⟩)
        · rcases hshift with ⟨instant, origin, rfl⟩
          exact Or.inr (Or.inr ⟨instant, origin, rfl⟩)
  · intro hsettle hsame
    have hfast := hplayable.faster hfaster
    rcases schedule_eq_ok_iff.mp h with ⟨agenda, hagenda, hticks⟩
    rw [hsettle] at hfast
    rw [hsettle]
    refine schedule_eq_ok_iff.mpr ⟨agenda, ?_, hticks⟩
    rw [hsame]
    exact agenda_settle hfast hagenda

end Score

/-!
# A sample

Damped strings settle sooner, which changes nothing; half the tempo leaves more time.
-/

def Latencies.damped : Latencies :=
  { sample with settle := ⟨3, by decide, by decide⟩ }

theorem Latencies.damped_faster : damped.Faster sample where
  settle := by decide
  press := Nat.le_refl _
  release := Nat.le_refl _
  travel := fun _ _ t ht => ⟨t, ht, Nat.le_refl _⟩

def Tempo.slow : Tempo :=
  (Tempo.of? 30 1).get (by decide)

namespace Score

theorem damped_schedule_is_monotone :
    exists ticks others,
      ticks = ([⟨0, [.operate ⟨0⟩ (.move 2)]⟩, ⟨20, [.operate ⟨0⟩ .press]⟩,
        ⟨25, [.operate ⟨0⟩ .attack]⟩, ⟨3985, [.operate ⟨0⟩ .release]⟩,
        ⟨3990, [.operate ⟨0⟩ (.move 3)]⟩, ⟨4020, [.operate ⟨0⟩ .press]⟩,
        ⟨4025, [.brush ⟨0⟩ ⟨1⟩]⟩] : List Tick) ∧
      sample.schedule Latencies.sample Tempo.standard .replace = .ok ticks ∧
      sample.schedule Latencies.damped Tempo.standard .replace = .ok ticks ∧
      sample.schedule Latencies.damped Tempo.slow .replace = .ok others ∧
      others.map Tick.time = [0, 20, 25, 7985, 7990, 8020, 8025] := by
  have h : sample.schedule Latencies.sample Tempo.standard .replace =
      .ok [⟨0, [.operate ⟨0⟩ (.move 2)]⟩, ⟨20, [.operate ⟨0⟩ .press]⟩,
        ⟨25, [.operate ⟨0⟩ .attack]⟩, ⟨3985, [.operate ⟨0⟩ .release]⟩,
        ⟨3990, [.operate ⟨0⟩ (.move 3)]⟩, ⟨4020, [.operate ⟨0⟩ .press]⟩,
        ⟨4025, [.brush ⟨0⟩ ⟨1⟩]⟩] := by
    decide +kernel
  have hunit : Tempo.standard.unit <= Tempo.slow.unit := by decide +kernel
  have htimes :
      (sample.schedule Latencies.damped Tempo.slow .replace).toOption.map (List.map Tick.time) =
        some [0, 20, 25, 7985, 7990, 8020, 8025] := by
    decide +kernel
  have hsame := (schedule_is_monotone Latencies.damped_faster (Nat.le_refl _) h).right rfl rfl
  rcases (schedule_is_monotone Latencies.damped_faster hunit h).left with
    ⟨others, hothers⟩ | ⟨s, time, herror⟩ | ⟨instant, origin, herror⟩
  · rw [hothers] at htimes
    exact ⟨_, others, rfl, h, hsame, hothers, Option.some.inj htimes⟩
  · rw [herror] at htimes
    cases htimes
  · rw [herror] at htimes
    cases htimes

end Score
end Plectrum

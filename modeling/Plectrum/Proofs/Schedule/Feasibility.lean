import Plectrum.Proofs.Instrument.Playing
import Plectrum.Proofs.Schedule.Strokes

/-!
# Feasible scores

How a finger stands before a note can be read off the notes before it.  This gives a
condition on the notes alone, in numbers without bounds, under which a score can be
scheduled: all travels are known, each string settles before the next note is
prepared, and the time from the first action to the last attack is representable.
-/

namespace Plectrum

namespace Finger

/--
How a finger stands after some notes: at the position of the last of them that is
not open, and pressing unless the last of all is open.
-/
def leftBy (earlier : List Note) : Finger where
  position :=
    ((earlier.reverse.find? (fun n => n.position != Position.openString)).map
      Note.position).getD Position.rest
  pressed :=
    (earlier.getLast?.map (fun n => n.position != Position.openString)).getD false

theorem leftBy_eq_standing (earlier : List Note) :
    leftBy earlier = standing (earlier.map Note.position) := by
  unfold leftBy standing
  rw [<- List.map_reverse, List.find?_map, List.getLast?_map, Option.map_map]
  rfl

theorem leftBy_append (earlier : List Note) (n : Note) :
    leftBy (earlier ++ [n]) = (leftBy earlier).after n.position := by
  rw [leftBy_eq_standing, leftBy_eq_standing, List.map_append]
  exact standing_concat _ n.position

end Finger

namespace Note

/-- How many milliseconds before a note its preparation begins. -/
def lead (l : Latencies) (earlier : List Note) (n : Note) : Nat :=
  (Finger.leftBy earlier).lead l n.position

def lastInstant (unit : Nat) (notes : List Note) : Option Int :=
  notes.getLast?.map (instant unit)

theorem lastInstant_append (unit : Nat) (earlier : List Note) (n : Note) :
    lastInstant unit (earlier ++ [n]) = some (n.instant unit) := by
  rw [lastInstant, List.getLast?_concat]
  rfl

theorem lastInstant_of_getLast? (unit : Nat) {earlier : List Note} {m : Note}
    (h : earlier.getLast? = some m) : lastInstant unit earlier = some (m.instant unit) :=
  congrArg (Option.map (instant unit)) h

theorem exists_of_lastInstant {unit : Nat} {earlier : List Note} {last : Int}
    (h : lastInstant unit earlier = some last) :
    exists m, m ∈ earlier ∧ m.instant unit = last := by
  rcases Option.map_eq_some_iff.mp h with ⟨m, hm, hlast⟩
  exact ⟨m, List.mem_of_getLast? hm, hlast⟩

end Note

/-!
# Notes by what is before them
-/

namespace Performance

theorem allPlayable_iff {l : Latencies} {unit : Nat} (notes : List Note) :
    forall earlier : List Note,
      AllPlayable l unit (Finger.leftBy earlier) (Note.lastInstant unit earlier) notes <->
        forall before n later, notes = before ++ n :: later ->
          Playable l unit (Finger.leftBy (earlier ++ before))
            (Note.lastInstant unit (earlier ++ before)) n := by
  induction notes with
  | nil =>
      intro earlier
      constructor
      · intro _ before n later h
        cases List.append_eq_nil_iff.mp h.symm with
        | intro _ hcons => cases hcons
      · intro _
        trivial
  | cons m rest ih =>
      intro earlier
      unfold AllPlayable
      rw [<- Finger.leftBy_append, <- Note.lastInstant_append, ih]
      constructor
      · intro ⟨hfirst, hrest⟩ before n later h
        cases before with
        | nil =>
            injection h with hm _
            rw [<- hm, List.append_nil]
            exact hfirst
        | cons b before =>
            injection h with hb hrest'
            rw [<- hb, <- List.singleton_append, <- List.append_assoc]
            exact hrest before n later hrest'
      · intro hall
        constructor
        · have hfirst := hall [] m rest rfl
          rw [List.append_nil] at hfirst
          exact hfirst
        · intro before n later h
          have hlater := hall (m :: before) n later (congrArg (m :: ·) h)
          rw [<- List.singleton_append, <- List.append_assoc] at hlater
          exact hlater

theorem mem_cuesFor_iff {l : Latencies} {unit : Nat} {cue : Cue} (notes : List Note) :
    forall earlier : List Note,
      AllPlayable l unit (Finger.leftBy earlier) (Note.lastInstant unit earlier) notes ->
        (cue ∈ (Finger.leftBy earlier).cuesFor l unit notes <->
          exists before n later actions next, notes = before ++ n :: later ∧
            (Finger.leftBy (earlier ++ before)).play l n.position = .ok (actions, next) ∧
            exists a, a ∈ actions ∧ cue = Cue.ofAction (n.instant unit) a) := by
  induction notes with
  | nil =>
      intro earlier _
      simp
  | cons m rest ih =>
      intro earlier h
      rcases h with ⟨hplayable, hall⟩
      rcases hplayable.reaches.exists_play with ⟨before, hplay⟩
      rw [<- Finger.leftBy_append, <- Note.lastInstant_append] at hall
      rw [Finger.cuesFor, hplay, List.mem_append, List.mem_map, <- Finger.leftBy_append,
        ih _ hall]
      constructor
      · intro h
        rcases h with ⟨a, ha, hcue⟩ | ⟨between, n, later, actions, next, hrest, hn, hcue⟩
        · refine ⟨[], m, rest, _, (Finger.leftBy earlier).after m.position, rfl, ?_, a, ha,
            hcue.symm⟩
          rw [List.append_nil]
          exact hplay
        · refine ⟨m :: between, n, later, actions, next, congrArg (m :: ·) hrest, ?_, hcue⟩
          rw [<- List.singleton_append, <- List.append_assoc]
          exact hn
      · intro h
        rcases h with ⟨between, n, later, actions, next, hnotes, hn, a, ha, hcue⟩
        cases between with
        | nil =>
            injection hnotes with hm _
            rw [<- hm, List.append_nil, hplay] at hn
            injection hn with hn
            injection hn with hactions _
            rw [<- hactions] at ha
            exact Or.inl ⟨a, ha, hm ▸ hcue.symm⟩
        | cons b between =>
            injection hnotes with hb hrest
            rw [<- hb, <- List.singleton_append, <- List.append_assoc] at hn
            exact Or.inr ⟨between, n, later, actions, next, hrest, hn, a, ha, hcue⟩

theorem AllPlayable.attack_iff {l : Latencies} {unit : Nat} {notes : List Note}
    (h : AllPlayable l unit {} none notes) {time : Int} :
    ⟨time, .attack⟩ ∈ ({} : Finger).cuesFor l unit notes <->
      exists n, n ∈ notes ∧ n.instant unit = time := by
  constructor
  · intro hcue
    rcases (mem_cuesFor_iff notes [] h).mp hcue with
      ⟨before, n, later, actions, next, rfl, hplay, a, ha, heq⟩
    refine ⟨n, List.mem_append_right before List.mem_cons_self, ?_⟩
    injection heq with htime hoperation
    rcases Finger.play_eq_ok_iff.mp hplay with ⟨prepares, hprepares, rfl, _⟩
    cases List.mem_append.mp ha with
    | inl ha =>
        exact absurd hoperation.symm (Finger.operation_of_mem_preparation hprepares ha)
    | inr ha =>
        rw [htime, List.mem_singleton.mp ha]
        exact (Int.add_zero _).symm
  · intro ⟨n, hn, htime⟩
    rw [<- htime]
    exact (h.attack hn).right

end Performance

namespace Score

/-- Whether a string plays a note, and which notes before it. -/
def Plays (score : Score) (s : StringId) (earlier : List Note) (n : Note) : Prop :=
  exists later, (score.timeline s).notes = earlier ++ n :: later

theorem Plays.mem {score : Score} {s : StringId} {earlier : List Note} {n : Note}
    (h : score.Plays s earlier n) : n ∈ (score.timeline s).notes := by
  rcases h with ⟨later, hnotes⟩
  rw [hnotes]
  exact List.mem_append_right earlier List.mem_cons_self

theorem Plays.mem_of_earlier {score : Score} {s : StringId} {earlier : List Note}
    {n m : Note} (h : score.Plays s earlier n) (hm : m ∈ earlier) :
    m ∈ (score.timeline s).notes := by
  rcases h with ⟨later, hnotes⟩
  rw [hnotes]
  exact List.mem_append_left _ hm

theorem Plays.before {score : Score} {s : StringId} {earlier : List Note} {n m : Note}
    (h : score.Plays s earlier n) (hm : m ∈ earlier) : m.Before n := by
  rcases h with ⟨later, hnotes⟩
  have hpairwise := (score.timeline s).pairwise_notes
  rw [hnotes] at hpairwise
  exact (List.pairwise_append.mp hpairwise).right.right m hm n List.mem_cons_self

theorem Plays.of_concat {score : Score} {s : StringId} {earlier : List Note} {k n : Note}
    (h : score.Plays s (earlier ++ [k]) n) : score.Plays s earlier k := by
  rcases h with ⟨later, hnotes⟩
  refine ⟨n :: later, ?_⟩
  rw [hnotes, List.append_assoc, List.singleton_append]

theorem exists_plays {score : Score} {s : StringId} {n : Note}
    (h : n ∈ (score.timeline s).notes) : exists earlier, score.Plays s earlier n := by
  rcases List.append_of_mem h with ⟨earlier, later, hnotes⟩
  exact ⟨earlier, later, hnotes⟩

theorem playable_iff {score : Score} {l : Latencies} {unit : Nat} :
    score.Playable l unit <-> forall s earlier n, score.Plays s earlier n ->
      Performance.Playable l unit (Finger.leftBy earlier)
        (Note.lastInstant unit earlier) n := by
  constructor
  · intro h s earlier n ⟨later, hnotes⟩
    exact (Performance.allPlayable_iff _ []).mp (h s) earlier n later hnotes
  · intro h s
    apply (Performance.allPlayable_iff _ []).mpr
    intro before n later hnotes
    exact h s before n ⟨later, hnotes⟩

theorem Playable.mem_calls_iff {score : Score} {l : Latencies} {unit : Nat}
    (h : score.Playable l unit) {c : Call} :
    c ∈ score.calls l unit <-> exists s earlier n actions next, score.Plays s earlier n ∧
      (Finger.leftBy earlier).play l n.position = .ok (actions, next) ∧
      exists a, a ∈ actions ∧ c = (Cue.ofAction (n.instant unit) a).call s := by
  rw [mem_calls]
  constructor
  · intro ⟨s, hc⟩
    rcases List.mem_map.mp hc with ⟨cue, hcue, hcall⟩
    rcases (Performance.mem_cuesFor_iff _ [] (h s)).mp hcue with
      ⟨before, n, later, actions, next, hnotes, hplay, a, ha, heq⟩
    exact ⟨s, before, n, actions, next, ⟨later, hnotes⟩, hplay, a, ha, by rw [<- hcall, heq]⟩
  · intro ⟨s, earlier, n, actions, next, ⟨later, hnotes⟩, hplay, a, ha, hc⟩
    refine ⟨s, List.mem_map.mpr ⟨_, ?_, hc.symm⟩⟩
    exact (Performance.mem_cuesFor_iff _ [] (h s)).mpr
      ⟨earlier, n, later, actions, next, hnotes, hplay, a, ha, rfl⟩

theorem Playable.calls_of_plays {score : Score} {l : Latencies} {unit : Nat}
    (h : score.Playable l unit) {s : StringId} {earlier : List Note} {n : Note}
    (hn : score.Plays s earlier n) :
    (exists c, c ∈ score.calls l unit ∧ c.time = n.instant unit - n.lead l earlier) ∧
      exists c, c ∈ score.calls l unit ∧ c.time = n.instant unit := by
  constructor
  · rcases (playable_iff.mp h s earlier n hn).reaches.exists_play with ⟨before, hplay⟩
    rcases Finger.exists_first_of_play hplay with ⟨a, ha, hoffset⟩
    refine ⟨_, h.mem_calls_iff.mpr ⟨s, earlier, n, _, _, hn, hplay, a, ha, rfl⟩, ?_⟩
    show n.instant unit + a.offset = _
    rw [hoffset]
    rfl
  · exact ⟨_, mem_calls.mpr ⟨s, List.mem_map_of_mem ((h s).attack hn.mem).right⟩, rfl⟩

theorem Playable.plays_of_call {score : Score} {l : Latencies} {unit : Nat}
    (h : score.Playable l unit) {c : Call} (hc : c ∈ score.calls l unit) :
    exists s earlier n, score.Plays s earlier n ∧
      n.instant unit - n.lead l earlier <= c.time ∧ c.time <= n.instant unit := by
  rcases h.mem_calls_iff.mp hc with ⟨s, earlier, n, actions, next, hn, hplay, a, ha, rfl⟩
  rcases Finger.offset_of_mem_play hplay ha with ⟨hlead, hoffset⟩
  refine ⟨s, earlier, n, hn, ?_⟩
  show n.instant unit - (Finger.leftBy earlier).lead l n.position <=
      n.instant unit + a.offset ∧ n.instant unit + a.offset <= n.instant unit
  omega

/-!
# Success
-/

/-- Whether the notes of a score leave enough time, and not too much. -/
structure Feasible (score : Score) (l : Latencies) (unit : Nat) : Prop where
  reaches : forall s earlier n, score.Plays s earlier n ->
    (Finger.leftBy earlier).Reaches l n.position
  settles : forall s earlier m n, score.Plays s (earlier ++ [m]) n ->
    m.instant unit + l.settle.ms <= n.instant unit - n.lead l (earlier ++ [m])
  spans : forall r before m s earlier n, score.Plays r before m -> score.Plays s earlier n ->
    m.instant unit - (n.instant unit - n.lead l earlier) <= 9223372036854775807

theorem schedule_ok_iff_of_plain {score : Score} (hplain : score.brushes = [])
    (l : Latencies) (tempo : Tempo) (policy : BrushPolicy) :
    (exists ticks, score.schedule l tempo policy = .ok ticks) <->
      score.Playable l tempo.unit ∧ forall c, c ∈ score.calls l tempo.unit ->
        Representable (c.time - Call.origin (score.calls l tempo.unit)) := by
  constructor
  · intro ⟨ticks, h⟩
    rcases schedule_eq_ok_iff.mp h with ⟨agenda, hagenda, hshift⟩
    rcases agenda_eq_ok_iff.mp hagenda with ⟨hplayable, _, hfilled⟩
    rw [hplain] at hfilled
    refine ⟨hplayable, ?_⟩
    intro c hc
    rcases Agenda.exists_tick_of_call hc with ⟨t, ht, htime⟩
    rw [<- htime, <- Agenda.origin_ticks_addCalls]
    rw [hfilled] at hshift
    exact (Tick.shiftAll_eq_ok_iff.mp hshift).left t ht
  · intro ⟨hplayable, hrep⟩
    have hagenda : score.agenda l tempo.unit policy =
        .ok (Agenda.addCalls {} (score.calls l tempo.unit)) := by
      apply agenda_eq_ok_iff.mpr
      rw [hplain]
      exact ⟨hplayable, (fun b hb => by cases hb), rfl⟩
    refine ⟨_, schedule_eq_ok_iff.mpr ⟨_, hagenda, Tick.shiftAll_eq_ok_iff.mpr ⟨?_, rfl⟩⟩⟩
    intro t ht
    rcases Agenda.exists_call_of_tick ht with ⟨c, hc, htime⟩
    rw [<- htime, Agenda.origin_ticks_addCalls]
    exact hrep c hc

theorem WellTimed.schedule_ok_iff {score : Score} (hscore : score.WellTimed)
    (l : Latencies) (tempo : Tempo) (policy : BrushPolicy) :
    (exists ticks, score.schedule l tempo policy = .ok ticks) <->
      score.Playable l tempo.unit ∧ forall c, c ∈ score.calls l tempo.unit ->
        Representable (c.time - Call.origin (score.calls l tempo.unit)) := by
  refine Iff.trans ?_ (schedule_ok_iff_of_plain score.brushes_withoutBrushes l tempo policy)
  rw [hscore.schedule_eq l tempo policy policy]
  constructor
  · intro ⟨ticks, h⟩
    rcases Outcome.map_eq_ok_iff.mp h with ⟨plain, hticks, _⟩
    exact ⟨plain, hticks⟩
  · intro ⟨plain, hticks⟩
    exact ⟨_, Outcome.map_eq_ok_iff.mpr ⟨plain, hticks, rfl⟩⟩

theorem WellTimed.instant_nonneg {score : Score} (hscore : score.WellTimed) (unit : Nat)
    {s : StringId} {n : Note} (hn : n ∈ (score.timeline s).notes) : 0 <= n.instant unit :=
  Int.mul_nonneg (hscore.starts s n hn).left (Int.natCast_nonneg unit)

theorem WellTimed.plays_first {score : Score} (hscore : score.WellTimed) (unit : Nat)
    {s : StringId} {n : Note} (hn : n ∈ (score.timeline s).notes) :
    exists r earlier m, score.Plays r earlier m ∧ m.instant unit = 0 := by
  rcases hscore.starts s n hn with ⟨hnonneg, hlt⟩
  rcases hscore.first (Int.lt_of_le_of_lt hnonneg hlt) with ⟨r, m, hm, hstart⟩
  rcases exists_plays hm with ⟨earlier, hplays⟩
  refine ⟨r, earlier, m, hplays, ?_⟩
  rw [Note.instant, hstart, Int.zero_mul]

theorem Feasible.playable {score : Score} (hscore : score.WellTimed) {l : Latencies}
    {unit : Nat} (h : score.Feasible l unit) : score.Playable l unit := by
  apply playable_iff.mpr
  intro s earlier n hn
  have hnonneg := hscore.instant_nonneg unit hn.mem
  -- The note at time 0 bounds all other times from both sides.
  rcases hscore.plays_first unit hn.mem with ⟨r, before, first, hfirst, hzero⟩
  have hahead := h.spans s earlier n r before first hn hfirst
  have hback := h.spans r before first s earlier n hfirst hn
  rw [hzero] at hahead hback
  refine ⟨h.reaches s earlier n hn, ?_, ?_, ?_⟩
  · unfold Representable
    omega
  · show Representable (n.instant unit - n.lead l earlier)
    unfold Representable
    omega
  · intro last hlast
    rcases Option.map_eq_some_iff.mp hlast with ⟨m, hm, rfl⟩
    rcases List.getLast?_eq_some_iff.mp hm with ⟨front, rfl⟩
    have hearlier := hn.mem_of_earlier (List.mem_append_right front List.mem_cons_self)
    have hafter := hscore.instant_nonneg unit hearlier
    have hsettles := h.settles s front m n hn
    refine ⟨?_, hsettles⟩
    unfold Representable
    omega

theorem WellTimed.feasible_iff {score : Score} (hscore : score.WellTimed)
    {l : Latencies} {unit : Nat} :
    score.Feasible l unit <->
      score.Playable l unit ∧ forall c, c ∈ score.calls l unit ->
        Representable (c.time - Call.origin (score.calls l unit)) := by
  constructor
  · intro h
    have hplayable := h.playable hscore
    refine ⟨hplayable, ?_⟩
    intro c hc
    have horigin := Call.origin_le hc
    rcases Call.exists_first (List.ne_nil_of_mem hc) with ⟨first, hfirst, htime⟩
    rcases hplayable.plays_of_call hc with ⟨r, before, m, hm, _, hend⟩
    rcases hplayable.plays_of_call hfirst with ⟨s, earlier, n, hn, hbegin, _⟩
    have hspans := h.spans r before m s earlier n hm hn
    unfold Representable
    omega
  · intro ⟨hplayable, hrep⟩
    constructor
    · intro s earlier n hn
      exact (playable_iff.mp hplayable s earlier n hn).reaches
    · intro s earlier m n hn
      have hbegins := (playable_iff.mp hplayable s (earlier ++ [m]) n hn).begins
      exact (hbegins.settled _ (Note.lastInstant_append unit earlier m)).right
    · intro r before m s earlier n hm hn
      rcases (hplayable.calls_of_plays hm).right with ⟨c, hc, hattack⟩
      rcases (hplayable.calls_of_plays hn).left with ⟨first, hfirst, hbegin⟩
      have horigin := Call.origin_le hfirst
      have hbound := (hrep c hc).right
      omega

/--
A score that was read can be scheduled if and only if it is feasible, whatever its
brushes and their policy.
-/
theorem schedule_succeeds_iff_feasible {detect : Bool} {text : List Char} {score : Score}
    (h : Score.read detect text = .ok score) (l : Latencies) (tempo : Tempo)
    (policy : BrushPolicy) :
    (exists ticks, score.schedule l tempo policy = .ok ticks) <->
      score.Feasible l tempo.unit := by
  have hscore := wellTimed_read h
  exact (hscore.schedule_ok_iff l tempo policy).trans hscore.feasible_iff.symm

theorem feasible_sample :
    sample.Feasible Latencies.sample Tempo.standard.unit ∧
      ¬ sample.Feasible { Latencies.sample with edges := [] } Tempo.standard.unit := by
  constructor
  · apply (schedule_succeeds_iff_feasible read_sampleText _ _ .replace).mp
    have hsome :
        (sample.schedule Latencies.sample Tempo.standard .replace).toOption.isSome := by
      decide +kernel
    rcases Option.isSome_iff_exists.mp hsome with ⟨ticks, hticks⟩
    exact ⟨ticks, Outcome.toOption_eq_some_iff.mp hticks⟩
  · intro hfeasible
    rcases (schedule_succeeds_iff_feasible read_sampleText _ _ .replace).mpr hfeasible with
      ⟨ticks, hticks⟩
    have hnone : (sample.schedule { Latencies.sample with edges := [] } Tempo.standard
        .replace).toOption = none := by
      decide +kernel
    rw [Outcome.toOption_eq_some_iff.mpr hticks] at hnone
    cases hnone

end Score
end Plectrum

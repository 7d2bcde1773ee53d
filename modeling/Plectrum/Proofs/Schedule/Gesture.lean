import Mathlib.Data.List.Infix
import Plectrum.Proofs.Schedule.Feasibility
import Plectrum.Proofs.Schedule.Playback

/-!
# Gestures

The gesture for a note is all that its string is told for it: it may release the
string, move, and press, and then comes the attack.  The latencies fix the times within
a gesture.  The attacks are as far apart as the notes, and no gesture begins before the
string has settled after every attack before it.
-/

namespace Plectrum

structure Gesture where
  release : Option Int
  move : Option (Int × Position)
  press : Option Int
  attack : Int

namespace Gesture

def cues (g : Gesture) : List Cue :=
  (g.release.map (fun time => ⟨time, .release⟩)).toList ++
    (g.move.map (fun move => ⟨move.1, .move move.2⟩)).toList ++
      (g.press.map (fun time => ⟨time, .press⟩)).toList ++ [⟨g.attack, .attack⟩]

/-- Whether a gesture takes the times that the mechanics need for a note. -/
structure Timed (l : Latencies) (earlier : List Note) (n : Note) (g : Gesture) : Prop where
  press : forall time, g.press = some time -> time + l.press.ms = g.attack
  move : forall time target, g.move = some (time, target) ->
    target = n.position ∧ exists travel press,
      l.travel? (Finger.leftBy earlier).position target = some travel ∧
        g.press = some press ∧ time + travel.ms = press
  release : forall time, g.release = some time ->
    (n.position = Position.openString ∧ g.move = none ∧
        time + l.release.ms = g.attack) ∨
      (n.position ≠ Position.openString ∧ exists start target,
        g.move = some (start, target) ∧ time + l.release.ms = start)

end Gesture

namespace Finger

def gesture (f : Finger) (l : Latencies) (attack : Int) (target : Position) : Gesture :=
  if target = Position.openString then
    { release := if f.pressed then some (attack - l.release.ms) else none
      move := none
      press := none
      attack := attack }
  else if target = f.position then
    { release := none
      move := none
      press := if f.pressed then none else some (attack - l.press.ms)
      attack := attack }
  else
    let start := attack - l.press.ms - f.travelTime l target
    { release := if f.pressed then some (start - l.release.ms) else none
      move := some (start, target)
      press := some (attack - l.press.ms)
      attack := attack }

theorem attack_gesture (f : Finger) (l : Latencies) (attack : Int) (target : Position) :
    (f.gesture l attack target).attack = attack := by
  unfold gesture
  split
  · rfl
  · split <;> rfl

theorem cues_gesture {f : Finger} {l : Latencies} {target : Position}
    {before : List Action} (h : f.preparation l target = .ok before) (attack : Int) :
    (f.gesture l attack target).cues =
      before.reverse.map (Cue.ofAction attack) ++ [⟨attack, .attack⟩] := by
  rcases preparation_cases h with
    ⟨hopen, rfl⟩ | ⟨hopen, hsame, rfl⟩ | ⟨hopen, hother, t, ht, rfl⟩
  · rw [gesture, if_pos hopen, reverse_releaseAhead]
    cases hpressed : f.pressed <;> simp [Gesture.cues, releaseAhead, hpressed, Cue.ofAction]
    rfl
  · rw [gesture, if_neg hopen, if_pos hsame, reverse_pressAhead]
    cases hpressed : f.pressed <;> simp [Gesture.cues, pressAhead, hpressed, Cue.ofAction]
    rfl
  · rw [gesture, if_neg hopen, if_neg hother]
    cases hpressed : f.pressed <;>
      simp [Gesture.cues, releaseAhead, hpressed, Cue.ofAction, travelTime, ht] <;> omega

theorem timed_gesture {l : Latencies} {earlier : List Note} {n : Note}
    (h : (leftBy earlier).Reaches l n.position) (attack : Int) :
    ((leftBy earlier).gesture l attack n.position).Timed l earlier n := by
  rcases reaches_iff.mp h with ⟨before, hbefore⟩
  rcases preparation_cases hbefore with
    ⟨hopen, _⟩ | ⟨hopen, hsame, _⟩ | ⟨hopen, hother, t, ht, _⟩
  · rw [gesture, if_pos hopen]
    constructor
    · intro time htime
      cases htime
    · intro time target hmove
      cases hmove
    · intro time htime
      rcases Option.ite_some_none_eq_some.mp htime with ⟨_, rfl⟩
      exact Or.inl ⟨hopen, rfl, Int.sub_add_cancel attack _⟩
  · rw [gesture, if_neg hopen, if_pos hsame]
    constructor
    · intro time htime
      rcases Option.ite_none_left_eq_some.mp htime with ⟨_, htime⟩
      injection htime with htime
      rw [<- htime]
      exact Int.sub_add_cancel attack _
    · intro time target hmove
      cases hmove
    · intro time htime
      cases htime
  · rw [gesture, if_neg hopen, if_neg hother]
    constructor
    · intro time htime
      injection htime with htime
      rw [<- htime]
      exact Int.sub_add_cancel attack _
    · intro time target hmove
      injection hmove with hmove
      injection hmove with htime htarget
      subst htime htarget
      refine ⟨rfl, t, _, ht, rfl, ?_⟩
      rw [travelTime, ht]
      exact Int.sub_add_cancel _ _
    · intro time htime
      rcases Option.ite_some_none_eq_some.mp htime with ⟨_, rfl⟩
      exact Or.inr ⟨hopen, _, _, rfl, Int.sub_add_cancel _ _⟩

end Finger

namespace Note

def gesture (l : Latencies) (unit : Nat) (origin : Int) (earlier : List Note) (n : Note) :
    Gesture :=
  (Finger.leftBy earlier).gesture l (n.instant unit - origin) n.position

end Note

namespace Performance

variable {l : Latencies} {unit : Nat}

theorem AllPlayable.countedFrom_chronicle (origin : Int) (notes : List Note) :
    forall earlier : List Note,
      AllPlayable l unit (Finger.leftBy earlier) (Note.lastInstant unit earlier) notes ->
        ((Finger.leftBy earlier).chronicle l unit notes).map (Cue.countedFrom origin) =
          ((notes.inits.map (fun passed => earlier ++ passed)).zip notes).flatMap
            (fun turn => (turn.2.gesture l unit origin turn.1).cues) := by
  induction notes with
  | nil =>
      intro earlier _
      rfl
  | cons n rest ih =>
      intro earlier ⟨hplayable, hall⟩
      rcases Finger.reaches_iff.mp hplayable.reaches with ⟨before, hbefore⟩
      rw [<- Finger.leftBy_append, <- Note.lastInstant_append] at hall
      have hcounted : Cue.countedFrom origin ∘ Cue.ofAction (n.instant unit) =
          Cue.ofAction (n.instant unit - origin) := by
        funext a
        show Cue.mk (n.instant unit + a.offset - origin) a.operation =
          Cue.mk (n.instant unit - origin + a.offset) a.operation
        rw [Int.sub_eq_add_neg, Int.add_right_comm, <- Int.sub_eq_add_neg]
      have hpassed : (fun passed => earlier ++ passed) ∘ (fun passed => n :: passed) =
          fun passed => (earlier ++ [n]) ++ passed := by
        funext passed
        exact List.append_cons earlier n passed
      rw [Finger.chronicle_cons hbefore, <- Finger.leftBy_append, List.map_append,
        List.map_map, hcounted, List.map_cons, ih _ hall, List.inits_cons, List.map_cons,
        List.map_map, hpassed, List.zip_cons_cons, List.flatMap_cons, List.append_nil,
        Note.gesture, Finger.cues_gesture hbefore, List.append_assoc]
      rfl

end Performance

namespace Note

theorem attack_gesture_eq (l : Latencies) (unit : Nat) (origin : Int) (earlier : List Note)
    (n : Note) : (n.gesture l unit origin earlier).attack = n.instant unit - origin :=
  Finger.attack_gesture _ l _ _

theorem begin_le_of_mem_gesture {l : Latencies} {unit : Nat} {origin : Int}
    {earlier : List Note} {n : Note} (h : (Finger.leftBy earlier).Reaches l n.position)
    {cue : Cue} (hcue : cue ∈ (n.gesture l unit origin earlier).cues) :
    n.instant unit - n.lead l earlier - origin <= cue.time := by
  rcases Finger.reaches_iff.mp h with ⟨before, hbefore⟩
  rw [gesture, Finger.cues_gesture hbefore] at hcue
  cases List.mem_append.mp hcue with
  | inl hprepares =>
      rcases List.mem_map.mp hprepares with ⟨a, ha, rfl⟩
      have hoffset := Finger.offset_of_mem_preparation hbefore (List.mem_reverse.mp ha)
      show _ <= n.instant unit - origin + a.offset
      unfold lead
      omega
  | inr hattack =>
      rw [List.mem_singleton.mp hattack]
      show _ <= n.instant unit - origin
      omega

end Note

namespace Score

theorem Plays.instant_le {score : Score} {s : StringId} {earlier : List Note} {k n m : Note}
    (h : score.Plays s (earlier ++ [k]) n) (hm : m ∈ earlier ++ [k]) (unit : Nat) :
    m.instant unit <= k.instant unit := by
  have hstart : m.start <= k.start := by
    cases List.mem_append.mp hm with
    | inl hearlier => exact Int.le_of_lt (h.of_concat.before hearlier)
    | inr hk => exact Int.le_of_eq (congrArg Note.start (List.mem_singleton.mp hk))
  exact Int.mul_le_mul_of_nonneg_right hstart (Int.natCast_nonneg unit)

/-- The settling after the last attack is the end of all settling before it. -/
theorem Playable.settled {score : Score} {l : Latencies} {unit : Nat}
    (h : score.Playable l unit) {s : StringId} {earlier : List Note} {n m : Note}
    (hn : score.Plays s earlier n) (hm : m ∈ earlier) :
    m.instant unit + l.settle.ms <= n.instant unit - n.lead l earlier := by
  have hbegins := (playable_iff.mp h s earlier n hn).begins
  rcases List.eq_nil_or_concat earlier with hnil | ⟨front, k, hconcat⟩
  · rw [hnil] at hm
    cases hm
  · rw [List.concat_eq_append] at hconcat
    subst hconcat
    have hsettled := (hbegins.settled _ (Note.lastInstant_append unit front k)).right
    exact Int.le_trans (Int.add_le_add_right (hn.instant_le hm unit) _) hsettled

/--
What a schedule asks of a string is one gesture after the other, one for each note.
The latencies fix the times within a gesture; a gesture begins when the string has
settled after all attacks before; and the attacks of any two notes are as far apart as
the notes are.
-/
theorem schedule_keeps_time {detect : Bool} {text : List Char} {score : Score}
    (hread : Score.read detect text = .ok score) {policy : BrushPolicy}
    (hpolicy : detect = false ∨ policy = .append) {l : Latencies} {tempo : Tempo}
    {ticks : List Tick} (h : score.schedule l tempo policy = .ok ticks) :
    exists gesture : StringId -> List Note -> Note -> Gesture,
      (forall s, Tick.cuesOn s ticks =
        ((score.timeline s).notes.inits.zip (score.timeline s).notes).flatMap
          (fun turn => (gesture s turn.1 turn.2).cues)) ∧
      (forall s earlier n, score.Plays s earlier n ->
        (gesture s earlier n).Timed l earlier n) ∧
      (forall s earlier m between n, score.Plays s (earlier ++ m :: between) n ->
        forall cue, cue ∈ (gesture s (earlier ++ m :: between) n).cues ->
          (gesture s earlier m).attack + l.settle.ms <= cue.time) ∧
      forall r before m s earlier n, score.Plays r before m -> score.Plays s earlier n ->
        (gesture s earlier n).attack - (gesture r before m).attack =
          (n.start - m.start) * tempo.unit := by
  have hbrushes := no_replacing_brush hread hpolicy
  have hplayable := playable_of_schedule h
  refine ⟨fun _ earlier n => n.gesture l tempo.unit
    (Call.origin (score.allCalls l tempo.unit)) earlier, ?_, ?_, ?_, ?_⟩
  · intro s
    rw [cuesOn_schedule hbrushes h s]
    have hturns := (hplayable s).countedFrom_chronicle
      (Call.origin (score.allCalls l tempo.unit)) (score.timeline s).notes []
    simp only [List.nil_append, List.map_id'] at hturns
    exact hturns
  · intro s earlier n hn
    exact Finger.timed_gesture (playable_iff.mp hplayable s earlier n hn).reaches _
  · intro s earlier m between n hn cue hcue
    have hbegins :=
      Note.begin_le_of_mem_gesture (playable_iff.mp hplayable s _ n hn).reaches hcue
    have hsettled := hplayable.settled hn (List.mem_append_right earlier List.mem_cons_self)
    rw [Note.attack_gesture_eq]
    omega
  · intro r before m s earlier n _ _
    rw [Note.attack_gesture_eq, Note.attack_gesture_eq, Note.instant, Note.instant,
      Int.sub_mul]
    omega

theorem sample_keeps_time :
    exists ticks,
      sample.schedule Latencies.sample Tempo.standard .append = .ok ticks ∧
        Tick.cuesOn ⟨0⟩ ticks =
          [⟨0, .move 2⟩, ⟨20, .press⟩, ⟨25, .attack⟩, ⟨3985, .release⟩, ⟨3990, .move 3⟩,
            ⟨4020, .press⟩, ⟨4025, .attack⟩] ∧
        exists gesture : StringId -> List Note -> Note -> Gesture,
          (forall s, Tick.cuesOn s ticks =
            ((sample.timeline s).notes.inits.zip (sample.timeline s).notes).flatMap
              (fun turn => (gesture s turn.1 turn.2).cues)) ∧
          forall s earlier n, sample.Plays s earlier n ->
            (gesture s earlier n).Timed Latencies.sample earlier n := by
  have hcues :
      (sample.schedule Latencies.sample Tempo.standard .append).toOption.map
        (Tick.cuesOn ⟨0⟩) =
          some [⟨0, .move 2⟩, ⟨20, .press⟩, ⟨25, .attack⟩, ⟨3985, .release⟩,
            ⟨3990, .move 3⟩, ⟨4020, .press⟩, ⟨4025, .attack⟩] := by
    decide +kernel
  rcases Option.map_eq_some_iff.mp hcues with ⟨ticks, hsome, hcues⟩
  have h := Outcome.toOption_eq_some_iff.mp hsome
  rcases schedule_keeps_time read_sampleText (Or.inr rfl) h with
    ⟨gesture, hgestures, htimed, _, _⟩
  exact ⟨ticks, h, hcues, gesture, hgestures, htimed⟩

end Score
end Plectrum

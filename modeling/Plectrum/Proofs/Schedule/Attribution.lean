import Plectrum.Proofs.Schedule.Failure

/-!
# Notes at fault

A note is at fault if its attack is too late to be represented, if its position cannot be
reached, or if the string has not settled before one of the commands for it.  The error of a
score names the first note at fault of the first string that has one.  If no note is at
fault, a command is too far behind the first one, and the error names the earliest of these.
-/

namespace Plectrum

def latestTime : Int := 9223372036854775807

namespace Operation

def turn : Operation -> Nat
  | press => 0
  | move _ => 1
  | release => 2
  | attack => 3

end Operation

namespace Finger

/-- A preparation takes no longer than a press, a travel and a release. -/
theorem lead_le (f : Finger) (l : Latencies) (target : Position) :
    f.lead l target <= 3 * wordMax := by
  have hpress := l.press.ms_le
  have hrelease : f.releaseTime l <= wordMax := by
    unfold releaseTime
    split
    · exact l.release.ms_le
    · exact Nat.zero_le _
  have htravel : f.travelTime l target <= wordMax := by
    unfold travelTime
    cases l.travel? f.position target with
    | none => exact Nat.zero_le _
    | some t => exact t.ms_le
  unfold lead
  split
  · omega
  · split
    · split
      · exact Nat.zero_le _
      · omega
    · omega

theorem representable_of_mem_play {f next : Finger} {l : Latencies} {target : Position}
    {actions : List Action} (h : f.play l target = .ok (actions, next)) {a : Action}
    (ha : a ∈ actions) {attack : Int} (hattack : 0 <= attack) (hle : attack <= latestTime) :
    Representable (attack + a.offset) := by
  have hoffset := offset_of_mem_play h ha
  have hlead := f.lead_le l target
  unfold wordMax at hlead
  unfold latestTime at hle
  unfold Representable
  omega

end Finger

namespace Note

def Unsettled (l : Latencies) (unit : Nat) (earlier : List Note) (time : Int) : Prop :=
  exists m, earlier.getLast? = some m ∧ time < m.instant unit + l.settle.ms

inductive AtFault (l : Latencies) (unit : Nat) (earlier : List Note) (n : Note) : Prop where
  | late : latestTime < n.instant unit -> AtFault l unit earlier n
  | unreached : ¬ (Finger.leftBy earlier).Reaches l n.position -> AtFault l unit earlier n
  | early {actions : List Action} {next : Finger} {a : Action} :
      (Finger.leftBy earlier).play l n.position = .ok (actions, next) -> a ∈ actions ->
        Unsettled l unit earlier (n.instant unit + a.offset) -> AtFault l unit earlier n

end Note

namespace Performance

/-!
# One note
-/

section Nonnegative

variable {l : Latencies} {unit : Nat} {earlier : List Note} {n : Note}

theorem timely_iff_not_unsettled (hearlier : forall m, m ∈ earlier -> 0 <= m.instant unit)
    {time : Int} (htime : Representable time) :
    Timely l (Note.lastInstant unit earlier) time <-> ¬ Note.Unsettled l unit earlier time := by
  constructor
  · rintro h ⟨m, hm, hlt⟩
    have hsettled := (h.settled _ (Note.lastInstant_of_getLast? unit hm)).right
    exact absurd hlt (Int.not_lt.mpr hsettled)
  · intro h
    refine ⟨htime, ?_⟩
    intro last hlast
    rcases Option.map_eq_some_iff.mp hlast with ⟨m, hm, rfl⟩
    have hsettled := Int.not_lt.mp fun hlt => h ⟨m, hm, hlt⟩
    have hnonneg := hearlier m (List.mem_of_getLast? hm)
    exact ⟨⟨by omega, Int.le_trans hsettled htime.right⟩, hsettled⟩

variable (hearlier : forall m, m ∈ earlier -> 0 <= m.instant unit) (hn : 0 <= n.instant unit)
include hearlier hn

theorem playable_iff_not_atFault :
    Playable l unit (Finger.leftBy earlier) (Note.lastInstant unit earlier) n <->
      ¬ n.AtFault l unit earlier := by
  constructor
  · intro h hfault
    cases hfault with
    | late hlate => exact absurd h.attack.right (Int.not_le.mpr hlate)
    | unreached hreaches => exact hreaches h.reaches
    | early hplay ha hunsettled =>
        have htimely := (timely_actions_iff hplay h.attack).mpr h.begins _ ha
        exact (timely_iff_not_unsettled hearlier htimely.representable).mp htimely hunsettled
  · intro h
    have hle : n.instant unit <= latestTime := Int.not_lt.mp fun hlate => h (.late hlate)
    have hreaches := Decidable.not_not.mp fun hno => h (.unreached hno)
    have hattack : Representable (n.instant unit) := ⟨Int.le_trans (by decide) hn, hle⟩
    rcases hreaches.exists_play with ⟨before, hplay⟩
    refine ⟨hreaches, hattack, (timely_actions_iff hplay hattack).mp ?_⟩
    intro a ha
    have hrep := Finger.representable_of_mem_play hplay ha hn hle
    exact (timely_iff_not_unsettled hearlier hrep).mpr fun hun => h (.early hplay ha hun)

end Nonnegative

theorem allPlayable_iff_not_atFault {l : Latencies} {unit : Nat} {notes : List Note}
    (hnotes : forall n, n ∈ notes -> 0 <= n.instant unit) :
    AllPlayable l unit {} none notes <->
      forall earlier n later, notes = earlier ++ n :: later -> ¬ n.AtFault l unit earlier := by
  refine (allPlayable_iff notes []).trans ?_
  refine forall₄_congr fun earlier n later hsplit => ?_
  rw [hsplit] at hnotes
  exact playable_iff_not_atFault (fun m hm => hnotes m (List.mem_append_left _ hm))
    (hnotes n (List.mem_append_right _ List.mem_cons_self))

end Performance

/-!
# The first time that is too far from the origin
-/

namespace Score

/-!
# The first note at fault
-/

theorem Plays.nonneg {score : Score} (hscore : score.WellTimed) (unit : Nat) {s : StringId}
    {earlier : List Note} {n : Note} (h : score.Plays s earlier n) :
    (forall m, m ∈ earlier -> 0 <= m.instant unit) ∧ 0 <= n.instant unit :=
  ⟨fun _ hm => hscore.instant_nonneg unit (h.mem_of_earlier hm),
    hscore.instant_nonneg unit h.mem⟩

theorem Plays.exists_between {score : Score} {s : StringId} {earlier before : List Note}
    {n m : Note} (hn : score.Plays s earlier n) (hm : score.Plays s before m)
    (hbefore : m.Before n) : exists between, earlier = before ++ m :: between := by
  have hnot : ¬ n.Before m := Int.lt_asymm hbefore
  rcases hn with ⟨later, hnotes⟩
  rcases id hm with ⟨rest, hsplit⟩
  rcases List.append_eq_append_iff.mp (hnotes.symm.trans hsplit) with
    ⟨between, hfront, hback⟩ | ⟨between, hfront, hback⟩
  · cases between with
    | nil =>
        injection hback with hhead _
        rw [hhead] at hbefore
        exact absurd hbefore (Int.lt_irrefl _)
    | cons k between =>
        injection hback with hhead _
        have hmem : n ∈ before := by
          rw [hfront, hhead]
          exact List.mem_append_right earlier List.mem_cons_self
        exact absurd (hm.before hmem) hnot
  · cases between with
    | nil =>
        injection hback with hhead _
        rw [hhead] at hbefore
        exact absurd hbefore (Int.lt_irrefl _)
    | cons k between =>
        injection hback with hhead _
        exact ⟨between, hhead ▸ hfront⟩

section WellTimed

variable {score : Score} (hscore : score.WellTimed)
include hscore

theorem WellTimed.playable_iff_not_atFault {l : Latencies} {unit : Nat} :
    score.Playable l unit <->
      forall s earlier n, score.Plays s earlier n -> ¬ n.AtFault l unit earlier := by
  rw [playable_iff]
  refine forall₄_congr fun s earlier n hn => ?_
  rcases hn.nonneg hscore unit with ⟨hearlier, hnonneg⟩
  exact Performance.playable_iff_not_atFault hearlier hnonneg

theorem WellTimed.allPlayable_iff {l : Latencies} {unit : Nat} {s : StringId} :
    Performance.AllPlayable l unit {} none (score.timeline s).notes <->
      forall earlier n, score.Plays s earlier n -> ¬ n.AtFault l unit earlier := by
  rw [Performance.allPlayable_iff_not_atFault fun n hn => hscore.instant_nonneg unit hn]
  constructor
  · intro h earlier n ⟨later, hnotes⟩
    exact h earlier n later hnotes
  · intro h earlier n later hnotes
    exact h earlier n ⟨later, hnotes⟩

theorem Plays.allPlayable_iff {l : Latencies} {unit : Nat} {s : StringId}
    {earlier : List Note} {n : Note} (hn : score.Plays s earlier n) :
    Performance.AllPlayable l unit {} none earlier <->
      forall before m, score.Plays s before m -> m.AtFault l unit before ->
        n.start <= m.start := by
  rw [Performance.allPlayable_iff_not_atFault (hn.nonneg hscore unit).left]
  constructor
  · intro h before m hm hfault
    by_contra hlt
    rcases hn.exists_between hm (Int.not_le.mp hlt) with ⟨between, hsplit⟩
    exact h before m between hsplit hfault
  · intro h before m between hsplit hfault
    rcases id hn with ⟨later, hnotes⟩
    have hm : score.Plays s before m := by
      refine ⟨between ++ n :: later, ?_⟩
      rw [hnotes, hsplit, List.append_assoc, List.cons_append]
    have hmem : m ∈ earlier := by
      rw [hsplit]
      exact List.mem_append_right before List.mem_cons_self
    exact absurd (h before m hm hfault) (Int.not_le.mpr (hn.before hmem))

end WellTimed

end Score
end Plectrum

import Plectrum.Proofs.Instrument.Preparation
import Plectrum.Proofs.Outcome
import Plectrum.Schedule.Performance

/-!
# Playable notes

A performance succeeds if and only if each of its notes is playable: the finger
reaches the position, the attack and the first action for it have representable
times, and the string has settled by then.  A performance that succeeds tells the
string the actions for every note in turn.
-/

namespace Plectrum

namespace Note

def instant (unit : Nat) (n : Note) : Int :=
  n.start * unit

end Note

theorem Representable.between {first time last : Int} (hfirst : Representable first)
    (hlast : Representable last) (hafter : first <= time) (hbefore : time <= last) :
    Representable time :=
  ⟨Int.le_trans hfirst.left hafter, Int.le_trans hbefore hlast.right⟩

namespace Cue

def ofAction (attack : Int) (a : Action) : Cue :=
  ⟨attack + a.offset, a.operation⟩

end Cue

namespace Finger

/--
What a string is told to do for its notes: for each note in turn the actions that
`play` gives.  Notes that the finger cannot reach are left out.
-/
def cuesFor (f : Finger) (l : Latencies) (unit : Nat) : List Note -> List Cue
  | [] => []
  | n :: rest =>
      match f.play l n.position with
      | .ok (actions, next) =>
          actions.map (Cue.ofAction (n.instant unit)) ++ next.cuesFor l unit rest
      | .error _ => f.cuesFor l unit rest

@[simp] theorem cuesFor_nil (f : Finger) (l : Latencies) (unit : Nat) :
    f.cuesFor l unit [] = [] := rfl

theorem cuesFor_cons {f : Finger} {l : Latencies} {n : Note} {before : List Action}
    (h : f.preparation l n.position = .ok before) (unit : Nat) (rest : List Note) :
    f.cuesFor l unit (n :: rest) =
      before.map (Cue.ofAction (n.instant unit)) ++
        ⟨n.instant unit, .attack⟩ :: (f.after n.position).cuesFor l unit rest := by
  have hplay := play_eq_ok_iff.mpr ⟨before, h, rfl, rfl⟩
  simp [cuesFor, hplay, Cue.ofAction]

end Finger

namespace Performance

/-!
# One note
-/

structure Timely (l : Latencies) (lastAttack : Option Int) (time : Int) : Prop where
  representable : Representable time
  settled : forall last, lastAttack = some last ->
    Representable (last + l.settle.ms) ∧ last + l.settle.ms <= time

structure Playable (l : Latencies) (unit : Nat) (f : Finger) (lastAttack : Option Int)
    (n : Note) : Prop where
  reaches : f.Reaches l n.position
  attack : Representable (n.instant unit)
  begins : Timely l lastAttack (n.instant unit - f.lead l n.position)

theorem Timely.mono {l : Latencies} {lastAttack : Option Int} {time later : Int}
    (h : Timely l lastAttack time) (hle : time <= later) (hlater : Representable later) :
    Timely l lastAttack later := by
  refine ⟨hlater, ?_⟩
  intro last hlast
  rcases h.settled last hlast with ⟨hbusy, hsettled⟩
  exact ⟨hbusy, Int.le_trans hsettled hle⟩

theorem instant_eq_ok_iff {l : Latencies} {s : StringId} {n : Note}
    {lastAttack : Option Int} {attack time : Int} {a : Action} :
    instant l s n lastAttack attack a = .ok time <->
      Timely l lastAttack (attack + a.offset) ∧ time = attack + a.offset := by
  unfold instant
  rw [Outcome.bind_eq_ok_iff]
  constructor
  · intro ⟨t, ht, h⟩
    rcases checked_eq_ok_iff.mp ht with ⟨hrep, rfl⟩
    cases lastAttack with
    | none =>
        injection h with h
        exact ⟨⟨hrep, (fun _ hnone => by cases hnone)⟩, h.symm⟩
    | some last =>
        rcases Outcome.bind_eq_ok_iff.mp h with ⟨busy, hbusy, hrest⟩
        rcases checked_eq_ok_iff.mp hbusy with ⟨hbusyRep, rfl⟩
        split at hrest
        · cases hrest
        · rename_i hle
          injection hrest with hrest
          refine ⟨⟨hrep, ?_⟩, hrest.symm⟩
          intro last' hlast
          injection hlast with hlast
          subst hlast
          exact ⟨hbusyRep, Int.not_lt.mp hle⟩
  · intro ⟨htimely, htime⟩
    refine ⟨attack + a.offset, checked_eq_ok_iff.mpr ⟨htimely.representable, rfl⟩, ?_⟩
    cases lastAttack with
    | none => exact congrArg Except.ok htime.symm
    | some last =>
        rcases htimely.settled last rfl with ⟨hbusy, hle⟩
        refine Outcome.bind_eq_ok_iff.mpr
          ⟨last + l.settle.ms, checked_eq_ok_iff.mpr ⟨hbusy, rfl⟩, ?_⟩
        rw [if_neg (Int.not_lt.mpr hle), htime]
        rfl

theorem cue_eq_ok_iff {l : Latencies} {s : StringId} {n : Note} {lastAttack : Option Int}
    {attack : Int} {cues told : List Cue} {a : Action} :
    cue l s n lastAttack attack cues a = .ok told <->
      Timely l lastAttack (attack + a.offset) ∧ told = Cue.ofAction attack a :: cues := by
  unfold cue
  constructor
  · intro h
    split at h
    · rename_i time htime
      injection h with h
      rcases instant_eq_ok_iff.mp htime with ⟨htimely, rfl⟩
      exact ⟨htimely, h.symm⟩
    · cases h
  · intro ⟨htimely, htold⟩
    rw [instant_eq_ok_iff.mpr ⟨htimely, rfl⟩, htold]
    rfl

theorem foldlM_cue_eq_ok_iff {l : Latencies} {s : StringId} {n : Note}
    {lastAttack : Option Int} {attack : Int} (actions : List Action)
    {cues result : List Cue} :
    actions.foldlM (cue l s n lastAttack attack) cues = .ok result <->
      (forall a, a ∈ actions -> Timely l lastAttack (attack + a.offset)) ∧
        result = (actions.map (Cue.ofAction attack)).reverse ++ cues := by
  rw [<- List.foldl_flip_cons_eq_append]
  apply Outcome.foldlM_eq_ok_iff
  intro told a next
  exact cue_eq_ok_iff

theorem timely_actions_iff {l : Latencies} {f next : Finger} {target : Position}
    {actions : List Action} (hplay : f.play l target = .ok (actions, next))
    {lastAttack : Option Int} {attack : Int} (hattack : Representable attack) :
    (forall a, a ∈ actions -> Timely l lastAttack (attack + a.offset)) <->
      Timely l lastAttack (attack - f.lead l target) := by
  constructor
  · intro hall
    rcases Finger.exists_first_of_play hplay with ⟨a, ha, hoffset⟩
    have hfirst := hall a ha
    rw [hoffset] at hfirst
    exact hfirst
  · intro hbegins a ha
    rcases Finger.offset_of_mem_play hplay ha with ⟨hlead, hoffset⟩
    have hafter : attack - f.lead l target <= attack + a.offset := by omega
    have hbefore : attack + a.offset <= attack := by omega
    exact hbegins.mono hafter (hbegins.representable.between hattack hafter hbefore)

theorem plan_eq_ok_iff {l : Latencies} {unit : Nat} {s : StringId} {f next : Finger}
    {n : Note} {attack : Int} {actions : List Action} :
    plan l unit s f n = .ok (attack, actions, next) <->
      Representable (n.instant unit) ∧ attack = n.instant unit ∧
        f.play l n.position = .ok (actions, next) := by
  unfold plan
  rw [Outcome.bind_eq_ok_iff]
  constructor
  · intro ⟨t, ht, h⟩
    rcases checked_eq_ok_iff.mp ht with ⟨hrep, rfl⟩
    rcases Outcome.bind_eq_ok_iff.mp h with ⟨played, hplayed, hrest⟩
    injection hrest with hrest
    injection hrest with hattack hactions
    subst hactions
    exact ⟨hrep, hattack.symm, Outcome.mapError_eq_ok_iff.mp hplayed⟩
  · intro ⟨hrep, hattack, hplay⟩
    refine ⟨n.instant unit, checked_eq_ok_iff.mpr ⟨hrep, rfl⟩, ?_⟩
    refine Outcome.bind_eq_ok_iff.mpr
      ⟨(actions, next), Outcome.mapError_eq_ok_iff.mpr hplay, ?_⟩
    rw [hattack]
    rfl

def next (l : Latencies) (unit : Nat) (p : Performance) (n : Note) : Performance where
  finger := p.finger.after n.position
  lastAttack := some (n.instant unit)
  cues := (p.finger.cuesFor l unit [n]).reverse ++ p.cues

theorem play_eq_ok_iff {l : Latencies} {unit : Nat} {s : StringId} {p q : Performance}
    {n : Note} :
    play l unit s p n = .ok q <->
      Playable l unit p.finger p.lastAttack n ∧ q = p.next l unit n := by
  unfold play
  constructor
  · intro h
    split at h
    · cases h
    · rename_i attack actions finger hplan
      rcases plan_eq_ok_iff.mp hplan with ⟨hattack, rfl, hplay⟩
      rcases Finger.play_eq_ok_iff.mp hplay with ⟨before, hbefore, rfl, rfl⟩
      rcases Outcome.map_eq_ok_iff.mp h with ⟨told, htold, rfl⟩
      rcases (foldlM_cue_eq_ok_iff _).mp htold with ⟨hall, rfl⟩
      refine ⟨⟨Finger.reaches_iff.mpr ⟨before, hbefore⟩, hattack,
        (timely_actions_iff hplay hattack).mp hall⟩, ?_⟩
      rw [next, Finger.cuesFor_cons hbefore]
      simp [Cue.ofAction]
  · intro ⟨hplayable, hq⟩
    rcases Finger.reaches_iff.mp hplayable.reaches with ⟨before, hbefore⟩
    have hplay := Finger.play_eq_ok_iff.mpr ⟨before, hbefore, rfl, rfl⟩
    have hall := (timely_actions_iff hplay hplayable.attack).mpr hplayable.begins
    rw [plan_eq_ok_iff.mpr ⟨hplayable.attack, rfl, hplay⟩]
    refine Outcome.map_eq_ok_iff.mpr ⟨_, (foldlM_cue_eq_ok_iff _).mpr ⟨hall, rfl⟩, ?_⟩
    rw [hq]
    rw [next, Finger.cuesFor_cons hbefore]
    simp [Cue.ofAction]

/-!
# Notes in turn
-/

def AllPlayable (l : Latencies) (unit : Nat) (f : Finger) (lastAttack : Option Int) :
    List Note -> Prop
  | [] => True
  | n :: rest =>
      Playable l unit f lastAttack n ∧
        AllPlayable l unit (f.after n.position) (some (n.instant unit)) rest

theorem AllPlayable.attack {l : Latencies} {unit : Nat} {n : Note} {notes : List Note} :
    forall {f : Finger} {lastAttack : Option Int},
      AllPlayable l unit f lastAttack notes -> n ∈ notes ->
        Representable (n.instant unit) ∧
          ⟨n.instant unit, .attack⟩ ∈ f.cuesFor l unit notes := by
  induction notes with
  | nil =>
      intro f lastAttack _ hn
      cases hn
  | cons m rest ih =>
      intro f lastAttack ⟨hplayable, hall⟩ hn
      rcases Finger.reaches_iff.mp hplayable.reaches with ⟨before, hbefore⟩
      rw [Finger.cuesFor_cons hbefore]
      cases List.mem_cons.mp hn with
      | inl hnm =>
          subst hnm
          exact ⟨hplayable.attack, List.mem_append_right _ List.mem_cons_self⟩
      | inr hnrest =>
          rcases ih hall hnrest with ⟨hrep, hcue⟩
          exact ⟨hrep, List.mem_append_right _ (List.mem_cons_of_mem _ hcue)⟩

theorem playAll_eq_ok_iff {l : Latencies} {unit : Nat} {s : StringId} (notes : List Note) :
    forall {p q : Performance},
      playAll l unit s p notes = .ok q <->
        AllPlayable l unit p.finger p.lastAttack notes ∧
          q = notes.foldl (next l unit) p := by
  induction notes with
  | nil =>
      intro p q
      constructor
      · intro h
        injection h with h
        exact ⟨trivial, h.symm⟩
      · intro h
        rw [h.right]
        rfl
  | cons n rest ih =>
      intro p q
      unfold playAll
      rw [List.foldlM_cons, Outcome.bind_eq_ok_iff]
      constructor
      · intro ⟨mid, hmid, hrest⟩
        rcases play_eq_ok_iff.mp hmid with ⟨hplayable, rfl⟩
        rcases ih.mp hrest with ⟨hall, hq⟩
        exact ⟨⟨hplayable, hall⟩, hq⟩
      · intro ⟨⟨hplayable, hall⟩, hq⟩
        exact ⟨p.next l unit n, play_eq_ok_iff.mpr ⟨hplayable, rfl⟩, ih.mpr ⟨hall, hq⟩⟩

theorem cues_foldl_next {l : Latencies} {unit : Nat} (notes : List Note) :
    forall {p : Performance},
      AllPlayable l unit p.finger p.lastAttack notes ->
        (notes.foldl (next l unit) p).cues =
          (p.finger.cuesFor l unit notes).reverse ++ p.cues := by
  induction notes with
  | nil =>
      intro p _
      rfl
  | cons n rest ih =>
      intro p ⟨hplayable, hall⟩
      rcases Finger.reaches_iff.mp hplayable.reaches with ⟨before, hbefore⟩
      rw [List.foldl_cons, ih hall]
      simp [next, Finger.cuesFor_cons hbefore]

theorem perform_eq_ok_iff {l : Latencies} {unit : Nat} {s : StringId} {notes : List Note}
    {cues : List Cue} :
    perform l unit s notes = .ok cues <->
      AllPlayable l unit {} none notes ∧ cues = ({} : Finger).cuesFor l unit notes := by
  unfold perform
  rw [Outcome.map_eq_ok_iff]
  constructor
  · intro ⟨q, hq, hcues⟩
    rcases (playAll_eq_ok_iff notes).mp hq with ⟨hall, rfl⟩
    refine ⟨hall, ?_⟩
    rw [<- hcues, cues_foldl_next notes hall]
    simp
  · intro ⟨hall, hcues⟩
    refine ⟨_, (playAll_eq_ok_iff notes).mpr ⟨hall, rfl⟩, ?_⟩
    rw [hcues, cues_foldl_next notes hall]
    simp

end Performance
end Plectrum

import Mathlib.Data.List.Induction
import Mathlib.Data.List.Pairwise
import Plectrum.Proofs.Instrument.Preparation

/-!
# Positions in turn

A finger plays positions one after the other, and passes over those that it cannot reach.
What it does for a position depends on the positions reached before and on nothing else:
it stands at the last of them that is not open, and presses the string unless the last of
all is open.
-/

namespace Plectrum

/-!
# The actions for one attack
-/

/-- The operations of one attack come in the order of their stages. -/
def Operation.stage : Operation -> Nat
  | release => 0
  | move _ => 1
  | press => 2
  | attack => 3

namespace Action

/-- Whether times and stages agree on which of two actions comes first. -/
def SameOrder (a b : Action) : Prop :=
  (a.offset < b.offset <-> a.operation.stage < b.operation.stage) ∧
    (b.offset < a.offset <-> b.operation.stage < a.operation.stage)

instance : Std.Symm SameOrder where
  symm _ _ h := h.symm

theorem sameOrder_self (a : Action) : SameOrder a a :=
  ⟨iff_of_false (Int.lt_irrefl _) (Nat.lt_irrefl _),
    iff_of_false (Int.lt_irrefl _) (Nat.lt_irrefl _)⟩

structure Later (later earlier : Action) : Prop where
  offset : earlier.offset < later.offset
  stage : earlier.operation.stage < later.operation.stage

theorem Later.sameOrder {later earlier : Action} (h : Later later earlier) :
    SameOrder later earlier :=
  ⟨iff_of_false (Int.lt_asymm h.offset) (Nat.lt_asymm h.stage),
    iff_of_true h.offset h.stage⟩

structure Prepared (actions : List Action) : Prop where
  last : actions.getLast? = some ⟨0, .attack⟩
  once : (actions.map Action.operation).count .attack = 1
  ahead : forall a, a ∈ actions -> a.operation ≠ .attack -> a.offset < 0
  apart : (actions.map Action.offset).Nodup
  staged : forall a, a ∈ actions -> forall b, b ∈ actions ->
    (a.offset < b.offset <-> a.operation.stage < b.operation.stage)

end Action

namespace Finger

open Plectrum.Action (Later Prepared)

theorem stages_preparation {f : Finger} {l : Latencies} {target : Position}
    {actions : List Action} (h : f.preparation l target = .ok actions) :
    actions.Pairwise (fun later earlier =>
      earlier.operation.stage < later.operation.stage) := by
  rcases preparation_cases h with ⟨_, rfl⟩ | ⟨_, _, rfl⟩ | ⟨_, _, t, _, rfl⟩
  · cases hpressed : f.pressed <;> simp [releaseAhead, hpressed]
  · cases hpressed : f.pressed <;> simp [pressAhead, hpressed]
  · cases hpressed : f.pressed <;> simp [releaseAhead, hpressed, Operation.stage]

theorem stage_of_mem_preparation {f : Finger} {l : Latencies} {target : Position}
    {actions : List Action} (h : f.preparation l target = .ok actions)
    {a : Action} (ha : a ∈ actions) : a.operation.stage < Operation.attack.stage := by
  have hattack := operation_of_mem_preparation h ha
  cases hoperation : a.operation with
  | attack => exact absurd hoperation hattack
  | press => decide
  | release => decide
  | move target => exact Nat.lt_of_sub_eq_succ rfl

/-- The attack is the last action of all; what prepares it is given latest first. -/
theorem later_play {f : Finger} {l : Latencies} {target : Position}
    {actions : List Action} (h : f.preparation l target = .ok actions) :
    (⟨0, .attack⟩ :: actions : List Action).Pairwise Later := by
  apply List.pairwise_cons.mpr
  constructor
  · intro a ha
    exact ⟨(offset_of_mem_preparation h ha).right, stage_of_mem_preparation h ha⟩
  · apply ((pairwise_preparation h).and (stages_preparation h)).imp
    intro later earlier hboth
    exact ⟨hboth.left, hboth.right⟩

theorem prepared_play {f next : Finger} {l : Latencies} {target : Position}
    {actions : List Action} (h : f.play l target = .ok (actions, next)) :
    Prepared actions := by
  rcases play_eq_ok_iff.mp h with ⟨before, hbefore, rfl, _⟩
  have hlater := later_play hbefore
  have hperm := List.perm_append_singleton (⟨0, .attack⟩ : Action) before
  constructor
  · exact List.getLast?_concat
  · have hnone : Operation.attack ∉ before.map Action.operation := by
      intro hmem
      rcases List.mem_map.mp hmem with ⟨a, ha, hattack⟩
      exact operation_of_mem_preparation hbefore ha hattack
    rw [List.map_append, List.count_append, List.count_eq_zero_of_not_mem hnone]
    rfl
  · intro a ha hattack
    rcases List.mem_append.mp ha with ha | ha
    · exact (offset_of_mem_preparation hbefore ha).right
    · rw [List.mem_singleton.mp ha] at hattack
      exact absurd rfl hattack
  · apply (hperm.map Action.offset).nodup_iff.mpr
    apply List.pairwise_map.mpr
    exact hlater.imp fun h => (Int.ne_of_lt h.offset).symm
  · intro a ha b hb
    have hsame := (hlater.imp Later.sameOrder).forall_of_forall
      (fun a _ => Action.sameOrder_self a)
    exact (hsame (hperm.mem_iff.mp ha) (hperm.mem_iff.mp hb)).left

/-!
# One position
-/

def step (f : Finger) (l : Latencies) (target : Position) :
    Except UnknownTravel (List Action) × Finger :=
  match f.play l target with
  | .ok (actions, next) => (.ok actions, next)
  | .error e => (.error e, f)

theorem step_cases (f : Finger) (l : Latencies) (target : Position) :
    (f.Reaches l target ∧ exists actions, f.step l target = (.ok actions, f.after target) ∧
        Prepared actions) ∨
      (¬ f.Reaches l target ∧ exists e, f.step l target = (.error e, f)) := by
  unfold step
  cases hplay : f.play l target with
  | ok played =>
      cases played with
      | mk actions next =>
          rcases play_eq_ok_iff.mp hplay with ⟨_, _, _, rfl⟩
          exact Or.inl ⟨reaches_of_play hplay, actions, rfl, prepared_play hplay⟩
  | error e =>
      refine Or.inr ⟨?_, e, rfl⟩
      intro hreaches
      rcases hreaches.exists_play with ⟨before, hreached⟩
      cases hplay.symm.trans hreached

theorem run_cons (f : Finger) (l : Latencies) (target : Position) (rest : List Position) :
    f.run l (target :: rest) = f.step l target :: (f.step l target).2.run l rest := by
  unfold step
  rw [run]
  cases f.play l target with
  | ok played => rfl
  | error e => rfl

/-!
# Runs
-/

def afterRun (f : Finger) (l : Latencies) (targets : List Position) : Finger :=
  ((f.run l targets).getLast?.map Prod.snd).getD f

def reached (f : Finger) (l : Latencies) (targets : List Position) : List Position :=
  ((targets.zip (f.run l targets)).filter (fun played => played.2.1.isOk)).map Prod.fst

theorem afterRun_cons (f : Finger) (l : Latencies) (target : Position)
    (rest : List Position) :
    f.afterRun l (target :: rest) = (f.step l target).2.afterRun l rest := by
  unfold afterRun
  rw [run_cons, List.getLast?_cons]
  cases (run (f.step l target).2 l rest).getLast? with
  | none => rfl
  | some last => rfl

theorem reached_cons (f : Finger) (l : Latencies) (target : Position)
    (rest : List Position) :
    f.reached l (target :: rest) =
      if (f.step l target).1.isOk then target :: (f.step l target).2.reached l rest
      else (f.step l target).2.reached l rest := by
  unfold reached
  rw [run_cons, List.zip_cons_cons, List.filter_cons]
  cases (f.step l target).1.isOk with
  | true => rfl
  | false => rfl

theorem run_append (l : Latencies) (back : List Position) (front : List Position) :
    forall f : Finger,
      f.run l (front ++ back) = f.run l front ++ (f.afterRun l front).run l back := by
  induction front with
  | nil => exact fun _ => rfl
  | cons target rest ih =>
      intro f
      rw [List.cons_append, run_cons, run_cons, ih, afterRun_cons]
      rfl

theorem length_run (l : Latencies) (targets : List Position) :
    forall f : Finger, (f.run l targets).length = targets.length := by
  induction targets with
  | nil => exact fun _ => rfl
  | cons target rest ih =>
      intro f
      rw [run_cons, List.length_cons, List.length_cons, ih]

/-- Positions that are not reached can be left out. -/
theorem run_reached (l : Latencies) (targets : List Position) :
    forall f : Finger,
      f.run l (f.reached l targets) =
        (f.run l targets).filter (fun played => played.1.isOk) := by
  induction targets with
  | nil => exact fun _ => rfl
  | cons target rest ih =>
      intro f
      rw [reached_cons, run_cons, List.filter_cons]
      rcases step_cases f l target with ⟨_, actions, hstep, _⟩ | ⟨_, e, hstep⟩
      · rw [hstep]
        show f.run l (target :: _) = _ :: _
        rw [run_cons, hstep, ih]
      · rw [hstep]
        exact ih f

theorem afterRun_eq_foldl (l : Latencies) (targets : List Position) :
    forall f : Finger, f.afterRun l targets = (f.reached l targets).foldl after f := by
  induction targets with
  | nil => exact fun _ => rfl
  | cons target rest ih =>
      intro f
      rw [afterRun_cons, reached_cons, ih]
      rcases step_cases f l target with ⟨_, actions, hstep, _⟩ | ⟨_, e, hstep⟩
      · rw [hstep]
        rfl
      · rw [hstep]
        rfl

/-!
# How a finger stands
-/

def standing (reached : List Position) : Finger where
  position :=
    (reached.reverse.find? (fun p => p != Position.openString)).getD Position.rest
  pressed := (reached.getLast?.map (fun p => p != Position.openString)).getD false

theorem standing_concat (reached : List Position) (p : Position) :
    standing (reached ++ [p]) = (standing reached).after p := by
  unfold standing after
  by_cases hopen : p = Position.openString
  · simp [hopen]
  · simp [hopen]

theorem standing_eq_foldl (reached : List Position) :
    standing reached = reached.foldl after {} := by
  induction reached using List.reverseRecOn with
  | nil => rfl
  | append_singleton earlier p ih =>
      rw [standing_concat, List.foldl_append, ih]
      rfl

theorem standing_ne_open (reached : List Position) :
    (standing reached).position ≠ Position.openString := by
  unfold standing
  cases hfound : reached.reverse.find? (fun p => p != Position.openString) with
  | none => exact Nat.one_ne_zero
  | some p => simpa using List.find?_some hfound

theorem afterRun_eq_standing (l : Latencies) (targets : List Position) :
    afterRun {} l targets = standing (reached {} l targets) := by
  rw [afterRun_eq_foldl, standing_eq_foldl]

/-!
# Runs by what was reached
-/

structure Plays (f : Finger) (l : Latencies) (target : Position)
    (outcome : Except UnknownTravel (List Action)) : Prop where
  reached_iff : (exists actions, outcome = .ok actions) <->
    target = Position.openString ∨ target = f.position ∨
      (l.travel? f.position target).isSome = true
  prepared : forall actions, outcome = .ok actions -> Prepared actions

theorem plays_step (f : Finger) (l : Latencies) (target : Position) :
    f.Plays l target (f.step l target).1 := by
  have hreach : f.Reaches l target <->
      target = Position.openString ∨ target = f.position ∨
        (l.travel? f.position target).isSome = true := by
    unfold Reaches
    rw [<- Decidable.or_iff_not_imp_left, <- Decidable.or_iff_not_imp_left]
  rcases step_cases f l target with
    ⟨hreaches, actions, hstep, hprepared⟩ | ⟨hreaches, e, hstep⟩
  · rw [hstep]
    constructor
    · exact iff_of_true ⟨actions, rfl⟩ (hreach.mp hreaches)
    · intro told htold
      injection htold with htold
      exact htold ▸ hprepared
  · rw [hstep]
    constructor
    · apply iff_of_false _ (mt hreach.mpr hreaches)
      intro ⟨told, htold⟩
      cases htold
    · intro told htold
      cases htold

theorem getElem?_run (f : Finger) (l : Latencies) (front : List Position)
    (target : Position) (rest : List Position) :
    (f.run l (front ++ target :: rest))[front.length]? =
      some (((f.afterRun l front).step l target).1, f.afterRun l (front ++ [target])) := by
  have hafter : f.afterRun l (front ++ [target]) = ((f.afterRun l front).step l target).2 := by
    unfold afterRun
    rw [run_append, run_cons, List.getLast?_append]
    rfl
  rw [run_append, run_cons, List.getElem?_append_right (Nat.le_of_eq (length_run l front f)),
    length_run, Nat.sub_self, hafter]
  rfl

/--
A run of a finger from where it rests is known by the positions that it reaches.  Those that
it does not reach can be left out.  After any front part of the run it stands as the reached
positions of that part say, and never at the open string.  It reaches a further position if
and only if that is open, its own, or one to which the travel time is known; then its actions
prepare one attack and end with it.
-/
theorem run_is_known_by_reached (l : Latencies) (targets : List Position) :
    (run {} l targets).length = targets.length ∧
      run {} l (reached {} l targets) =
        (run {} l targets).filter (fun played => played.1.isOk) ∧
      (forall front, front <+: targets ->
        run {} l front <+: run {} l targets ∧
          afterRun {} l front = standing (reached {} l front) ∧
          (afterRun {} l front).position ≠ Position.openString) ∧
      forall front target rest, targets = front ++ target :: rest ->
        exists outcome,
          (run {} l targets)[front.length]? =
              some (outcome, afterRun {} l (front ++ [target])) ∧
            (afterRun {} l front).Plays l target outcome := by
  refine ⟨length_run l targets {}, run_reached l targets {}, ?_, ?_⟩
  · intro front ⟨back, hback⟩
    rw [<- hback, run_append, afterRun_eq_standing]
    exact ⟨List.prefix_append _ _, rfl, standing_ne_open _⟩
  · intro front target rest htargets
    rw [htargets]
    exact ⟨_, getElem?_run {} l front target rest, plays_step _ l target⟩

/-!
# A sample

The second position is not reached, and the finger travels to the fifth one.
-/

def sampleLatencies : Latencies where
  settle := ⟨12, by decide, by decide⟩
  press := ⟨6, by decide, by decide⟩
  release := ⟨8, by decide, by decide⟩
  edges := [⟨1, 2, ⟨21, by decide, by decide⟩⟩]

theorem sample_run_is_known_by_reached :
    run {} sampleLatencies [2, 3, 0, 2, 1] =
        [(.ok [⟨-6, .press⟩, ⟨-27, .move 2⟩, ⟨0, .attack⟩], ⟨2, true⟩),
          (.error ⟨2, 3⟩, ⟨2, true⟩),
          (.ok [⟨-8, .release⟩, ⟨0, .attack⟩], ⟨2, false⟩),
          (.ok [⟨-6, .press⟩, ⟨0, .attack⟩], ⟨2, true⟩),
          (.ok [⟨-6, .press⟩, ⟨-27, .move 1⟩, ⟨-35, .release⟩, ⟨0, .attack⟩], ⟨1, true⟩)] ∧
      reached {} sampleLatencies [2, 3, 0, 2, 1] = [2, 0, 2, 1] ∧
      run {} sampleLatencies [2, 0, 2, 1] =
        (run {} sampleLatencies [2, 3, 0, 2, 1]).filter (fun played => played.1.isOk) ∧
      afterRun {} sampleLatencies [2, 3, 0] = standing [2, 0] := by
  rcases run_is_known_by_reached sampleLatencies [2, 3, 0, 2, 1] with
    ⟨_, hreached, hfront, _⟩
  exact ⟨rfl, rfl, hreached, (hfront [2, 3, 0] ⟨[2, 1], rfl⟩).right.left⟩

end Finger
end Plectrum

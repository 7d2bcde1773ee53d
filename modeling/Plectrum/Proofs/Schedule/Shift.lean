import Plectrum.Proofs.Outcome
import Plectrum.Schedule.Scheduling

/-!
# Counting from the first tick

Times are counted from the origin, the time of the first tick.  That succeeds if
every difference is representable, and it does not look at the commands.
-/

namespace Plectrum
namespace Tick

def origin (ticks : List Tick) : Int :=
  (ticks.head?.map Tick.time).getD 0

def countedFrom (origin : Int) (t : Tick) : Tick :=
  { t with time := t.time - origin }

def edit (change : Int -> List Command -> List Command) (t : Tick) : Tick :=
  { t with commands := change t.time t.commands }

theorem shiftAll_eq_mapM (ticks : List Tick) :
    shiftAll ticks = ticks.mapM (shift (origin ticks)) := by
  cases ticks with
  | nil => rfl
  | cons first rest => rfl

theorem shift_eq_ok_iff {origin : Int} {t u : Tick} :
    shift origin t = .ok u <->
      Representable (t.time - origin) ∧ u = t.countedFrom origin := by
  unfold shift
  rw [Outcome.map_eq_ok_iff]
  constructor
  · intro ⟨time, htime, hu⟩
    rcases checked_eq_ok_iff.mp htime with ⟨hrep, rfl⟩
    exact ⟨hrep, hu.symm⟩
  · intro ⟨hrep, hu⟩
    exact ⟨t.time - origin, checked_eq_ok_iff.mpr ⟨hrep, rfl⟩, hu.symm⟩

theorem mapM_shift_eq_ok_iff {origin : Int} (ticks : List Tick) :
    forall {shifted : List Tick},
      ticks.mapM (shift origin) = .ok shifted <->
        (forall t, t ∈ ticks -> Representable (t.time - origin)) ∧
          shifted = ticks.map (countedFrom origin) := by
  induction ticks with
  | nil =>
      intro shifted
      constructor
      · intro h
        injection h with h
        exact ⟨(fun _ ht => by cases ht), h.symm⟩
      · intro h
        rw [h.right]
        rfl
  | cons t rest ih =>
      intro shifted
      rw [List.mapM_cons, Outcome.bind_eq_ok_iff]
      constructor
      · intro ⟨u, hu, h⟩
        rcases shift_eq_ok_iff.mp hu with ⟨hrep, rfl⟩
        rcases Outcome.bind_eq_ok_iff.mp h with ⟨later, hlater, hrest⟩
        rcases ih.mp hlater with ⟨hall, rfl⟩
        injection hrest with hrest
        exact ⟨List.forall_mem_cons.mpr ⟨hrep, hall⟩, hrest.symm⟩
      · intro ⟨hall, hshifted⟩
        rcases List.forall_mem_cons.mp hall with ⟨hrep, hrest⟩
        refine ⟨t.countedFrom origin, shift_eq_ok_iff.mpr ⟨hrep, rfl⟩, ?_⟩
        refine Outcome.bind_eq_ok_iff.mpr ⟨_, ih.mpr ⟨hrest, rfl⟩, ?_⟩
        rw [hshifted]
        rfl

theorem shiftAll_eq_ok_iff {ticks shifted : List Tick} :
    shiftAll ticks = .ok shifted <->
      (forall t, t ∈ ticks -> Representable (t.time - origin ticks)) ∧
        shifted = ticks.map (countedFrom (origin ticks)) := by
  rw [shiftAll_eq_mapM]
  exact mapM_shift_eq_ok_iff ticks

/-!
# Edited ticks
-/

theorem origin_map_edit (change : Int -> List Command -> List Command)
    (ticks : List Tick) : origin (ticks.map (edit change)) = origin ticks := by
  cases ticks with
  | nil => rfl
  | cons first rest => rfl

theorem shift_edit (change : Int -> List Command -> List Command) (origin : Int)
    (t : Tick) :
    shift origin (t.edit change) =
      (shift origin t).map (edit (fun time => change (time + origin))) := by
  have htime : (t.edit change).time = t.time := rfl
  unfold shift
  rw [htime]
  by_cases hrep : Representable (t.time - origin)
  · have hback : t.time - origin + origin = t.time := by omega
    simp [checked, if_pos hrep, Except.map, edit, hback]
  · simp [checked, if_neg hrep, Except.map]

theorem mapM_shift_edit (change : Int -> List Command -> List Command) (origin : Int)
    (ticks : List Tick) :
    (ticks.map (edit change)).mapM (shift origin) =
      (ticks.mapM (shift origin)).map
        (List.map (edit (fun time => change (time + origin)))) := by
  induction ticks with
  | nil => rfl
  | cons t rest ih =>
      rw [List.map_cons, List.mapM_cons, List.mapM_cons, ih, shift_edit]
      cases shift origin t with
      | error e => rfl
      | ok u =>
          cases rest.mapM (shift origin) with
          | error e => rfl
          | ok later => rfl

theorem shiftAll_map_edit (change : Int -> List Command -> List Command)
    (ticks : List Tick) :
    shiftAll (ticks.map (edit change)) =
      (shiftAll ticks).map
        (List.map (edit (fun time => change (time + origin ticks)))) := by
  rw [shiftAll_eq_mapM, shiftAll_eq_mapM, origin_map_edit]
  exact mapM_shift_edit change (origin ticks) ticks

end Tick
end Plectrum

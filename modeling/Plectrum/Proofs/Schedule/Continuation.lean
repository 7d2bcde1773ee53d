import Plectrum.Proofs.Schedule.Feasibility
import Plectrum.Proofs.Schedule.Playback
import Plectrum.Proofs.Score.Concatenation

/-!
# Schedules that go on

A score that goes on behind another one asks the strings for the same things first.  Its
notes can only begin before the others if they need more time than there was, and then
all commands come later by the same time.
-/

namespace Plectrum

namespace Cue

def later (time : Int) (cue : Cue) : Cue :=
  { cue with time := cue.time + time }

theorem later_comp_countedFrom (origin other : Int) :
    later (origin - other) ∘ countedFrom origin = countedFrom other := by
  funext cue
  simp only [Function.comp, later, countedFrom, Cue.mk.injEq, and_true]
  omega

end Cue

namespace Finger

theorem chronicle_prefix (l : Latencies) (unit : Nat) (front back : List Note) :
    forall f : Finger,
      f.chronicle l unit front <+: f.chronicle l unit (front ++ back) := by
  induction front with
  | nil =>
      intro f
      exact List.nil_prefix
  | cons n rest ih =>
      intro f
      cases hbefore : f.preparation l n.position with
      | ok before =>
          rw [List.cons_append, chronicle_cons hbefore, chronicle_cons hbefore]
          apply (List.prefix_append_right_inj _).mpr
          exact List.cons_prefix_cons.mpr ⟨rfl, ih _⟩
      | error e =>
          rw [List.cons_append, chronicle, chronicle, hbefore]
          exact ih f

end Finger

theorem Call.origin_le_of_subset {calls others : List Call} (hne : calls ≠ [])
    (h : calls ⊆ others) : origin others <= origin calls := by
  rcases exists_first hne with ⟨c, hc, htime⟩
  rw [<- htime]
  exact origin_le (h hc)

namespace Score

variable {first second whole : Score}

/-!
# Success
-/

theorem Joins.plays (h : Joins first second whole) {s : StringId} {earlier : List Note}
    {n : Note} (hn : first.Plays s earlier n) : whole.Plays s earlier n := by
  rcases hn with ⟨later, hnotes⟩
  refine ⟨later ++ (second.timeline s).notes.map (Note.later first.length), ?_⟩
  rw [h.notes, hnotes, List.append_assoc, List.cons_append]

theorem Joins.feasible (h : Joins first second whole) {l : Latencies} {unit : Nat}
    (hwhole : whole.Feasible l unit) : first.Feasible l unit where
  reaches := fun s earlier n hn => hwhole.reaches s earlier n (h.plays hn)
  settles := fun s earlier m n hn => hwhole.settles s earlier m n (h.plays hn)
  spans := fun r before m s earlier n hm hn =>
    hwhole.spans r before m s earlier n (h.plays hm) (h.plays hn)

theorem Joins.exists_schedule (h : Joins first second whole) (hfirst : first.WellTimed)
    (hwhole : whole.WellTimed) {l : Latencies} {tempo : Tempo} {policy : BrushPolicy}
    {ticks : List Tick} (hticks : whole.schedule l tempo policy = .ok ticks) :
    exists front, first.schedule l tempo policy = .ok front := by
  have hfeasible : whole.Feasible l tempo.unit :=
    hwhole.feasible_iff.mpr ((hwhole.schedule_ok_iff l tempo policy).mp ⟨ticks, hticks⟩)
  exact (hfirst.schedule_ok_iff l tempo policy).mpr
    (hfirst.feasible_iff.mp (h.feasible hfeasible))

/-!
# Commands
-/

theorem Joins.chronicle_prefix (h : Joins first second whole) (l : Latencies) (unit : Nat)
    (s : StringId) :
    ({} : Finger).chronicle l unit (first.timeline s).notes <+:
      ({} : Finger).chronicle l unit (whole.timeline s).notes := by
  rw [h.notes]
  exact Finger.chronicle_prefix l unit _ _ {}

theorem Joins.calls_subset (h : Joins first second whole) (l : Latencies) (unit : Nat) :
    first.calls l unit ⊆ whole.calls l unit := by
  intro c hc
  rcases mem_calls.mp hc with ⟨s, hc⟩
  rcases List.mem_map.mp hc with ⟨cue, hcue, rfl⟩
  have hfirst := (Finger.perm_chronicle l unit _ {}).mem_iff.mpr hcue
  have hwhole := (h.chronicle_prefix l unit s).subset hfirst
  exact mem_calls.mpr
    ⟨s, List.mem_map_of_mem ((Finger.perm_chronicle l unit _ {}).mem_iff.mp hwhole)⟩

theorem Joins.allCalls_subset (h : Joins first second whole) (l : Latencies)
    (unit : Nat) : first.allCalls l unit ⊆ whole.allCalls l unit := by
  unfold allCalls
  rw [h.brushes, List.map_append]
  apply List.append_subset.mpr
  constructor
  · exact List.Subset.trans (h.calls_subset l unit) (List.subset_append_left _ _)
  · exact List.Subset.trans (List.subset_append_left _ _) (List.subset_append_right _ _)

section Schedules

variable (h : Joins first second whole) {l : Latencies} {tempo : Tempo}
  {policy : BrushPolicy} (hwhole : whole.brushes = [] ∨ policy = .append)
  {front ticks : List Tick} (hfront : first.schedule l tempo policy = .ok front)
  (hticks : whole.schedule l tempo policy = .ok ticks)
include h hwhole hfront hticks

/-- The commands to a string come first, all of them later by the same time. -/
theorem Joins.cuesOn_prefix :
    exists c : Int, 0 <= c ∧ forall s,
      (Tick.cuesOn s front).map (Cue.later c) <+: Tick.cuesOn s ticks := by
  have hfirst : first.brushes = [] ∨ policy = .append := by
    apply hwhole.imp_left
    intro hnil
    rw [h.brushes] at hnil
    exact (List.append_eq_nil_iff.mp hnil).left
  by_cases hnone : first.allCalls l tempo.unit = []
  · -- Nothing is counted from the origin of a score without calls.
    refine ⟨0, Int.le_refl 0, ?_⟩
    intro s
    have hperm := perm_chronicle_cuesOn first l tempo.unit s
    rw [hnone] at hperm
    rw [cuesOn_schedule hfirst hfront s, hperm.eq_nil]
    exact List.nil_prefix
  · have horigin := Call.origin_le_of_subset hnone (h.allCalls_subset l tempo.unit)
    refine ⟨Call.origin (first.allCalls l tempo.unit) -
      Call.origin (whole.allCalls l tempo.unit), by omega, ?_⟩
    intro s
    rw [cuesOn_schedule hfirst hfront s, cuesOn_schedule hwhole hticks s, List.map_map,
      Cue.later_comp_countedFrom]
    exact (h.chronicle_prefix l tempo.unit s).map _

end Schedules

end Score
end Plectrum

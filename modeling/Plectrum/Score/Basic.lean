import Plectrum.Score.Timeline

/-!
# Scores

A score holds one timeline for each string and the brushes in the order in which
they are played.  Its length is the time at which a further note would start.
-/

namespace Plectrum

/-- A stroke over all strings from the first to the last, in that direction. -/
structure Brush where
  start : Int
  first : StringId
  last : StringId
  deriving DecidableEq

structure Score where
  timelines : Vector Timeline stringCount := Vector.replicate stringCount {}
  /-- The brushes, latest first. -/
  latestBrushes : List Brush := []
  length : Int := 0
  deriving DecidableEq

namespace Score

def timeline (score : Score) (s : StringId) : Timeline :=
  score.timelines[s.index]

def setTimeline (score : Score) (s : StringId) (t : Timeline) : Score :=
  { score with timelines := score.timelines.set s.index t }

def brushes (score : Score) : List Brush :=
  score.latestBrushes.reverse

def strings (score : Score) : List StringId :=
  StringId.all.filter (fun s => 0 < (score.timeline s).size)

theorem mem_strings {score : Score} {s : StringId} :
    s ∈ score.strings <-> (score.timeline s).notes ≠ [] := by
  unfold strings Timeline.notes Timeline.size
  rw [List.mem_filter]
  constructor
  · intro h hnil
    have hpos := of_decide_eq_true h.right
    rw [List.reverse_eq_nil_iff.mp hnil] at hpos
    exact absurd hpos (Nat.lt_irrefl 0)
  · intro h
    refine ⟨StringId.mem_all s, decide_eq_true (List.length_pos_iff.mpr ?_)⟩
    intro hnil
    exact h (List.reverse_eq_nil_iff.mpr hnil)

theorem notes_of_not_mem_strings {score : Score} {s : StringId} (h : s ∉ score.strings) :
    (score.timeline s).notes = [] :=
  Decidable.not_not.mp (fun hne => h (mem_strings.mpr hne))

theorem timeline_setTimeline (score : Score) (s r : StringId) (t : Timeline) :
    (score.setTimeline s t).timeline r = if s = r then t else score.timeline r := by
  by_cases h : s = r
  · subst h
    simp [timeline, setTimeline]
  · have hindex : s.index.val ≠ r.index.val := by
      intro heq
      apply h
      cases s
      cases r
      simpa using Fin.ext heq
    simp [timeline, setTimeline, h, hindex]

end Score
end Plectrum

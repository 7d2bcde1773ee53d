import Mathlib
import Plectrum.Proofs.Score.Contents

/-!
# The time axis of a score

A tuple lasts until the next one starts, and its notes last as long as it does.  So the
tuples cut the time of a score into stretches one behind the other, from its start to
its end.  Every tuple has a note, hence the notes leave none of that time out.
-/

namespace Plectrum

def Note.stretch (n : Note) : Set Int :=
  Set.Ico n.start (n.start + n.duration)

namespace Tuple

/-!
# Stretches of tuples
-/

def stretch (entry : Int × Tuple) : Set Int :=
  Set.Ico entry.1 (entry.1 + entry.2.value)

theorem stretch_of_note? {s : StringId} {entry : Int × Tuple} {n : Note}
    (h : note? s entry = some n) : n.stretch = stretch entry := by
  rcases Option.map_eq_some_iff.mp h with ⟨p, _, rfl⟩
  rfl

/-- A tuple starts when all tuples before it have passed. -/
theorem pairwise_timed (tuples : List Tuple) :
    forall time : Int,
      (timed time tuples).Pairwise (fun (entry later : Int × Tuple) =>
        entry.1 + entry.2.value <= later.1) := by
  induction tuples with
  | nil =>
      intro time
      exact List.Pairwise.nil
  | cons t rest ih =>
      intro time
      apply List.pairwise_cons.mpr
      refine ⟨?_, ih _⟩
      intro later hlater
      exact (mem_of_mem_timed rest hlater).right

theorem stretch_eq_or_disjoint {tuples : List Tuple} {time : Int}
    {entry other : Int × Tuple} (hentry : entry ∈ timed time tuples)
    (hother : other ∈ timed time tuples) :
    stretch entry = stretch other ∨ Disjoint (stretch entry) (stretch other) := by
  have hdisjoint : (timed time tuples).Pairwise (fun entry later =>
      Disjoint (stretch entry) (stretch later)) := by
    apply (pairwise_timed tuples time).imp
    intro entry later hle
    exact Set.Ico_disjoint_Ico_same.mono_right (Set.Ico_subset_Ico_left hle)
  exact List.Pairwise.forall_of_forall_of_flip
    (R := fun entry other => stretch entry = stretch other ∨
      Disjoint (stretch entry) (stretch other))
    (fun _ _ => Or.inl rfl) (hdisjoint.imp Or.inr)
    (hdisjoint.imp fun h => Or.inr h.symm) hentry hother

theorem iUnion_stretch (tuples : List Tuple) :
    forall time : Int,
      ⋃ entry ∈ timed time tuples, stretch entry =
        Set.Ico time (time + ((tuples.map value).sum : Nat)) := by
  induction tuples with
  | nil =>
      intro time
      simp [timed]
  | cons t rest ih =>
      intro time
      have hfirst : time <= time + t.value := by omega
      have hrest : time + t.value <=
          time + t.value + ((rest.map value).sum : Nat) := by omega
      calc ⋃ entry ∈ timed time (t :: rest), stretch entry
          = stretch (time, t) ∪ ⋃ entry ∈ timed (time + t.value) rest, stretch entry := by
            simp only [timed, List.mem_cons, Set.iUnion_iUnion_eq_or_left]
        _ = Set.Ico time (time + t.value + ((rest.map value).sum : Nat)) := by
            rw [ih]
            exact Set.Ico_union_Ico_eq_Ico hfirst hrest
        _ = Set.Ico time (time + (((t :: rest).map value).sum : Nat)) := by
            rw [List.map_cons, List.sum_cons, Int.natCast_add, Int.add_assoc]

theorem Valid.exists_note? {t : Tuple} (h : t.Valid) (hne : t.attacks ≠ []) (time : Int) :
    exists s n, note? s (time, t) = some n := by
  rcases List.exists_mem_of_ne_nil _ hne with ⟨⟨number, p⟩, hpair⟩
  rcases h.sound.onInstrument _ hpair with ⟨hnumber, hle⟩
  rcases exists_number hnumber with ⟨s, rfl⟩
  refine ⟨s, ⟨time, p, t.value⟩, (note?_eq_some_iff h).mpr ?_⟩
  exact ⟨_, p, t.value, hpair, Score.readPair_eq_ok_iff.mpr ⟨rfl, hle⟩,
    divisions_eq_ok_iff.mpr ⟨h.lasts, rfl⟩, rfl⟩

end Tuple

/-!
# Stretches of notes
-/

namespace Score

theorem Holds.exists_entry {tuples : List Tuple} {score : Score} (h : Holds tuples score)
    {s : StringId} {n : Note} (hn : n ∈ (score.timeline s).notes) :
    exists entry, entry ∈ Tuple.timed 0 tuples ∧ Tuple.note? s entry = some n := by
  rw [h.notes] at hn
  exact List.mem_filterMap.mp hn

theorem Holds.iUnion_stretch {tuples : List Tuple} {score : Score} (h : Holds tuples score)
    (hnote : forall t, t ∈ tuples -> forall time, exists s n,
      Tuple.note? s (time, t) = some n) :
    ⋃ s, ⋃ n ∈ (score.timeline s).notes, n.stretch =
      ⋃ entry ∈ Tuple.timed 0 tuples, Tuple.stretch entry := by
  ext time
  simp only [Set.mem_iUnion, exists_prop]
  constructor
  · intro ⟨s, n, hn, htime⟩
    rcases h.exists_entry hn with ⟨entry, hentry, hn⟩
    exact ⟨entry, hentry, Tuple.stretch_of_note? hn ▸ htime⟩
  · intro ⟨⟨start, t⟩, hentry, htime⟩
    rcases hnote t (Tuple.mem_of_mem_timed tuples hentry).left start with ⟨s, n, hn⟩
    refine ⟨s, n, ?_, (Tuple.stretch_of_note? hn).symm ▸ htime⟩
    rw [h.notes]
    exact List.mem_filterMap.mpr ⟨_, hentry, hn⟩

/-- Whether the notes of a score share its time among them. -/
structure Partitioned (score : Score) : Prop where
  strings : forall s, s ∈ score.strings ->
    (1 <= s.number ∧ s.number <= 9) ∧ (score.timeline s).notes ≠ [] ∧
      (score.timeline s).notes.Pairwise Note.Before
  notes : forall s n, n ∈ (score.timeline s).notes ->
    s ∈ score.strings ∧ n.position <= Position.last ∧ 1 <= n.duration
  apart : forall r m s n, m ∈ (score.timeline r).notes -> n ∈ (score.timeline s).notes ->
    m.stretch = n.stretch ∨ Disjoint m.stretch n.stretch
  whole : ⋃ s, ⋃ n ∈ (score.timeline s).notes, n.stretch = Set.Ico 0 score.length

section Reading

variable {detect : Bool} {text : List Char} {score : Score}
  (h : Score.read detect text = .ok score)
include h

theorem number_le_of_read {s : StringId} {n : Note} (hn : n ∈ (score.timeline s).notes) :
    s.number <= 9 := by
  rcases (holds_read h).exists_entry hn with ⟨⟨time, t⟩, hentry, hnote⟩
  have ht := (Tuple.mem_of_mem_timed _ hentry).left
  rcases (Tuple.note?_eq_some_iff (valid_of_mem_all h ht)).mp hnote with
    ⟨pair, p, d, hpair, hread, _⟩
  have hnumber := Tuple.number_le_of_mem_attacks ht pair hpair
  rw [(readPair_eq_ok_iff.mp hread).left] at hnumber
  exact hnumber

theorem duration_pos_of_read {s : StringId} {n : Note}
    (hn : n ∈ (score.timeline s).notes) : 1 <= n.duration := by
  rcases (holds_read h).exists_entry hn with ⟨⟨time, t⟩, hentry, hnote⟩
  have ht := (Tuple.mem_of_mem_timed _ hentry).left
  rcases Option.map_eq_some_iff.mp hnote with ⟨p, _, rfl⟩
  exact (valid_of_mem_all h ht).lasts.left

/--
The notes of a score that was read last through stretches of time that are the same or
have no time in common, and together they last from the start of the score to its end.
-/
theorem reading_partitions_time : score.Partitioned where
  strings := by
    intro s hs
    have hne := mem_strings.mp hs
    rcases List.exists_mem_of_ne_nil _ hne with ⟨n, hn⟩
    exact ⟨⟨s.number_pos, number_le_of_read h hn⟩, hne, (score.timeline s).pairwise_notes⟩
  notes := by
    intro s n hn
    exact ⟨mem_strings.mpr (List.ne_nil_of_mem hn), position_le_of_read h hn,
      duration_pos_of_read h hn⟩
  apart := by
    intro r m s n hm hn
    rcases (holds_read h).exists_entry hm with ⟨entry, hentry, hm⟩
    rcases (holds_read h).exists_entry hn with ⟨other, hother, hn⟩
    rw [Tuple.stretch_of_note? hm, Tuple.stretch_of_note? hn]
    exact Tuple.stretch_eq_or_disjoint hentry hother
  whole := by
    have hnote : forall t, t ∈ Tuple.all detect text -> forall time, exists s n,
        Tuple.note? s (time, t) = some n :=
      fun t ht => (valid_of_mem_all h ht).exists_note? (Tuple.attacks_ne_nil ht)
    rw [(holds_read h).iUnion_stretch hnote, Tuple.iUnion_stretch, Int.zero_add,
      (holds_read h).length]

end Reading

/-!
# A sample

Two notes together, and a third one behind them on the first of the two strings.
-/

def partitionedText : List Char :=
  "(1221)4 (10)1".toList

theorem partitioned_sample :
    exists score, Score.read false partitionedText = .ok score ∧ score.length = 5 ∧
      score.Partitioned := by
  have hlength : (Score.read false partitionedText).toOption.map Score.length = some 5 := by
    decide +kernel
  rcases Option.map_eq_some_iff.mp hlength with ⟨score, hsome, hlength⟩
  have h := Outcome.toOption_eq_some_iff.mp hsome
  exact ⟨score, h, hlength, reading_partitions_time h⟩

end Score
end Plectrum

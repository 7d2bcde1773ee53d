import Plectrum.Proofs.Ascending
import Plectrum.Proofs.Score.Verdict

/-!
# What a score holds

A tuple starts when those before it have passed.  A score that was put together from
tuples holds the notes that they play and the brushes that they stand for, each of them
at the start of its tuple, in the order of the tuples, and nothing else.
-/

namespace Plectrum
namespace Tuple

/-- Tuples with their starts, the first of which is given. -/
def timed (time : Int) : List Tuple -> List (Int × Tuple)
  | [] => []
  | t :: rest => (time, t) :: timed (time + t.value) rest

def note? (s : StringId) (entry : Int × Tuple) : Option Note :=
  (entry.2.attacks.lookup s.number).map (fun p => ⟨entry.1, p, entry.2.value⟩)

def stroke? (entry : Int × Tuple) : Option Brush :=
  if entry.2.brush then (Brush.across entry.1 entry.2.touched).toOption else none

/-!
# Starts
-/

theorem timed_append (front back : List Tuple) :
    forall time : Int,
      timed time (front ++ back) =
        timed time front ++ timed (time + ((front.map value).sum : Nat)) back := by
  induction front with
  | nil =>
      intro time
      simp [timed]
  | cons t rest ih =>
      intro time
      rw [List.cons_append, timed, timed, ih, List.map_cons, List.sum_cons]
      simp [Int.add_assoc]

theorem mem_of_mem_timed {start : Int} {t : Tuple} (tuples : List Tuple) :
    forall {time : Int}, (start, t) ∈ timed time tuples -> t ∈ tuples ∧ time <= start := by
  induction tuples with
  | nil =>
      intro time h
      cases h
  | cons u rest ih =>
      intro time h
      rcases List.mem_cons.mp h with heq | hrest
      · injection heq with hstart ht
        exact ⟨ht ▸ List.mem_cons_self, Int.le_of_eq hstart.symm⟩
      · rcases ih hrest with ⟨ht, hle⟩
        exact ⟨List.mem_cons_of_mem u ht, by omega⟩

theorem note?_eq_some_iff {t : Tuple} (h : t.Valid) {s : StringId} {time : Int}
    {n : Note} :
    note? s (time, t) = some n <->
      exists pair p d, pair ∈ t.attacks ∧ Score.readPair pair = .ok (s, p) ∧
        t.divisions = .ok d ∧ n = ⟨time, p, d⟩ := by
  unfold note?
  rw [Option.map_eq_some_iff]
  constructor
  · intro ⟨p, hp, hn⟩
    rcases List.lookup_eq_some_iff.mp hp with ⟨front, back, hsplit, _⟩
    have hmem : (s.number, p) ∈ t.attacks := by
      rw [hsplit]
      exact List.mem_append_right front List.mem_cons_self
    have hle := (h.sound.onInstrument _ hmem).right
    exact ⟨_, p, t.value, hmem, Score.readPair_eq_ok_iff.mpr ⟨rfl, hle⟩,
      divisions_eq_ok_iff.mpr ⟨h.lasts, rfl⟩, hn.symm⟩
  · intro ⟨pair, p, d, hmem, hread, hd, hn⟩
    rcases Score.readPair_eq_ok_iff.mp hread with ⟨rfl, _⟩
    rcases divisions_eq_ok_iff.mp hd with ⟨_, rfl⟩
    refine ⟨p, ?_, hn.symm⟩
    rcases List.append_of_mem hmem with ⟨front, back, hsplit⟩
    refine List.lookup_eq_some_iff.mpr ⟨front, back, hsplit, ?_⟩
    -- A string that is named twice would be a fault.
    intro other hother
    have hdistinct := h.sound.distinct
    rw [hsplit, List.map_append, List.nodup_append] at hdistinct
    have hne := hdistinct.right.right other.1 (List.mem_map_of_mem hother) s.number
      List.mem_cons_self
    simpa using Ne.symm hne

theorem start_of_note? {s : StringId} {entry : Int × Tuple} {n : Note}
    (h : note? s entry = some n) : n.start = entry.1 := by
  rcases Option.map_eq_some_iff.mp h with ⟨p, _, rfl⟩
  rfl

theorem stroke?_eq_some_iff {t : Tuple} {time : Int} {b : Brush} :
    stroke? (time, t) = some b <->
      t.brush = true ∧ Brush.across time t.touched = .ok b := by
  unfold stroke?
  cases hbrush : t.brush with
  | false => simp
  | true =>
      simp only [if_true, true_and]
      exact Outcome.toOption_eq_some_iff

end Tuple

/-!
# The whole score
-/

namespace Score

structure Holds (tuples : List Tuple) (score : Score) : Prop extends Lined tuples score where
  notes : forall s,
    (score.timeline s).notes = (Tuple.timed 0 tuples).filterMap (Tuple.note? s)
  brushes : score.brushes = (Tuple.timed 0 tuples).filterMap Tuple.stroke?

theorem holds_nil : Holds [] {} where
  toLined := lined_nil
  notes := notes_default
  brushes := rfl

theorem brushes_of_add {score next : Score} {t : Tuple} (h : score.add t = .ok next) :
    next.brushes = score.brushes ++ (Tuple.stroke? (score.length, t)).toList := by
  rcases add_eq_ok_iff.mp h with ⟨d, attacked, brushed, _, hattacked, hbrushed, rfl⟩
  rcases frame_of_addAttacks t.attacks hattacked with ⟨hlength, hlatest⟩
  have hsame : attacked.brushes = score.brushes := congrArg List.reverse hlatest
  rcases addStroke_cases hbrushed with ⟨hbrush, rfl⟩ | ⟨hbrush, b, hb, rfl⟩
  · have hnone : Tuple.stroke? (score.length, t) = none := by
      simp [Tuple.stroke?, hbrush]
    rw [hnone, <- hsame]
    exact (List.append_nil _).symm
  · rw [Tuple.stroke?_eq_some_iff.mpr ⟨hbrush, hlength ▸ hb⟩, <- hsame]
    exact List.reverse_cons

theorem Ended.notes_of_add {score next : Score} {t : Tuple} (hscore : score.Ended)
    (hvalid : t.Valid) (h : Adds t score next) (s : StringId) :
    (next.timeline s).notes =
      (score.timeline s).notes ++ (Tuple.note? s (score.length, t)).toList := by
  have hnew : forall n, n ∈ (Tuple.note? s (score.length, t)).toList ->
      n.start = score.length := by
    intro n hn
    exact Tuple.start_of_note? (Option.mem_toList.mp hn)
  have hascending : Ascending Note.start
      ((score.timeline s).notes ++ (Tuple.note? s (score.length, t)).toList) := by
    apply List.pairwise_append.mpr
    refine ⟨(score.timeline s).pairwise_notes, ?_, ?_⟩
    · cases Tuple.note? s (score.length, t) with
      | none => exact List.Pairwise.nil
      | some n => exact List.pairwise_singleton _ n
    · intro n hn m hm
      rw [hnew m hm]
      exact hscore s n hn
  apply Ascending.eq_of_mem_iff (next.timeline s).pairwise_notes hascending
  intro n
  rw [h.notes, List.mem_append, Option.mem_toList, <- Tuple.note?_eq_some_iff hvalid]

theorem Holds.concat {tuples : List Tuple} {score next : Score} {t : Tuple}
    (hdigits : forall pair, pair ∈ t.attacks -> pair.1 <= 9)
    (hscore : Holds tuples score) (h : score.addTuple t = .ok next) :
    Holds (tuples ++ [t]) next := by
  have hadd := addTuple_eq_ok_iff.mp h
  have hvalid := (add_ok_iff hscore.ended hdigits).mp ⟨next, hadd⟩
  have htimed : Tuple.timed 0 (tuples ++ [t]) =
      Tuple.timed 0 tuples ++ [(score.length, t)] := by
    rw [Tuple.timed_append, hscore.length, Int.zero_add]
    rfl
  refine ⟨hscore.toLined.concat h, ?_, ?_⟩
  · intro s
    rw [hscore.ended.notes_of_add hvalid (adds_of_add hadd), hscore.notes, htimed,
      List.filterMap_append]
    cases hnote : Tuple.note? s (score.length, t) <;> simp [hnote]
  · rw [brushes_of_add hadd, hscore.brushes, htimed, List.filterMap_append]
    cases hstroke : Tuple.stroke? (score.length, t) <;> simp [hstroke]

theorem holds_ofTuples {tuples : List Tuple} {score : Score}
    (hdigits : forall t, t ∈ tuples -> forall pair, pair ∈ t.attacks -> pair.1 <= 9)
    (h : ofTuples tuples = .ok score) : Holds tuples score :=
  Outcome.foldlM_known Holds holds_nil
    (fun _ _ _ _ hdigit hscore hstep => hscore.concat hdigit hstep) hdigits h

theorem holds_read {detect : Bool} {text : List Char} {score : Score}
    (h : read detect text = .ok score) : Holds (Tuple.all detect text) score :=
  holds_ofTuples (fun _ ht => Tuple.number_le_of_mem_attacks ht) h

theorem valid_of_mem_all {detect : Bool} {text : List Char} {score : Score}
    (h : read detect text = .ok score) {t : Tuple} (ht : t ∈ Tuple.all detect text) :
    t.Valid :=
  (ofTuples_ok_iff (fun _ ht => Tuple.number_le_of_mem_attacks ht)).mp ⟨score, h⟩ t ht

theorem position_le_of_read {detect : Bool} {text : List Char} {score : Score}
    (h : read detect text = .ok score) {s : StringId} {n : Note}
    (hn : n ∈ (score.timeline s).notes) : n.position <= Position.last := by
  rw [(holds_read h).notes] at hn
  rcases List.mem_filterMap.mp hn with ⟨⟨time, t⟩, ht, hnote⟩
  have hvalid := valid_of_mem_all h (Tuple.mem_of_mem_timed _ ht).left
  rcases (Tuple.note?_eq_some_iff hvalid).mp hnote with ⟨pair, p, d, _, hread, _, rfl⟩
  exact (readPair_eq_ok_iff.mp hread).right

end Score
end Plectrum

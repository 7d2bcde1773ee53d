import Mathlib.Algebra.GroupWithZero.Nat
import Plectrum.Proofs.Score.Validity

/-!
# The verdict on a score

A score starts each of its tuples when the ones before have passed.  No note starts
that late before the tuple is added, so the verdict on a tuple does not depend on the
others.  A text is read if and only if all its tuples are valid, and the error is
otherwise the first fault of the first one that is not.
-/

namespace Plectrum
namespace Score

structure Lined (tuples : List Tuple) (score : Score) : Prop where
  ended : score.Ended
  length : score.length = ((tuples.map Tuple.value).sum : Nat)

theorem lined_nil : Lined [] {} where
  ended := by
    intro s n hn
    rw [notes_default] at hn
    cases hn
  length := rfl

theorem Ended.add {score next : Score} {t : Tuple} (hscore : score.Ended)
    (h : Adds t score next) : score.length < next.length ∧ next.Ended := by
  rcases h.length with ⟨d, hd, hlength⟩
  have hpos := divisions_pos hd
  have hlater : score.length < next.length := by omega
  refine ⟨hlater, ?_⟩
  intro s n hn
  rcases (h.notes s n).mp hn with hold | ⟨_, _, _, _, _, _, rfl⟩
  · exact Int.lt_trans (hscore s n hold) hlater
  · exact hlater

theorem Lined.concat {tuples : List Tuple} {score next : Score} {t : Tuple}
    (hscore : Lined tuples score) (h : score.addTuple t = .ok next) :
    Lined (tuples ++ [t]) next := by
  have hadds := adds_of_add (addTuple_eq_ok_iff.mp h)
  rcases hadds.length with ⟨d, hd, hlength⟩
  rcases Tuple.divisions_eq_ok_iff.mp hd with ⟨_, rfl⟩
  refine ⟨(hscore.ended.add hadds).right, ?_⟩
  rw [hlength, hscore.length, List.map_append, List.sum_append]
  simp

theorem addTuple_eq_error_iff {score : Score} {t : Tuple} {e : ScoreError} :
    score.addTuple t = .error e <-> e.span = t.span ∧ score.add t = .error e.fault := by
  unfold addTuple
  rw [Outcome.mapError_eq_error_iff]
  constructor
  · intro ⟨fault, h, he⟩
    rw [<- he]
    exact ⟨rfl, h⟩
  · intro ⟨hspan, h⟩
    refine ⟨e.fault, h, ?_⟩
    rw [<- hspan]

section Tuples

variable {tuples : List Tuple}
  (hdigits : forall t, t ∈ tuples -> forall pair, pair ∈ t.attacks -> pair.1 <= 9)
include hdigits

theorem ofTuples_ok_iff :
    (exists score, ofTuples tuples = .ok score) <-> forall t, t ∈ tuples -> t.Valid := by
  apply Outcome.foldlM_ok_iff Lined lined_nil
    (fun _ _ _ _ _ hscore hstep => hscore.concat hstep)
    (fun tuples => forall t, t ∈ tuples -> t.Valid) (fun _ t => t.Valid) _ _ _ hdigits
  · intro t ht
    cases ht
  · intro earlier t
    simp [or_imp, forall_and]
  · intro earlier score t ht hscore
    simp only [addTuple_eq_ok_iff]
    exact add_ok_iff hscore.ended ht

theorem ofTuples_eq_error_iff {e : ScoreError} :
    ofTuples tuples = .error e <->
      exists earlier t later, tuples = earlier ++ t :: later ∧
        (forall u, u ∈ earlier -> u.Valid) ∧ ¬ t.Valid ∧ e.span = t.span ∧
          t.FirstFault ((earlier.map Tuple.value).sum : Nat) e.fault := by
  apply Outcome.foldlM_fault_iff Lined lined_nil
    (fun _ _ _ _ _ hscore hstep => hscore.concat hstep)
    (fun earlier => forall u, u ∈ earlier -> u.Valid)
    (fun earlier t e => ¬ t.Valid ∧ e.span = t.span ∧
      t.FirstFault ((earlier.map Tuple.value).sum : Nat) e.fault)
    (fun _ hearlier => ofTuples_ok_iff hearlier) _ hdigits
  intro earlier score t e ht hscore
  rw [addTuple_eq_error_iff, add_eq_error_iff hscore.ended ht, hscore.length]
  constructor
  · intro ⟨hspan, hfault⟩
    refine ⟨?_, hspan, hfault⟩
    intro hvalid
    rcases (add_ok_iff hscore.ended ht).mpr hvalid with ⟨next, hnext⟩
    rw [<- hscore.length, <- add_eq_error_iff hscore.ended ht, hnext] at hfault
    cases hfault
  · intro ⟨_, hspan, hfault⟩
    exact ⟨hspan, hfault⟩

end Tuples

section Text

variable {detect : Bool} {text : List Char}

theorem read_ok_iff :
    (exists score, read detect text = .ok score) <->
      forall t, t ∈ Tuple.all detect text -> t.Valid :=
  ofTuples_ok_iff (fun _ ht => Tuple.number_le_of_mem_attacks ht)

theorem read_eq_error_iff {e : ScoreError} :
    read detect text = .error e <->
      exists earlier t later, Tuple.all detect text = earlier ++ t :: later ∧
        (forall u, u ∈ earlier -> u.Valid) ∧ ¬ t.Valid ∧ e.span = t.span ∧
          t.FirstFault ((earlier.map Tuple.value).sum : Nat) e.fault :=
  ofTuples_eq_error_iff (fun _ ht => Tuple.number_le_of_mem_attacks ht)

end Text

/--
A text is read if and only if all tuples that stand in it are valid.  Otherwise the error
names the first one that is not, with what is first found wrong with it.
-/
theorem read_verdict (detect : Bool) (text : List Char) :
    ((exists score, read detect text = .ok score) <->
      forall t, Tuple.Stands detect text t -> t.Valid) ∧
    forall e, read detect text = .error e <->
      exists earlier t, Tuple.StandsBehind detect text earlier t ∧
        (forall u, u ∈ earlier -> u.Valid) ∧ ¬ t.Valid ∧ e.span = t.span ∧
          t.FirstFault ((earlier.map Tuple.value).sum : Nat) e.fault := by
  constructor
  · rw [read_ok_iff]
    simp only [Tuple.mem_all_iff]
  · intro e
    simp only [read_eq_error_iff, Tuple.standsBehind_iff, exists_and_right]

/-- The third tuple is at fault too, but the second one comes first. -/
example :
    read true "(11)2 ^(1030)1 (00)1".toList =
      .error ⟨⟨6, 14⟩, .brushSkips ⟨0⟩ ⟨2⟩⟩ := by
  decide +kernel

end Score
end Plectrum

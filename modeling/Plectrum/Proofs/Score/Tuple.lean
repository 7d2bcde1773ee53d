import Mathlib.Data.List.Forall2
import Plectrum.Score.Tuple

/-!
# The tuples of a text

Every tuple has a positive even number of digits in its parentheses.  Looking for
brushes does not change where the tuples are and what they hold: it only marks some
of them.
-/

namespace Plectrum
namespace Tuple

open Text (Cursor)

/-!
# Tuples one after the other
-/

theorem allFrom_of_next_none {detect : Bool} {c : Cursor} (h : next? detect c = none)
    (found : List Tuple) : allFrom detect found c = found.reverse := by
  rw [allFrom]
  split
  · rfl
  · rename_i t rest hnext
    rw [h] at hnext
    cases hnext

theorem allFrom_of_next_some {detect : Bool} {c rest : Cursor} {t : Tuple}
    (h : next? detect c = some (t, rest)) (found : List Tuple) :
    allFrom detect found c = allFrom detect (t :: found) rest := by
  rw [allFrom]
  split
  · rename_i hnext
    rw [h] at hnext
    cases hnext
  · rename_i u rest' hnext
    rw [h] at hnext
    injection hnext with hnext
    injection hnext with ht hrest
    rw [ht, hrest]

theorem allFrom_induction (detect : Bool) {P : Cursor -> Prop}
    (hnone : forall c, next? detect c = none -> P c)
    (hsome : forall c t rest, next? detect c = some (t, rest) -> P rest -> P c)
    (c : Cursor) : P c := by
  cases h : next? detect c with
  | none => exact hnone c h
  | some found =>
      cases found with
      | mk t rest => exact hsome c t rest h (allFrom_induction detect hnone hsome rest)
termination_by c.ahead.length
decreasing_by exact length_ahead_next c h

theorem allFrom_found {detect : Bool} (c : Cursor) :
    forall found : List Tuple,
      allFrom detect found c = found.reverse ++ allFrom detect [] c := by
  induction c using allFrom_induction detect with
  | hnone c h =>
      intro found
      rw [allFrom_of_next_none h, allFrom_of_next_none h]
      simp
  | hsome c t rest h ih =>
      intro found
      rw [allFrom_of_next_some h, allFrom_of_next_some h, ih (t :: found), ih [t]]
      simp

theorem allFrom_cons {detect : Bool} {c rest : Cursor} {t : Tuple}
    (h : next? detect c = some (t, rest)) :
    allFrom detect [] c = t :: allFrom detect [] rest := by
  rw [allFrom_of_next_some h, allFrom_found]
  rfl

/-!
# What a tuple holds
-/

theorem body?_parts {c rest : Cursor} {digits : List Char × List Char}
    (h : body? c = some (digits, rest)) :
    digits.1 ≠ [] ∧ digits.1.length % 2 = 0 ∧ digits.2 ≠ [] := by
  unfold body? at h
  simp only at h
  split at h
  · cases h
  · rename_i hpairs
    simp only [Bool.or_eq_true, List.isEmpty_iff, bne_iff_ne, not_or, Decidable.not_not]
      at hpairs
    split at h
    · cases h
    · split at h
      · cases h
      · rename_i hduration
        injection h with h
        injection h with hdigits _
        rw [<- hdigits]
        exact ⟨hpairs.left, hpairs.right, mt List.isEmpty_iff.mpr hduration⟩

theorem next?_cases (c : Cursor) :
    (forall detect, next? detect c = none) ∨
      exists offset inner rest digits, body? inner = some (digits, rest) ∧
        forall detect,
          next? detect c = some (opened detect offset inner rest digits, rest) := by
  induction c using next?.induct with
  | case1 c inner hskip =>
      apply Or.inl
      intro detect
      rw [next?, hskip]
  | case2 c offset inner hskip digits rest hbody =>
      refine Or.inr ⟨offset, inner, rest, digits, hbody, ?_⟩
      intro detect
      rw [next?, hskip]
      simp only [hbody]
  | case3 c offset inner hskip hbody ih =>
      have hnext : forall detect, next? detect c = next? detect inner := by
        intro detect
        rw [next?, hskip]
        simp only [hbody]
      cases ih with
      | inl hnone =>
          apply Or.inl
          intro detect
          rw [hnext]
          exact hnone detect
      | inr hsome =>
          rcases hsome with ⟨offset', inner', rest, digits, hbody', hfound⟩
          refine Or.inr ⟨offset', inner', rest, digits, hbody', ?_⟩
          intro detect
          rw [hnext]
          exact hfound detect

theorem parts_of_next {detect : Bool} {c rest : Cursor} {t : Tuple}
    (h : next? detect c = some (t, rest)) :
    t.pairs ≠ [] ∧ t.pairs.length % 2 = 0 ∧ t.duration ≠ [] := by
  rcases next?_cases c with hnone | ⟨offset, inner, rest', digits, hbody, hsome⟩
  · rw [hnone] at h
    cases h
  · rw [hsome] at h
    injection h with h
    injection h with ht _
    rw [<- ht]
    exact body?_parts hbody

theorem parts_of_mem_allFrom {detect : Bool} {t : Tuple} (c : Cursor) :
    t ∈ allFrom detect [] c ->
      t.pairs ≠ [] ∧ t.pairs.length % 2 = 0 ∧ t.duration ≠ [] := by
  induction c using allFrom_induction detect with
  | hnone c h =>
      intro ht
      rw [allFrom_of_next_none h] at ht
      cases ht
  | hsome c u rest h ih =>
      intro ht
      rw [allFrom_cons h] at ht
      cases List.mem_cons.mp ht with
      | inl htu => exact htu ▸ parts_of_next h
      | inr htrest => exact ih htrest

/-!
# Brush markers
-/

structure Unmarks (marked plain : Tuple) : Prop where
  pairs : plain.pairs = marked.pairs
  duration : plain.duration = marked.duration
  brush : plain.brush = false

theorem unmarks_allFrom (detect : Bool) (c : Cursor) :
    List.Forall₂ Unmarks (allFrom detect [] c) (allFrom false [] c) := by
  induction c using allFrom_induction detect with
  | hnone c h =>
      rcases next?_cases c with hnone | ⟨_, _, _, _, _, hsome⟩
      · rw [allFrom_of_next_none h, allFrom_of_next_none (hnone false)]
        exact List.Forall₂.nil
      · rw [hsome] at h
        cases h
  | hsome c t rest h ih =>
      rcases next?_cases c with hnone | ⟨offset, inner, rest', digits, _, hsome⟩
      · rw [hnone] at h
        cases h
      · have hsame := h
        rw [hsome] at hsame
        injection hsame with hsame
        injection hsame with ht hrest
        subst ht hrest
        rw [allFrom_cons h, allFrom_cons (hsome false)]
        exact List.Forall₂.cons ⟨rfl, rfl, rfl⟩ ih

theorem unmarks_all (detect : Bool) (text : List Char) :
    List.Forall₂ Unmarks (all detect text) (all false text) :=
  unmarks_allFrom detect (Cursor.start text)

end Tuple
end Plectrum

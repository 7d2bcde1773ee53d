import Mathlib.Data.Char
import Mathlib.Data.List.Lex
import Plectrum.Chord.Table
import Plectrum.Proofs.Outcome

/-!
# Tables that were read

A table that was read holds chords with valid names and valid digits only, in
ascending order of their names.
-/

namespace Plectrum

namespace Chord

structure Valid (c : Chord) : Prop where
  name : validName c.name = true
  pairs : validPairs c.pairs = true

theorem valid_of_ofWords {words : List (List Char)} {c : Chord}
    (h : ofWords words = .ok c) : c.Valid := by
  unfold ofWords at h
  split at h
  · rename_i name pairs
    split at h
    · cases h
    · rename_i hname
      split at h
      · cases h
      · rename_i hpairs
        injection h with h
        subst h
        exact ⟨by simpa using hname, by simpa using hpairs⟩
  · cases h

end Chord

namespace ChordTable

structure WellFormed (table : ChordTable) : Prop where
  valid : forall c, c ∈ table.chords -> c.Valid
  ascending : table.chords.Pairwise (fun c d => c.name < d.name)

theorem wellFormed_default : WellFormed {} where
  valid := by
    intro c hc
    cases hc
  ascending := List.Pairwise.nil

theorem get?_eq_none_iff {table : ChordTable} {name : List Char} :
    table.get? name = none <-> forall c, c ∈ table.chords -> c.name ≠ name := by
  unfold get?
  rw [Option.map_eq_none_iff, List.find?_eq_none]
  simp

theorem validPairs_iff {pairs : List Char} :
    Chord.validPairs pairs = true <->
      (forall a, a ∈ pairs -> a.isDigit = true) ∧ pairs ≠ [] ∧ pairs.length % 2 = 0 := by
  simp only [Chord.validPairs, Text.Decimal.isNumeral, Bool.and_eq_true, Bool.not_eq_true',
    List.isEmpty_eq_false_iff, List.all_eq_true, beq_iff_eq]
  tauto

theorem get?_eq_some {table : ChordTable} {name pairs : List Char}
    (h : table.get? name = some pairs) :
    exists c, c ∈ table.chords ∧ c.name = name ∧ c.pairs = pairs := by
  unfold get? at h
  rcases Option.map_eq_some_iff.mp h with ⟨c, hfound, hpairs⟩
  exact ⟨c, List.mem_of_find?_eq_some hfound, by simpa using List.find?_some hfound, hpairs⟩

/-!
# Putting a chord in its place
-/

theorem perm_place (c : Chord) (chords : List Chord) : (place c chords).Perm (c :: chords) := by
  induction chords with
  | nil => exact List.Perm.refl _
  | cons d rest ih =>
      unfold place
      split
      · exact List.Perm.refl _
      · exact (ih.cons d).trans (List.Perm.swap c d rest)

theorem pairwise_place {c : Chord} (chords : List Chord)
    (hnew : forall d, d ∈ chords -> d.name ≠ c.name)
    (h : chords.Pairwise (fun c d => c.name < d.name)) :
    (place c chords).Pairwise (fun c d => c.name < d.name) := by
  induction chords with
  | nil => exact List.pairwise_singleton _ c
  | cons d rest ih =>
      rcases List.pairwise_cons.mp h with ⟨hfirst, hrest⟩
      unfold place
      split
      · rename_i hlt
        apply List.pairwise_cons.mpr
        refine ⟨?_, h⟩
        intro e he
        cases List.mem_cons.mp he with
        | inl hed => exact hed ▸ hlt
        | inr herest => exact lt_trans hlt (hfirst e herest)
      · rename_i hge
        have hlt : d.name < c.name :=
          lt_of_le_of_ne (not_lt.mp hge) (hnew d List.mem_cons_self)
        apply List.pairwise_cons.mpr
        refine ⟨?_, ih (fun e he => hnew e (List.mem_cons_of_mem d he)) hrest⟩
        intro e he
        cases List.mem_cons.mp ((perm_place c rest).mem_iff.mp he) with
        | inl hec => exact hec ▸ hlt
        | inr herest => exact hfirst e herest

/-!
# Reading
-/

theorem add_eq_ok_iff {table next : ChordTable} {c : Chord} :
    table.add c = .ok next <->
      table.get? c.name = none ∧ next = { chords := place c table.chords } := by
  unfold add
  cases table.get? c.name with
  | none => simp [eq_comm]
  | some pairs => simp

theorem WellFormed.add {table next : ChordTable} {c : Chord} (htable : table.WellFormed)
    (hc : c.Valid) (h : table.add c = .ok next) : next.WellFormed := by
  rcases add_eq_ok_iff.mp h with ⟨hnone, rfl⟩
  constructor
  · intro d hd
    cases List.mem_cons.mp ((perm_place c table.chords).mem_iff.mp hd) with
    | inl hdc => exact hdc ▸ hc
    | inr hold => exact htable.valid d hold
  · exact pairwise_place table.chords (get?_eq_none_iff.mp hnone) htable.ascending

theorem WellFormed.addLine {table next : ChordTable} {line : Text.Line}
    (htable : table.WellFormed) (h : table.addLine line = .ok next) : next.WellFormed := by
  have hwords : table.addWords (Text.words line.text) = .ok next :=
    Outcome.mapError_eq_ok_iff.mp h
  unfold addWords at hwords
  split at hwords
  · injection hwords with hwords
    exact hwords ▸ htable
  · rcases Outcome.bind_eq_ok_iff.mp hwords with ⟨c, hc, hadd⟩
    exact htable.add (Chord.valid_of_ofWords hc) hadd

theorem wellFormed_read {text : List Char} {table : ChordTable}
    (h : read text = .ok table) : table.WellFormed :=
  Outcome.foldlM_invariant WellFormed (Text.numberedLines text)
    (fun _ _ _ _ hmid hstep => hmid.addLine hstep) wellFormed_default h

end ChordTable
end Plectrum

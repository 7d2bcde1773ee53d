import Plectrum.Proofs.Outcome
import Plectrum.Score.Timeline

/-!
# Refused notes

A timeline refuses a note if and only if it has one that starts at the same time, and
that one is the answer.
-/

namespace Plectrum
namespace Timeline

theorem place_eq_error_iff {n m : Note} (ms : List Note)
    (hsorted : ms.Pairwise (fun later earlier => earlier.Before later)) :
    place n ms = .error m <-> m ∈ ms ∧ m.start = n.start := by
  induction ms with
  | nil =>
      constructor
      · intro h
        cases h
      · rintro ⟨h, _⟩
        cases h
  | cons k rest ih =>
      have hbefore := (List.pairwise_cons.mp hsorted).left
      have hrest := ih (List.pairwise_cons.mp hsorted).right
      have hearlier : forall e, e ∈ rest -> e.start < k.start := hbefore
      unfold place
      split
      · -- All notes start before the new one.
        rename_i hlt
        constructor
        · intro h
          cases h
        · rintro ⟨hm, hstart⟩
          cases List.mem_cons.mp hm with
          | inl hmk =>
              rw [<- hstart, hmk] at hlt
              exact absurd hlt (Int.lt_irrefl _)
          | inr hmrest =>
              have hmlt := Int.lt_trans (hearlier m hmrest) hlt
              rw [hstart] at hmlt
              exact absurd hmlt (Int.lt_irrefl _)
      · rename_i hge
        split
        · rename_i heq
          constructor
          · intro h
            injection h with h
            rw [<- h]
            exact ⟨List.mem_cons_self, heq⟩
          · rintro ⟨hm, hstart⟩
            cases List.mem_cons.mp hm with
            | inl hmk => rw [hmk]
            | inr hmrest =>
                have hmlt := hearlier m hmrest
                rw [hstart, heq] at hmlt
                exact absurd hmlt (Int.lt_irrefl _)
        · rename_i hne
          rw [Outcome.map_eq_error_iff, hrest, List.mem_cons]
          constructor
          · rintro ⟨hm, hstart⟩
            exact ⟨Or.inr hm, hstart⟩
          · rintro ⟨hm, hstart⟩
            cases hm with
            | inl hmk =>
                rw [hmk] at hstart
                exact absurd hstart hne
            | inr hmrest => exact ⟨hmrest, hstart⟩

theorem insert_eq_error_iff {t : Timeline} {n m : Note} :
    t.insert n = .error m <-> m ∈ t.notes ∧ m.start = n.start := by
  unfold notes
  rw [List.mem_reverse, <- place_eq_error_iff t.latestFirst t.descending]
  unfold insert
  split
  · rename_i ns hplace
    constructor
    · intro h
      cases h
    · intro h
      cases hplace.symm.trans h
  · rename_i k hplace
    constructor
    · intro h
      injection h with h
      exact h ▸ hplace
    · intro h
      injection hplace.symm.trans h with h
      rw [h]

end Timeline
end Plectrum

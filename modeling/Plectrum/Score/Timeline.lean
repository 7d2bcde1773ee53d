import Plectrum.Instrument.Command

/-!
# Timelines

A timeline holds the notes of one string in the order of their starts.  No two
notes start at the same time: the first one that is inserted stays.
-/

namespace Plectrum

/-- An attack of a string.  Times are counted in divisions of the beat. -/
structure Note where
  start : Int
  position : Position
  duration : Nat
  deriving DecidableEq

namespace Note

def Before (a b : Note) : Prop :=
  a.start < b.start

end Note

/-- Notes are kept latest first, since most of them come in ascending order. -/
structure Timeline where
  latestFirst : List Note := []
  descending : latestFirst.Pairwise (fun later earlier => earlier.Before later) := by
    exact List.Pairwise.nil
  deriving DecidableEq

namespace Timeline

def notes (t : Timeline) : List Note :=
  t.latestFirst.reverse

def size (t : Timeline) : Nat :=
  t.latestFirst.length

theorem pairwise_notes (t : Timeline) : t.notes.Pairwise Note.Before :=
  List.pairwise_reverse.mpr t.descending

/-!
# Insertion
-/

/--
Inserts a note into notes given latest first, unless one of them starts at the same
time: then that one is the answer.
-/
def place (n : Note) : List Note -> Except Note (List Note)
  | [] => .ok [n]
  | m :: rest =>
      if m.start < n.start then
        .ok (n :: m :: rest)
      else if m.start = n.start then
        .error m
      else
        (place n rest).map (m :: ·)

theorem mem_of_place {n : Note} (ms : List Note) :
    forall {ns : List Note}, place n ms = .ok ns ->
      forall {k : Note}, k ∈ ns <-> k = n ∨ k ∈ ms := by
  induction ms with
  | nil =>
      intro ns h k
      injection h with hns
      subst hns
      simp
  | cons m rest ih =>
      intro ns h k
      unfold place at h
      split at h
      · injection h with hns
        subst hns
        simp
      · split at h
        · cases h
        · cases hrest : place n rest with
          | error e =>
              rw [hrest] at h
              cases h
          | ok ms =>
              rw [hrest] at h
              injection h with hns
              subst hns
              rw [List.mem_cons, List.mem_cons, ih hrest]
              exact or_left_comm

theorem pairwise_of_place {n : Note} (ms : List Note) :
    forall {ns : List Note},
      ms.Pairwise (fun later earlier => earlier.Before later) -> place n ms = .ok ns ->
      ns.Pairwise (fun later earlier => earlier.Before later) := by
  induction ms with
  | nil =>
      intro ns _ h
      injection h with hns
      subst hns
      exact List.pairwise_singleton _ n
  | cons m rest ih =>
      intro ns hsorted h
      have hbefore := (List.pairwise_cons.mp hsorted).left
      have hrest := (List.pairwise_cons.mp hsorted).right
      unfold place at h
      split at h
      · rename_i hlt
        injection h with hns
        subst hns
        apply List.pairwise_cons.mpr
        constructor
        · intro k hk
          cases List.mem_cons.mp hk with
          | inl hkm => exact hkm ▸ hlt
          | inr hkrest => exact Int.lt_trans (hbefore k hkrest) hlt
        · exact hsorted
      · rename_i hge
        split at h
        · cases h
        · rename_i hne
          cases hplaced : place n rest with
          | error e =>
              rw [hplaced] at h
              cases h
          | ok ks =>
              rw [hplaced] at h
              injection h with hns
              subst hns
              apply List.pairwise_cons.mpr
              constructor
              · intro k hk
                cases (mem_of_place rest hplaced).mp hk with
                | inl hkn =>
                    subst hkn
                    show k.start < m.start
                    omega
                | inr hkrest => exact hbefore k hkrest
              · exact ih hrest hplaced

def insert (t : Timeline) (n : Note) : Except Note Timeline :=
  match h : place n t.latestFirst with
  | .ok ns => .ok { latestFirst := ns, descending := pairwise_of_place _ t.descending h }
  | .error m => .error m

def insertAll (t : Timeline) : List Note -> List (Except Note Unit × Timeline)
  | [] => []
  | n :: rest =>
      match t.insert n with
      | .ok next => (.ok (), next) :: next.insertAll rest
      | .error m => (.error m, t) :: t.insertAll rest

end Timeline
end Plectrum

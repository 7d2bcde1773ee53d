import Plectrum.Proofs.Ascending
import Plectrum.Proofs.Score.Reading
import Plectrum.Proofs.Score.Timeline

/-!
# Inserting notes in turn

Of the notes that start together the first one that is inserted stays, and all later ones
are refused for it.  So only the order among notes that start together matters.
-/

namespace Plectrum
namespace Timeline

/-!
# Sequences of insertions
-/

/-- The timeline that inserting a note leaves, whether it is refused or not. -/
def put (t : Timeline) (n : Note) : Timeline :=
  match t.insert n with
  | .ok next => next
  | .error _ => t

def after (t : Timeline) (ns : List Note) : Timeline :=
  ((t.insertAll ns).map Prod.snd).getLastD t

theorem descending_nil : ([] : List Note).Pairwise (fun later earlier => earlier.Before later) :=
  List.Pairwise.nil

def empty : Timeline :=
  ⟨[], descending_nil⟩

def filled (ns : List Note) : Timeline :=
  empty.after ns

def firstAt? (ns : List Note) (start : Int) : Option Note :=
  ns.find? (fun n => n.start == start)

/-- Whether a timeline holds, in ascending order, the first note of each start and no other. -/
structure HoldsFirsts (t : Timeline) (ns : List Note) : Prop where
  ascending : t.notes.Pairwise Note.Before
  mem_iff : forall n, n ∈ t.notes <-> firstAt? ns n.start = some n

/-- Whether two sequences differ only in the order of notes that start at different times. -/
structure Reorders (ms ns : List Note) : Prop where
  perm : ms.Perm ns
  order : forall start,
    ms.filter (fun n => n.start == start) = ns.filter (fun n => n.start == start)

theorem insertAll_cons (t : Timeline) (n : Note) (rest : List Note) :
    t.insertAll (n :: rest) =
      ((t.insert n).map (fun _ => ()), t.put n) :: (t.put n).insertAll rest := by
  unfold put
  rw [insertAll]
  cases t.insert n with
  | ok next => rfl
  | error m => rfl

@[simp] theorem after_nil (t : Timeline) : t.after [] = t := rfl

theorem after_cons (t : Timeline) (n : Note) (rest : List Note) :
    t.after (n :: rest) = (t.put n).after rest := by
  unfold after
  rw [insertAll_cons, List.map_cons, List.getLastD_cons]

theorem after_append (front back : List Note) :
    forall t : Timeline, t.after (front ++ back) = (t.after front).after back := by
  induction front with
  | nil => exact fun _ => rfl
  | cons n front ih =>
      intro t
      rw [List.cons_append, after_cons, ih, after_cons]

theorem after_concat (t : Timeline) (front : List Note) (n : Note) :
    t.after (front ++ [n]) = (t.after front).put n := by
  rw [after_append, after_cons, after_nil]

theorem filled_concat (front : List Note) (n : Note) :
    filled (front ++ [n]) = (filled front).put n :=
  after_concat empty front n

theorem getElem?_insertAll (front : List Note) (n : Note) (back : List Note) :
    forall t : Timeline,
      (t.insertAll (front ++ n :: back))[front.length]? =
        some (((t.after front).insert n).map (fun _ => ()), t.after (front ++ [n])) := by
  induction front with
  | nil =>
      intro t
      rw [List.nil_append, insertAll_cons, List.length_nil, List.getElem?_cons_zero, after_concat,
        after_nil]
  | cons k front ih =>
      intro t
      rw [List.cons_append, insertAll_cons, List.length_cons, List.getElem?_cons_succ, ih,
        List.cons_append, after_cons, after_cons]

theorem put_of_ok {t next : Timeline} {n : Note} (h : t.insert n = .ok next) :
    t.put n = next := by
  rw [put, h]

theorem put_of_error {t : Timeline} {n m : Note} (h : t.insert n = .error m) :
    t.put n = t := by
  rw [put, h]

theorem ext_notes {t u : Timeline} (h : t.notes = u.notes) : t = u := by
  cases t with
  | mk ts =>
      cases u with
      | mk us =>
          have hsame : ts = us := List.reverse_injective h
          subst hsame
          rfl

/-!
# First notes
-/

theorem start_of_firstAt? {ns : List Note} {start : Int} {n : Note}
    (h : firstAt? ns start = some n) : n.start = start := by
  unfold firstAt? at h
  simpa using List.find?_some h

theorem exists_firstAt?_iff {ns : List Note} {start : Int} :
    (exists m, firstAt? ns start = some m) <-> exists m, m ∈ ns ∧ m.start = start := by
  rw [<- Option.isSome_iff_exists, firstAt?, List.find?_isSome]
  simp only [beq_iff_eq]

theorem firstAt?_concat (ns : List Note) (n : Note) (start : Int) :
    firstAt? (ns ++ [n]) start =
      (firstAt? ns start).or (if n.start = start then some n else none) := by
  unfold firstAt?
  rw [List.find?_append, List.find?_singleton]
  simp only [beq_iff_eq]

namespace HoldsFirsts

theorem empty : Timeline.empty.HoldsFirsts [] where
  ascending := List.Pairwise.nil
  mem_iff := by
    intro n
    constructor
    · intro h
      cases h
    · intro h
      cases h

theorem insert_eq_error_iff {t : Timeline} {ns : List Note} (h : t.HoldsFirsts ns) {n m : Note} :
    t.insert n = .error m <-> firstAt? ns n.start = some m := by
  rw [Timeline.insert_eq_error_iff, h.mem_iff]
  constructor
  · intro ⟨hm, hstart⟩
    rw [<- hstart]
    exact hm
  · intro hm
    have hstart := start_of_firstAt? hm
    exact ⟨by rw [hstart, hm], hstart⟩

theorem put {t : Timeline} {ns : List Note} (h : t.HoldsFirsts ns) (n : Note) :
    (t.put n).HoldsFirsts (ns ++ [n]) := by
  refine ⟨pairwise_notes _, ?_⟩
  intro k
  rw [firstAt?_concat]
  cases hinsert : t.insert n with
  | error m =>
      have hfirst := h.insert_eq_error_iff.mp hinsert
      rw [put_of_error hinsert, h.mem_iff]
      by_cases hstart : n.start = k.start
      · rw [<- hstart, hfirst, Option.some_or]
      · rw [if_neg hstart, Option.or_none]
  | ok next =>
      have hnone : firstAt? ns n.start = none := by
        rw [Option.eq_none_iff_forall_ne_some]
        intro m hm
        cases hinsert.symm.trans (h.insert_eq_error_iff.mpr hm)
      rw [put_of_ok hinsert, mem_notes_of_insert hinsert, h.mem_iff]
      by_cases hstart : n.start = k.start
      · rw [<- hstart, hnone, if_pos rfl, Option.none_or, Option.some.injEq]
        constructor
        · intro hk
          rcases hk with hkn | hk
          · exact hkn.symm
          · cases hk
        · intro hnk
          exact Or.inl hnk.symm
      · rw [if_neg hstart, Option.or_none]
        constructor
        · intro hk
          rcases hk with hkn | hk
          · exact absurd (congrArg Note.start hkn.symm) hstart
          · exact hk
        · exact Or.inr

theorem of_filled (ns : List Note) : (filled ns).HoldsFirsts ns := by
  induction ns using List.reverseRecOn with
  | nil => exact empty
  | append_singleton passed n ih =>
      rw [filled_concat]
      exact ih.put n

theorem eq {t u : Timeline} {ms ns : List Note} (ht : t.HoldsFirsts ms) (hu : u.HoldsFirsts ns)
    (h : forall start, firstAt? ms start = firstAt? ns start) : t = u := by
  have hascending : Ascending Note.start t.notes := ht.ascending
  apply ext_notes
  apply hascending.eq_of_mem_iff hu.ascending
  intro n
  rw [ht.mem_iff, hu.mem_iff, h]

end HoldsFirsts

theorem Reorders.firstAt?_eq {ms ns : List Note} (h : Reorders ms ns) (start : Int) :
    firstAt? ms start = firstAt? ns start := by
  unfold firstAt?
  rw [<- List.head?_filter, h.order, List.head?_filter]

/-!
# What insertions leave
-/

/--
Each note of a sequence is refused if and only if an earlier one starts at the same time; the
answer is the first of those, and nothing changes.  The timeline always holds the first note
of each start, in ascending order, so it is the same for all sequences that keep the order of
notes that start together.
-/
theorem first_note_of_each_start_stays (ns : List Note) :
    (forall front back, ns = front ++ back -> (filled front).HoldsFirsts front) ∧
    (forall front n back, ns = front ++ n :: back ->
      (empty.insertAll ns)[front.length]? =
        some (((filled front).insert n).map (fun _ => ()), filled (front ++ [n])) ∧
      ((exists m, (filled front).insert n = .error m) <->
        exists m, m ∈ front ∧ m.start = n.start) ∧
      (forall m, (filled front).insert n = .error m ->
        firstAt? front n.start = some m ∧ filled (front ++ [n]) = filled front)) ∧
    (forall ms, Reorders ms ns -> filled ms = filled ns) := by
  refine ⟨?held, ?answers, ?order⟩
  case held =>
    intro front _ _
    exact HoldsFirsts.of_filled front
  case answers =>
    intro front n back hns
    have hfront := HoldsFirsts.of_filled front
    refine ⟨?_, ?_, ?_⟩
    · rw [hns]
      exact getElem?_insertAll front n back empty
    · simp only [hfront.insert_eq_error_iff]
      exact exists_firstAt?_iff
    · intro m hm
      refine ⟨hfront.insert_eq_error_iff.mp hm, ?_⟩
      rw [filled_concat, put_of_error hm]
  case order =>
    intro ms hms
    exact (HoldsFirsts.of_filled ms).eq (HoldsFirsts.of_filled ns) hms.firstAt?_eq

/-- The first and the last note start together, the one between them before the score does. -/
def repeatedNotes : List Note :=
  [⟨3, 1, 4⟩, ⟨-2, 2, 1⟩, ⟨3, 5, 1⟩]

theorem first_of_repeated_notes_stays :
    Reorders [⟨-2, 2, 1⟩, ⟨3, 1, 4⟩, ⟨3, 5, 1⟩] repeatedNotes ∧
    (filled [⟨-2, 2, 1⟩, ⟨3, 1, 4⟩, ⟨3, 5, 1⟩]).notes = [⟨-2, 2, 1⟩, ⟨3, 1, 4⟩] ∧
    (filled [⟨3, 1, 4⟩, ⟨-2, 2, 1⟩]).insert ⟨3, 5, 1⟩ = .error ⟨3, 1, 4⟩ := by
  rcases first_note_of_each_start_stays repeatedNotes with ⟨_, hanswers, horder⟩
  have hreorders : Reorders [⟨-2, 2, 1⟩, ⟨3, 1, 4⟩, ⟨3, 5, 1⟩] repeatedNotes := by
    refine ⟨List.Perm.swap _ _ _, ?_⟩
    intro start
    by_cases hstart : start = 3
    · rw [hstart]
      rfl
    · have hother : (3 == start) = false := beq_false_of_ne (Ne.symm hstart)
      simp [repeatedNotes, List.filter_cons, hother]
  have hfirst : firstAt? [⟨3, 1, 4⟩, ⟨-2, 2, 1⟩] 3 = some ⟨3, 1, 4⟩ := by decide
  rcases hanswers [⟨3, 1, 4⟩, ⟨-2, 2, 1⟩] ⟨3, 5, 1⟩ [] rfl with ⟨_, hrefused, hanswer⟩
  rcases hrefused.mpr ⟨⟨3, 1, 4⟩, List.mem_cons_self, rfl⟩ with ⟨m, hm⟩
  refine ⟨hreorders, ?_, ?_⟩
  · rw [horder _ hreorders]
    decide
  · rw [hm, Option.some.inj ((hanswer m hm).left.symm.trans hfirst)]

end Timeline
end Plectrum

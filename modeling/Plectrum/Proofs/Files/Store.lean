import Mathlib.Data.List.Infix
import Plectrum.Files.Store

/-!
# Files after a write

Writing a file changes no other one.  A path leads to the same place before and after, but
for one that goes through the new file as if it were a directory: nothing was there before,
and what is there now is no directory.
-/

namespace Plectrum
namespace Store

variable {store : Store} {route other : Route} {contents : Contents}

/-!
# Contents
-/

theorem get?_put_self (store : Store) (route : Route) (contents : Contents) :
    (store.put route contents).get? route = some contents := by
  have hnone : (store.files.filter (fun entry => entry.1 != route)).find?
      (fun entry => entry.1 == route) = none := by
    rw [List.find?_eq_none]
    intro entry hentry heq
    have hne := (List.mem_filter.mp hentry).right
    rw [bne, heq] at hne
    cases hne
  rw [get?, put, List.find?_append, hnone, Option.none_or, List.find?_cons_of_pos]
  · rfl
  · exact beq_self_eq_true route

theorem get?_put_of_ne (h : other ≠ route) :
    (store.put route contents).get? other = store.get? other := by
  have hlast : [(route, contents)].find? (fun entry => entry.1 == other) = none := by
    rw [List.find?_singleton, if_neg]
    intro heq
    exact h (eq_of_beq heq).symm
  have hsame : (fun entry : Route × Contents =>
      decide ((entry.1 != route) = true ∧ (entry.1 == other) = true)) =
        fun entry => entry.1 == other := by
    funext entry
    by_cases heq : entry.1 = other
    · simp [heq, h]
    · simp [heq]
  rw [get?, get?, put, List.find?_append, hlast, Option.or_none, List.find?_filter, hsame]

/-!
# Directories
-/

theorem isDirectory_iff :
    store.isDirectory route = true <->
      (forall name, name ∈ route -> name = Route.above) ∨ route = Route.root ∨
        exists entry, entry ∈ store.files ∧ route <+: entry.1 ∧ entry.1 ≠ route := by
  unfold isDirectory
  simp only [Bool.or_eq_true, List.all_eq_true, List.any_eq_true, Bool.and_eq_true, beq_iff_eq,
    bne_iff_ne, List.isPrefixOf_iff_prefix, or_assoc]

theorem isDirectory_of_prefix (h : other <+: route) (hroute : store.isDirectory route = true) :
    store.isDirectory other = true := by
  rw [isDirectory_iff] at hroute ⊢
  rcases hroute with habove | rfl | ⟨entry, hentry, hprefix, hne⟩
  · exact Or.inl (fun name hname => habove name (h.subset hname))
  · rcases List.prefix_concat_iff.mp (show other <+: [] ++ [['/']] from h) with hroot | hnil
    · exact Or.inr (Or.inl hroot)
    · rw [List.prefix_nil.mp hnil]
      exact Or.inl (fun name hname => by cases hname)
  · refine Or.inr (Or.inr ⟨entry, hentry, h.trans hprefix, ?_⟩)
    intro heq
    rw [heq] at hprefix hne
    exact hne (h.eq_of_length_le hprefix.length_le)

theorem isDirectory_put {parent : Route} {part : List Char}
    (hparent : store.isDirectory parent = true) (contents : Contents) (other : Route) :
    (store.put (parent ++ [part]) contents).isDirectory other = store.isDirectory other := by
  rw [Bool.eq_iff_iff]
  constructor
  · intro h
    rcases isDirectory_iff.mp h with habove | hroot | ⟨entry, hentry, hprefix, hne⟩
    · exact isDirectory_iff.mpr (Or.inl habove)
    · exact isDirectory_iff.mpr (Or.inr (Or.inl hroot))
    · rcases List.mem_append.mp hentry with hold | hnew
      · have hmem := (List.mem_filter.mp hold).left
        exact isDirectory_iff.mpr (Or.inr (Or.inr ⟨entry, hmem, hprefix, hne⟩))
      · rw [List.mem_singleton.mp hnew] at hprefix hne
        rcases List.prefix_concat_iff.mp hprefix with heq | hinside
        · exact absurd heq.symm hne
        · exact isDirectory_of_prefix hinside hparent
  · intro h
    rcases isDirectory_iff.mp h with habove | hroot | ⟨entry, hentry, hprefix, hne⟩
    · exact isDirectory_iff.mpr (Or.inl habove)
    · exact isDirectory_iff.mpr (Or.inr (Or.inl hroot))
    · refine isDirectory_iff.mpr (Or.inr (Or.inr ?_))
      by_cases heq : entry.1 = parent ++ [part]
      · refine ⟨(parent ++ [part], contents), ?_, heq ▸ hprefix, heq ▸ hne⟩
        exact List.mem_append_right _ List.mem_cons_self
      · refine ⟨entry, List.mem_append_left _ (List.mem_filter.mpr ⟨hentry, ?_⟩), hprefix, hne⟩
        exact bne_iff_ne.mpr heq

/-- Whether a path can lead on from here; it goes to the directories above first, if at all. -/
structure Entered (store : Store) (route : Route) : Prop where
  directory : store.isDirectory route = true
  climbs : forall front, front ++ [Route.above] <+: route ->
    forall name, name ∈ front -> name = Route.above

namespace Entered

theorem nil (store : Store) : store.Entered [] where
  directory := isDirectory_iff.mpr (Or.inl (fun name hname => by cases hname))
  climbs := by
    intro front h
    cases (List.append_eq_nil_iff.mp (List.prefix_nil.mp h)).right

theorem root (store : Store) : store.Entered Route.root where
  directory := isDirectory_iff.mpr (Or.inr (Or.inl rfl))
  climbs := by
    intro front h
    cases front with
    | nil => exact fun name hname => by cases hname
    | cons name front =>
        have hlength := h.length_le
        rw [List.length_append, List.length_cons] at hlength
        exact absurd hlength (by simp [Route.root])

theorem dropLast (h : store.Entered route) : store.Entered route.dropLast where
  directory := isDirectory_of_prefix (List.dropLast_prefix route) h.directory
  climbs := fun front hfront => h.climbs front (hfront.trans (List.dropLast_prefix route))

theorem climb (h : store.Entered route)
    (hroute : forall name, route.getLast? = some name -> name = Route.above) :
    store.Entered (route ++ [Route.above]) := by
  have hall : forall name, name ∈ route -> name = Route.above := by
    intro name hname
    cases hlast : route.getLast? with
    | none =>
        rw [List.getLast?_eq_none_iff.mp hlast] at hname
        cases hname
    | some last =>
        have hsplit := List.dropLast_append_getLast? last hlast
        rw [hroute last hlast] at hsplit
        rw [<- hsplit] at hname
        rcases List.mem_append.mp hname with hfront | hback
        · exact h.climbs route.dropLast ⟨[], (List.append_nil _).trans hsplit⟩ name hfront
        · exact List.mem_singleton.mp hback
  constructor
  · refine isDirectory_iff.mpr (Or.inl ?_)
    intro name hname
    rcases List.mem_append.mp hname with hfront | hback
    · exact hall name hfront
    · exact List.mem_singleton.mp hback
  · intro front hfront
    rcases List.prefix_concat_iff.mp hfront with heq | hinside
    · rw [List.append_cancel_right heq]
      exact hall
    · exact h.climbs front hinside

theorem concat (h : store.Entered route) {part : List Char} (hpart : part ≠ Route.above)
    (hdirectory : store.isDirectory (route ++ [part]) = true) :
    store.Entered (route ++ [part]) where
  directory := hdirectory
  climbs := by
    intro front hfront
    rcases List.prefix_concat_iff.mp hfront with heq | hinside
    · rcases List.append_inj' heq rfl with ⟨_, hlast⟩
      exact absurd (List.cons.inj hlast).left.symm hpart
    · exact h.climbs front hinside

theorem up (h : store.Entered route) : store.Entered route.up := by
  unfold Route.up
  split
  · exact root store
  · split
    · rename_i hlast
      rw [List.getLast?_eq_none_iff.mp hlast] at h
      exact h.climb (fun name hname => by cases hname)
    · rename_i name hlast
      split
      · rename_i habove
        refine h.climb (fun other hother => ?_)
        rw [hlast] at hother
        exact (Option.some.inj hother).symm.trans habove
      · exact h.dropLast

end Entered

theorem enter_eq_ok_iff {here : Route} :
    store.enter route = .ok here <->
      route.isTooLong = false ∧ store.get? route = none ∧ store.isDirectory route = true ∧
        here = route := by
  unfold enter
  split
  · rename_i hlong
    rw [hlong]
    constructor
    · intro h
      cases h
    · intro h
      cases h.left
  · rename_i hshort
    rw [Bool.not_eq_true] at hshort
    split
    · rename_i hfile
      constructor
      · intro h
        cases h
      · intro h
        rw [h.right.left] at hfile
        cases hfile
    · rename_i hnone
      rw [Bool.not_eq_true, Option.isSome_eq_false_iff, Option.isNone_iff_eq_none] at hnone
      split
      · rename_i hdirectory
        constructor
        · intro h
          injection h with h
          exact ⟨hshort, hnone, hdirectory, h.symm⟩
        · intro h
          rw [h.right.right.right]
      · rename_i hother
        constructor
        · intro h
          cases h
        · intro h
          exact absurd h.right.right.left hother

theorem exists_parent_of_follow (parts : Route) :
    forall {route}, store.Entered route -> forall {named}, store.follow route parts = .name named ->
      exists parent part, named = parent ++ [part] ∧ store.isDirectory parent = true := by
  induction parts with
  | nil =>
      intro route _ named h
      cases h
  | cons part rest ih =>
      intro route hroute named h
      unfold follow at h
      split at h
      · exact ih hroute h
      · split at h
        · exact ih hroute.up h
        · rename_i habove
          split at h
          · injection h with h
            exact ⟨route, part, h.symm, hroute.directory⟩
          · split at h
            · cases h
            · split at h
              · rename_i here henter
                rcases enter_eq_ok_iff.mp henter with ⟨_, _, hdirectory, rfl⟩
                exact ih (hroute.concat habove hdirectory) h
              · cases h

/-!
# Writing
-/

structure Saves (store next : Store) (route : Route) (text : String) : Prop where
  next_eq : next = store.put route (.text text)
  short : route.isTooLong = false
  free : store.isDirectory route = false
  parent : exists parent part, route = parent ++ [part] ∧ store.isDirectory parent = true

theorem exists_parent_of_resolve {path : List Char} (h : store.resolve path = .name route) :
    exists parent part, route = parent ++ [part] ∧ store.isDirectory parent = true := by
  unfold resolve at h
  split at h
  · cases h
  · split at h
    · cases h
    · split at h
      · cases h
      · split at h
        · exact exists_parent_of_follow _ (Entered.root store) h
        · exact exists_parent_of_follow _ (Entered.nil store) h

theorem saves_of_write {next : Store} {path text : String} (h : store.write path text = .ok next) :
    exists route, store.resolve path.toList = .name route ∧ store.Saves next route text := by
  unfold write at h
  split at h
  · cases h
  · cases h
  · rename_i route hroute
    split at h
    · cases h
    · rename_i hshort
      split at h
      · cases h
      · rename_i hfree
        injection h with h
        exact ⟨route, hroute, h.symm, Bool.not_eq_true _ ▸ hshort, Bool.not_eq_true _ ▸ hfree,
          exists_parent_of_resolve hroute⟩
  · cases h

namespace Saves

variable {next : Store} {text : String}

theorem get?_self (h : store.Saves next route text) : next.get? route = some (.text text) := by
  rw [h.next_eq, get?_put_self]

theorem get?_of_ne (h : store.Saves next route text) (hne : other ≠ route) :
    next.get? other = store.get? other := by
  rw [h.next_eq, get?_put_of_ne hne]

theorem isDirectory_eq (h : store.Saves next route text) (other : Route) :
    next.isDirectory other = store.isDirectory other := by
  rcases h.parent with ⟨parent, part, hroute, hparent⟩
  rw [h.next_eq, hroute, isDirectory_put hparent]

theorem enter_of_ne (h : store.Saves next route text) (hne : other ≠ route) :
    next.enter other = store.enter other := by
  rw [enter, enter, h.get?_of_ne hne, h.isDirectory_eq]

theorem enter_self (h : store.Saves next route text) :
    next.enter route = .error .notDirectory ∧
      (store.enter route = .error .notDirectory ∨
        store.get? route = none ∧ store.enter route = .error .noSuchFile) := by
  have hshort : ¬ route.isTooLong = true := by
    rw [h.short]
    exact Bool.false_ne_true
  have hfree : ¬ store.isDirectory route = true := by
    rw [h.free]
    exact Bool.false_ne_true
  constructor
  · rw [enter, if_neg hshort, h.get?_self]
    rfl
  · rw [enter, if_neg hshort, if_neg hfree]
    split
    · exact Or.inl rfl
    · rename_i hnone
      exact Or.inr ⟨Option.not_isSome_iff_eq_none.mp hnone, rfl⟩

/-- A path leads to where it led before, if it does not go on through the file. -/
theorem follow (h : store.Saves next route text) (parts : Route) :
    forall here, next.follow here parts = store.follow here parts ∨
      store.get? route = none ∧ store.follow here parts = .failed .noSuchFile ∧
        next.follow here parts = .failed .notDirectory := by
  induction parts with
  | nil => exact fun _ => Or.inl rfl
  | cons part rest ih =>
      intro here
      rw [Store.follow, Store.follow]
      split
      · exact ih here
      · split
        · exact ih here.up
        · split
          · exact Or.inl rfl
          · split
            · exact Or.inl rfl
            · by_cases hthrough : here ++ [part] = route
              · rcases h.enter_self with ⟨hafter, hbefore | ⟨hnew, hbefore⟩⟩
                · rw [hthrough, hafter, hbefore]
                  exact Or.inl rfl
                · rw [hthrough, hafter, hbefore]
                  exact Or.inr ⟨hnew, rfl, rfl⟩
              · rw [h.enter_of_ne hthrough]
                cases store.enter (here ++ [part]) with
                | ok inside => exact ih inside
                | error failure => exact Or.inl rfl

theorem resolve (h : store.Saves next route text) (path : List Char) :
    next.resolve path = store.resolve path ∨
      store.get? route = none ∧ store.resolve path = .failed .noSuchFile ∧
        next.resolve path = .failed .notDirectory := by
  rw [Store.resolve, Store.resolve]
  split
  · exact Or.inl rfl
  · split
    · exact Or.inl rfl
    · split
      · exact Or.inl rfl
      · split
        · exact h.follow _ _
        · exact h.follow _ _

theorem read_of_resolve (h : store.Saves next route text) {path : String}
    (hpath : store.resolve path.toList = .name route) : next.read path = .ok text := by
  have hsame : next.resolve path.toList = .name route := by
    rcases h.resolve path.toList with hsame | ⟨_, hbefore, _⟩
    · rw [hsame, hpath]
    · cases hpath.symm.trans hbefore
  rw [read, hsame]
  simp only [h.get?_self]

theorem read_of_resolve_ne (h : store.Saves next route text) {path : String}
    (hpath : store.resolve path.toList ≠ .name route) :
    next.read path = store.read path ∨
      store.get? route = none ∧ store.read path = .error .noSuchFile ∧
        next.read path = .error .notDirectory := by
  rcases h.resolve path.toList with hsame | ⟨hnew, hbefore, hafter⟩
  · rw [read, read, hsame]
    cases htarget : store.resolve path.toList with
    | directory => exact Or.inl rfl
    | failed failure => exact Or.inl rfl
    | name other =>
        have hne : other ≠ route := fun heq => hpath (heq ▸ htarget)
        simp only [h.get?_of_ne hne, h.enter_of_ne hne]
        exact Or.inl trivial
    | directoryName other =>
        by_cases heq : other = route
        · rcases h.enter_self with ⟨hafter, hbefore | ⟨hnew, hbefore⟩⟩
          · simp only [heq, hafter, hbefore]
            exact Or.inl trivial
          · simp only [heq, hafter, hbefore]
            exact Or.inr ⟨hnew, rfl, rfl⟩
        · simp only [h.enter_of_ne heq]
          exact Or.inl trivial
  · rw [read, read, hbefore, hafter]
    exact Or.inr ⟨hnew, rfl, rfl⟩

end Saves
end Store
end Plectrum

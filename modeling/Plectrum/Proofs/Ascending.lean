/-!
# Ascending lists

A list that strictly ascends by a key holds no key twice, and it is determined by its
members.
-/

namespace Plectrum

def Ascending (key : value -> Int) (xs : List value) : Prop :=
  xs.Pairwise (fun x y => key x < key y)

namespace Ascending

variable {value : Type} {key : value -> Int} {xs ys : List value}

theorem nodup (h : Ascending key xs) : xs.Nodup := by
  apply List.Pairwise.imp _ h
  intro x y hlt heq
  rw [heq] at hlt
  exact Int.lt_irrefl _ hlt

theorem eq_of_key_eq (h : Ascending key xs) {x y : value} (hx : x ∈ xs) (hy : y ∈ xs)
    (heq : key x = key y) : x = y := by
  induction xs with
  | nil => cases hx
  | cons z rest ih =>
      rcases List.pairwise_cons.mp h with ⟨hfirst, hrest⟩
      cases List.mem_cons.mp hx with
      | inl hxz =>
          cases List.mem_cons.mp hy with
          | inl hyz => rw [hxz, hyz]
          | inr hyrest =>
              have hlt := hfirst y hyrest
              rw [<- hxz, heq] at hlt
              exact absurd hlt (Int.lt_irrefl _)
      | inr hxrest =>
          cases List.mem_cons.mp hy with
          | inl hyz =>
              have hlt := hfirst x hxrest
              rw [<- hyz, heq] at hlt
              exact absurd hlt (Int.lt_irrefl _)
          | inr hyrest => exact ih hrest hxrest hyrest

theorem head_le {x y : value} (h : Ascending key (x :: xs)) (hy : y ∈ x :: xs) :
    key x <= key y := by
  cases List.mem_cons.mp hy with
  | inl hyx => exact Int.le_of_eq (congrArg key hyx.symm)
  | inr hyrest => exact Int.le_of_lt ((List.pairwise_cons.mp h).left y hyrest)

theorem eq_of_perm (hxs : Ascending key xs) (hys : Ascending key ys)
    (hperm : xs.Perm ys) : xs = ys := by
  apply hperm.eq_of_pairwise _ hxs hys
  intro x y _ _ hxy hyx
  exact absurd (Int.lt_trans hxy hyx) (Int.lt_irrefl _)

theorem eq_of_mem_iff (hxs : Ascending key xs) (hys : Ascending key ys)
    (h : forall x, x ∈ xs <-> x ∈ ys) : xs = ys :=
  eq_of_perm hxs hys ((List.perm_ext_iff_of_nodup hxs.nodup hys.nodup).mpr h)

theorem mergeSort_eq_of_perm (hxs : Ascending key xs) (hperm : ys.Perm xs) :
    ys.mergeSort (fun x y => key x <= key y) = xs := by
  have hsorted : (ys.mergeSort (fun x y => key x <= key y)).Pairwise
      (fun x y => decide (key x <= key y) = true) := by
    apply List.pairwise_mergeSort
    · intro x y z hxy hyz
      simp only [decide_eq_true_eq] at *
      exact Int.le_trans hxy hyz
    · intro x y
      simp only [Bool.or_eq_true, decide_eq_true_eq]
      exact Int.le_total (key x) (key y)
  have hsame : (ys.mergeSort (fun x y => key x <= key y)).Perm xs :=
    (List.mergeSort_perm ys _).trans hperm
  apply hsame.eq_of_pairwise _ hsorted
  · apply List.Pairwise.imp _ hxs
    intro x y hlt
    exact decide_eq_true (Int.le_of_lt hlt)
  · intro x y hx hy hxy hyx
    simp only [decide_eq_true_eq] at hxy hyx
    exact hxs.eq_of_key_eq (hsame.mem_iff.mp hx) hy (Int.le_antisymm hxy hyx)

/-!
# One key at a time
-/

theorem length_filter_le_one (h : Ascending key xs) (k : Int) :
    (xs.filter (fun x => key x == k)).length <= 1 := by
  have hfilter := List.Pairwise.filter (fun x => key x == k) h
  have hkey : forall x, x ∈ xs.filter (fun x => key x == k) -> key x = k :=
    fun x hx => eq_of_beq (List.mem_filter.mp hx).right
  cases hcases : xs.filter (fun x => key x == k) with
  | nil => exact Nat.zero_le 1
  | cons x rest =>
      cases rest with
      | nil => exact Nat.le_refl 1
      | cons y rest =>
          rw [hcases] at hfilter hkey
          have hlt := (List.pairwise_cons.mp hfilter).left y List.mem_cons_self
          rw [hkey x List.mem_cons_self,
            hkey y (List.mem_cons_of_mem x List.mem_cons_self)] at hlt
          exact absurd hlt (Int.lt_irrefl k)

theorem filter_eq_singleton (h : Ascending key xs) {x : value} (hx : x ∈ xs) :
    xs.filter (fun y => key y == key x) = [x] := by
  have hfound : x ∈ xs.filter (fun y => key y == key x) :=
    List.mem_filter.mpr ⟨hx, beq_self_eq_true (key x)⟩
  rcases List.length_eq_one_iff.mp
    (Nat.le_antisymm (h.length_filter_le_one (key x)) (List.length_pos_of_mem hfound)) with
    ⟨y, hy⟩
  rw [hy] at hfound ⊢
  rw [List.mem_singleton.mp hfound]

theorem filter_eq_of_perm (hxs : Ascending key xs) (hperm : ys.Perm xs) (k : Int) :
    ys.filter (fun x => key x == k) = xs.filter (fun x => key x == k) := by
  have hfilter := hperm.filter (fun x => key x == k)
  have hone := hxs.length_filter_le_one k
  cases hcases : xs.filter (fun x => key x == k) with
  | nil =>
      rw [hcases] at hfilter
      exact hfilter.eq_nil
  | cons x rest =>
      rw [hcases] at hfilter hone
      have hzero : rest.length = 0 := Nat.le_zero.mp (Nat.le_of_succ_le_succ hone)
      have hrest : rest = [] := List.length_eq_zero_iff.mp hzero
      rw [hrest] at hfilter ⊢
      exact hfilter.eq_singleton

theorem flatMap_filter {tick : Type} {time : tick -> Int} {ts : List tick}
    (hxs : Ascending key xs) (hts : Ascending time ts)
    (hcover : forall x, x ∈ xs -> exists t, t ∈ ts ∧ time t = key x) :
    ts.flatMap (fun t => xs.filter (fun x => key x == time t)) = xs := by
  have hascending :
      Ascending key (ts.flatMap (fun t => xs.filter (fun x => key x == time t))) := by
    apply List.pairwise_flatMap.mpr
    constructor
    · intro t _
      exact List.Pairwise.filter _ hxs
    · apply List.Pairwise.imp _ hts
      intro t u hlt x hx y hy
      have hxt : key x = time t := eq_of_beq (List.mem_filter.mp hx).right
      have hyu : key y = time u := eq_of_beq (List.mem_filter.mp hy).right
      rw [hxt, hyu]
      exact hlt
  apply hascending.eq_of_mem_iff hxs
  intro x
  rw [List.mem_flatMap]
  constructor
  · intro ⟨t, _, hx⟩
    exact (List.mem_filter.mp hx).left
  · intro hx
    rcases hcover x hx with ⟨t, ht, htime⟩
    refine ⟨t, ht, List.mem_filter.mpr ⟨hx, ?_⟩⟩
    rw [htime]
    exact beq_self_eq_true (key x)

end Ascending
end Plectrum

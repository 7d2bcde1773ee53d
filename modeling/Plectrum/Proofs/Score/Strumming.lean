import Mathlib.Data.List.Nodup
import Plectrum.Proofs.Score.Verdict

/-!
# Strings under a brush

The strings of a brush are neighbours one after the other, and none comes twice.  So
the brush goes in one direction, and it runs over exactly those strings that have a
note where the brush starts.
-/

namespace Plectrum

/-!
# Walks in one direction
-/

section Walks

variable {place : Type}

/-- A walk that never comes to a place twice does not turn. -/
theorem isChain_of_nodup (Step : place -> place -> Prop)
    (hleft : forall a b c, Step a b -> Step c b -> a = c) (rest : List place) :
    forall {a b : place}, Step a b ->
      (a :: b :: rest).IsChain (fun x y => Step x y ∨ Step y x) ->
        (a :: b :: rest).Nodup -> (a :: b :: rest).IsChain Step := by
  induction rest with
  | nil =>
      intro a b hstep _ _
      exact List.IsChain.cons_cons hstep (List.IsChain.singleton b)
  | cons c rest ih =>
      intro a b hstep hchain hnodup
      have htail := (List.isChain_cons_cons.mp hchain).right
      rcases List.nodup_cons.mp hnodup with ⟨ha, hrest⟩
      apply List.IsChain.cons_cons hstep
      rcases (List.isChain_cons_cons.mp htail).left with hon | hback
      · exact ih hon htail hrest
      · have hac := hleft a b c hstep hback
        rw [hac] at ha
        exact absurd (List.mem_cons_of_mem b List.mem_cons_self) ha

theorem mem_ascent_iff (rest : List Nat) :
    forall {first last n : Nat}, (first :: rest).IsChain (fun a b => a + 1 = b) ->
      (first :: rest).getLast? = some last ->
        (n ∈ first :: rest <-> first <= n ∧ n <= last) := by
  induction rest with
  | nil =>
      intro first last n _ hlast
      have hend : first = last := by simpa using hlast
      rw [List.mem_singleton]
      omega
  | cons next rest ih =>
      intro first last n hchain hlast
      rcases List.isChain_cons_cons.mp hchain with ⟨hstep, hchain⟩
      rw [List.getLast?_cons_cons] at hlast
      have hnext := (ih (n := next) hchain hlast).mp List.mem_cons_self
      rw [List.mem_cons, ih hchain hlast]
      omega

theorem mem_descent_iff {rest : List Nat} {first last n : Nat}
    (hchain : (first :: rest).IsChain (fun a b => b + 1 = a))
    (hlast : (first :: rest).getLast? = some last) :
    n ∈ first :: rest <-> last <= n ∧ n <= first := by
  have hascent := List.isChain_reverse.mpr hchain
  have hhead := hlast
  rw [<- List.head?_reverse] at hhead
  have hend : (first :: rest).reverse.getLast? = some first := by
    rw [List.getLast?_reverse]
    rfl
  rw [<- List.mem_reverse]
  cases hback : (first :: rest).reverse with
  | nil =>
      rw [hback] at hhead
      cases hhead
  | cons begin more =>
      rw [hback] at hascent hhead hend
      injection hhead with hbegin
      subst hbegin
      exact mem_ascent_iff more hascent hend

/-- A walk by steps of one that never comes back goes up or down all the way. -/
theorem straight_of_nodup {rest : List Nat} {first : Nat}
    (hchain : (first :: rest).IsChain (fun a b => a + 1 = b ∨ b + 1 = a))
    (hnodup : (first :: rest).Nodup) :
    (first :: rest).IsChain (fun a b => a + 1 = b) ∨
      (first :: rest).IsChain (fun a b => b + 1 = a) := by
  cases rest with
  | nil => exact Or.inl (List.IsChain.singleton first)
  | cons next rest =>
      rcases (List.isChain_cons_cons.mp hchain).left with hup | hdown
      · apply Or.inl
        exact isChain_of_nodup (fun a b => a + 1 = b) (by omega) rest hup hchain hnodup
      · apply Or.inr
        have hturned := hchain.imp (fun _ _ h => Or.symm h)
        exact isChain_of_nodup (fun a b => b + 1 = a) (by omega) rest hdown hturned hnodup

theorem mem_walk_iff {rest : List Nat} {first last n : Nat}
    (hchain : (first :: rest).IsChain (fun a b => a + 1 = b ∨ b + 1 = a))
    (hnodup : (first :: rest).Nodup) (hlast : (first :: rest).getLast? = some last) :
    n ∈ first :: rest <->
      (first <= n ∧ n <= last) ∨ (last <= n ∧ n <= first) := by
  rcases straight_of_nodup hchain hnodup with hascent | hdescent
  · have hfirst := (mem_ascent_iff rest hascent hlast).mp List.mem_cons_self
    rw [mem_ascent_iff rest hascent hlast]
    omega
  · have hfirst := (mem_descent_iff hdescent hlast).mp List.mem_cons_self
    rw [mem_descent_iff hdescent hlast]
    omega

end Walks

/-!
# Covered strings
-/

namespace Brush

/-- Whether a string is one of those that a brush runs over, in either direction. -/
def Covers (b : Brush) (s : StringId) : Prop :=
  (b.first.number <= s.number ∧ s.number <= b.last.number) ∨
    (b.last.number <= s.number ∧ s.number <= b.first.number)

theorem walk_of_across {start : Int} {strings : List StringId} {b : Brush}
    (h : across start strings = .ok b) (hnodup : strings.Nodup) :
    (strings.map StringId.number).IsChain (fun a b => a + 1 = b ∨ b + 1 = a) ∧
      (strings.map StringId.number).Nodup :=
  ⟨(List.isChain_map StringId.number).mpr (across_ok_iff.mp ⟨b, h⟩).right,
    hnodup.map (fun _ _ => StringId.number_inj)⟩

theorem ends_of_across {start : Int} {strings : List StringId} {b : Brush}
    (h : across start strings = .ok b) :
    strings.head? = some b.first ∧ strings.getLast? = some b.last := by
  match strings with
  | [] => cases h
  | [a] => cases h
  | first :: second :: rest =>
      rcases Outcome.map_eq_ok_iff.mp h with ⟨_, _, rfl⟩
      refine ⟨rfl, ?_⟩
      rw [List.getLast?_cons_cons, List.getLast?_cons, List.getLastD_eq_getLast?]

theorem covers_iff_of_across {start : Int} {strings : List StringId} {b : Brush}
    (h : across start strings = .ok b) (hnodup : strings.Nodup) (s : StringId) :
    b.Covers s <-> s ∈ strings := by
  rcases walk_of_across h hnodup with ⟨hwalk, hnever⟩
  rcases ends_of_across h with ⟨hfirst, hlast⟩
  have hinj : Function.Injective StringId.number := fun _ _ => StringId.number_inj
  rw [<- List.mem_map_of_injective hinj]
  cases strings with
  | nil => cases hfirst
  | cons first rest =>
      injection hfirst with hfirst
      subst hfirst
      have hend : ((b.first :: rest).map StringId.number).getLast? = some b.last.number := by
        rw [List.getLast?_map, hlast]
        rfl
      exact (mem_walk_iff hwalk hnever hend).symm

end Brush

theorem Tuple.Sound.nodup_touched {t : Tuple} (h : Sound t.attacks) : t.touched.Nodup := by
  apply List.Nodup.of_map StringId.number
  rw [map_number_touched h.onInstrument]
  exact h.distinct

namespace Score

/-!
# Notes under a brush
-/

theorem Adds.struck_iff {score next : Score} {t : Tuple} (h : Adds t score next)
    (hended : score.Ended) (s : StringId) :
    (exists n, n ∈ (next.timeline s).notes ∧ n.start = score.length) <-> s ∈ t.touched := by
  unfold Tuple.touched
  rw [List.mem_filterMap]
  constructor
  · intro ⟨n, hn, hstart⟩
    rcases (h.notes s n).mp hn with hold | ⟨pair, p, d, hpair, hread, _, _⟩
    · exact absurd hstart (Int.ne_of_lt (hended s n hold))
    · refine ⟨pair, hpair, ?_⟩
      rw [(readPair_eq_ok_iff.mp hread).left]
      exact s.ofNumber?_number
  · intro ⟨pair, hpair, hs⟩
    rcases h.readable pair hpair with ⟨⟨r, p⟩, hread⟩
    rcases h.length with ⟨d, hd, _⟩
    have hsame := hs
    rw [(readPair_eq_ok_iff.mp hread).left, r.ofNumber?_number] at hsame
    injection hsame with hrs
    subst hrs
    exact ⟨_, (h.notes r _).mpr (Or.inr ⟨pair, p, d, hpair, hread, hd, rfl⟩), rfl⟩

structure Strummed (score : Score) : Prop where
  ended : score.Ended
  started : forall b, b ∈ score.brushes -> b.start < score.length
  covers : forall b, b ∈ score.brushes -> forall s,
    b.Covers s <-> exists n, n ∈ (score.timeline s).notes ∧ n.start = b.start

theorem strummed_default : Strummed {} where
  ended := lined_nil.ended
  started := by
    intro b hb
    cases hb
  covers := by
    intro b hb
    cases hb

theorem Strummed.add {score next : Score} {t : Tuple} (hscore : score.Strummed)
    (hsound : Tuple.Sound t.attacks) (h : Adds t score next) : next.Strummed := by
  rcases hscore.ended.add h with ⟨hlater, hended⟩
  refine ⟨hended, ?_, ?_⟩
  · intro b hb
    rcases h.mem_brushes hb with hold | hnew
    · exact Int.lt_trans (hscore.started b hold) hlater
    · rw [start_of_across hnew]
      exact hlater
  · intro b hb s
    rcases h.mem_brushes hb with hold | hnew
    · -- The notes of the tuple start later than an older brush.
      have hstarted := hscore.started b hold
      rw [hscore.covers b hold]
      constructor
      · intro ⟨n, hn, hstart⟩
        exact ⟨n, (h.notes s n).mpr (Or.inl hn), hstart⟩
      · intro ⟨n, hn, hstart⟩
        rcases (h.notes s n).mp hn with hkept | ⟨_, _, _, _, _, _, rfl⟩
        · exact ⟨n, hkept, hstart⟩
        · exact absurd hstart.symm (Int.ne_of_lt hstarted)
    · rw [Brush.covers_iff_of_across hnew hsound.nodup_touched, start_of_across hnew]
      exact (h.struck_iff hscore.ended s).symm

theorem strummed_read {detect : Bool} {text : List Char} {score : Score}
    (h : Score.read detect text = .ok score) : score.Strummed := by
  apply Outcome.foldlM_invariant Strummed (Tuple.all detect text) _ strummed_default h
  intro mid t next ht hmid hstep
  have hadd := addTuple_eq_ok_iff.mp hstep
  have hvalid := (add_ok_iff hmid.ended (Tuple.number_le_of_mem_attacks ht)).mp ⟨next, hadd⟩
  exact hmid.add hvalid.sound (adds_of_add hadd)

end Score
end Plectrum

import Plectrum.Proofs.Outcome
import Plectrum.Proofs.Score.Tuple
import Plectrum.Score.Reading

/-!
# The notes of a score

A tuple adds one note for each of its pairs, all of them at the end of the score so
far, and it changes nothing else that was there.  So no note starts before the score
does, some note starts with it, and every brush starts together with a note.
-/

namespace Plectrum

namespace Tuple

theorem pairUpFrom_found :
    forall (digits : List Char) (found : List (Nat × Nat)),
      pairUpFrom found digits = found.reverse ++ pairUpFrom [] digits
  | [], found => by simp [pairUpFrom]
  | [a], found => by simp [pairUpFrom]
  | a :: b :: rest, found => by
      rw [pairUpFrom, pairUpFrom, pairUpFrom_found rest, pairUpFrom_found rest [_]]
      simp

theorem attacks_ne_nil {detect : Bool} {text : List Char} {t : Tuple}
    (h : t ∈ all detect text) : t.attacks ≠ [] := by
  rcases parts_of_mem_allFrom _ h with ⟨hne, heven, _⟩
  unfold attacks
  cases hpairs : t.pairs with
  | nil => exact absurd hpairs hne
  | cons a rest =>
      cases rest with
      | nil =>
          rw [hpairs] at heven
          cases heven
      | cons b rest =>
          rw [pairUpFrom, pairUpFrom_found]
          simp

end Tuple

namespace Timeline

theorem mem_notes_of_insert {t u : Timeline} {n : Note} (h : t.insert n = .ok u)
    (k : Note) : k ∈ u.notes <-> k = n ∨ k ∈ t.notes := by
  unfold insert at h
  split at h
  · rename_i ns hplace
    injection h with h
    rw [<- h]
    unfold notes
    rw [List.mem_reverse, List.mem_reverse]
    exact mem_of_place t.latestFirst hplace
  · cases h

end Timeline

namespace Score

/-!
# Adding attacks
-/

theorem addAttack_eq_ok_iff {score next : Score} {duration : Nat} {pair : Nat × Nat} :
    addAttack duration score pair = .ok next <->
      exists s p t, readPair pair = .ok (s, p) ∧
        (score.timeline s).insert ⟨score.length, p, duration⟩ = .ok t ∧
        next = score.setTimeline s t := by
  unfold addAttack
  rw [Outcome.bind_eq_ok_iff]
  constructor
  · intro ⟨note, hnote, h⟩
    unfold addNote at h
    split at h
    · rename_i t ht
      injection h with h
      exact ⟨note.1, note.2, t, hnote, ht, h.symm⟩
    · cases h
  · intro ⟨s, p, t, hpair, ht, hnext⟩
    refine ⟨(s, p), hpair, ?_⟩
    unfold addNote
    rw [ht, hnext]

theorem frame_of_addAttacks {duration : Nat} (pairs : List (Nat × Nat))
    {score next : Score} (h : pairs.foldlM (addAttack duration) score = .ok next) :
    next.length = score.length ∧ next.latestBrushes = score.latestBrushes := by
  apply Outcome.foldlM_invariant
    (fun mid => mid.length = score.length ∧ mid.latestBrushes = score.latestBrushes)
    pairs _ ⟨rfl, rfl⟩ h
  intro mid pair result _ hmid hstep
  rcases addAttack_eq_ok_iff.mp hstep with ⟨s, p, t, _, _, rfl⟩
  exact hmid

theorem mem_notes_of_addAttack {score next : Score} {duration : Nat} {pair : Nat × Nat}
    (h : addAttack duration score pair = .ok next) (r : StringId) (n : Note) :
    n ∈ (next.timeline r).notes <->
      n ∈ (score.timeline r).notes ∨
        exists p, readPair pair = .ok (r, p) ∧ n = ⟨score.length, p, duration⟩ := by
  rcases addAttack_eq_ok_iff.mp h with ⟨s, p, t, hpair, ht, rfl⟩
  rw [timeline_setTimeline, hpair]
  by_cases hsr : s = r
  · subst hsr
    rw [if_pos rfl, Timeline.mem_notes_of_insert ht, or_comm]
    simp
  · rw [if_neg hsr]
    simp [hsr]

theorem mem_notes_of_addAttacks {duration : Nat} (pairs : List (Nat × Nat)) :
    forall {score next : Score},
      pairs.foldlM (addAttack duration) score = .ok next ->
        forall (r : StringId) (n : Note), n ∈ (next.timeline r).notes <->
          n ∈ (score.timeline r).notes ∨
            exists pair p, pair ∈ pairs ∧ readPair pair = .ok (r, p) ∧
              n = ⟨score.length, p, duration⟩ := by
  induction pairs with
  | nil =>
      intro score next h r n
      injection h with h
      rw [h]
      simp
  | cons pair rest ih =>
      intro score next h r n
      rw [List.foldlM_cons] at h
      rcases Outcome.bind_eq_ok_iff.mp h with ⟨mid, hmid, hrest⟩
      have hlength : mid.length = score.length := by
        rcases addAttack_eq_ok_iff.mp hmid with ⟨s, p, t, _, _, rfl⟩
        rfl
      rw [ih hrest, mem_notes_of_addAttack hmid, hlength, or_assoc]
      apply or_congr_right
      constructor
      · intro hn
        rcases hn with ⟨p, hread, hn⟩ | ⟨other, p, hmem, hread, hn⟩
        · exact ⟨pair, p, List.mem_cons_self, hread, hn⟩
        · exact ⟨other, p, List.mem_cons_of_mem pair hmem, hread, hn⟩
      · intro ⟨other, p, hmem, hread, hn⟩
        cases List.mem_cons.mp hmem with
        | inl heq => exact Or.inl ⟨p, heq ▸ hread, hn⟩
        | inr hmem => exact Or.inr ⟨other, p, hmem, hread, hn⟩

theorem readPair_of_addAttacks {duration : Nat} (pairs : List (Nat × Nat)) :
    forall {score next : Score},
      pairs.foldlM (addAttack duration) score = .ok next -> forall pair, pair ∈ pairs ->
        exists note, readPair pair = .ok note := by
  induction pairs with
  | nil =>
      intro score next _ pair hpair
      cases hpair
  | cons first rest ih =>
      intro score next h pair hpair
      rw [List.foldlM_cons] at h
      rcases Outcome.bind_eq_ok_iff.mp h with ⟨mid, hmid, hrest⟩
      cases List.mem_cons.mp hpair with
      | inl heq =>
          rcases addAttack_eq_ok_iff.mp hmid with ⟨s, p, _, hread, _⟩
          exact ⟨(s, p), heq ▸ hread⟩
      | inr hmem => exact ih hrest pair hmem

/-!
# Adding a tuple
-/

theorem divisions_pos {t : Tuple} {d : Nat} (h : t.divisions = .ok d) : 0 < d := by
  unfold Tuple.divisions at h
  split at h
  · cases h
  · rename_i n hzero _
    injection h with h
    rw [<- h]
    exact Nat.pos_of_ne_zero (fun heq => hzero (by rw [heq]))
  · cases h

theorem start_of_across {start : Int} {touched : List StringId} {b : Brush}
    (h : Brush.across start touched = .ok b) : b.start = start := by
  unfold Brush.across at h
  split at h
  · rcases Outcome.map_eq_ok_iff.mp h with ⟨_, _, rfl⟩
    rfl
  · cases h

theorem add_eq_ok_iff {score next : Score} {t : Tuple} :
    score.add t = .ok next <->
      exists d attacked brushed, t.divisions = .ok d ∧
        t.attacks.foldlM (addAttack d) score = .ok attacked ∧
        attacked.addStroke t = .ok brushed ∧ next = brushed.advance d := by
  unfold add
  rw [Outcome.bind_eq_ok_iff]
  constructor
  · intro ⟨d, hd, h⟩
    rcases Outcome.bind_eq_ok_iff.mp h with ⟨attacked, hattacked, h⟩
    rcases Outcome.bind_eq_ok_iff.mp h with ⟨brushed, hbrushed, h⟩
    injection h with h
    exact ⟨d, attacked, brushed, hd, hattacked, hbrushed, h.symm⟩
  · intro ⟨d, attacked, brushed, hd, hattacked, hbrushed, hnext⟩
    refine ⟨d, hd, Outcome.bind_eq_ok_iff.mpr ⟨attacked, hattacked, ?_⟩⟩
    refine Outcome.bind_eq_ok_iff.mpr ⟨brushed, hbrushed, ?_⟩
    rw [hnext]
    rfl

theorem addStroke_cases {score next : Score} {t : Tuple}
    (h : score.addStroke t = .ok next) :
    (t.brush = false ∧ next = score) ∨
      (t.brush = true ∧ exists b, Brush.across score.length t.touched = .ok b ∧
        next = score.addBrush b) := by
  unfold addStroke at h
  cases hbrush : t.brush with
  | false =>
      rw [if_neg (by simp [hbrush])] at h
      injection h with h
      exact Or.inl ⟨rfl, h.symm⟩
  | true =>
      rw [if_pos hbrush] at h
      rcases Outcome.map_eq_ok_iff.mp h with ⟨b, hb, hnext⟩
      exact Or.inr ⟨rfl, b, hb, hnext.symm⟩

structure Adds (t : Tuple) (score next : Score) : Prop where
  length : exists d : Nat, t.divisions = .ok d ∧ next.length = score.length + d
  notes : forall r n, n ∈ (next.timeline r).notes <->
    n ∈ (score.timeline r).notes ∨
      exists pair p d, pair ∈ t.attacks ∧ readPair pair = .ok (r, p) ∧
        t.divisions = .ok d ∧ n = ⟨score.length, p, d⟩
  readable : forall pair, pair ∈ t.attacks -> exists note, readPair pair = .ok note
  brushes : next.brushes = score.brushes ∨
    exists b, Brush.across score.length t.touched = .ok b ∧
      next.brushes = score.brushes ++ [b]

theorem adds_of_add {score next : Score} {t : Tuple} (h : score.add t = .ok next) :
    Adds t score next := by
  rcases add_eq_ok_iff.mp h with ⟨d, attacked, brushed, hd, hattacked, hbrushed, rfl⟩
  rcases frame_of_addAttacks t.attacks hattacked with ⟨hlength, hlatest⟩
  have hnotes : forall r n, n ∈ (attacked.timeline r).notes <->
      n ∈ (score.timeline r).notes ∨
        exists pair p d, pair ∈ t.attacks ∧ readPair pair = .ok (r, p) ∧
          t.divisions = .ok d ∧ n = ⟨score.length, p, d⟩ := by
    intro r n
    rw [mem_notes_of_addAttacks t.attacks hattacked]
    apply or_congr_right
    constructor
    · intro ⟨pair, p, hmem, hread, hn⟩
      exact ⟨pair, p, d, hmem, hread, hd, hn⟩
    · intro ⟨pair, p, d', hmem, hread, hd', hn⟩
      rw [hd] at hd'
      injection hd' with hd'
      exact ⟨pair, p, hmem, hread, hd' ▸ hn⟩
  have hreadable := readPair_of_addAttacks t.attacks hattacked
  rcases addStroke_cases hbrushed with ⟨_, rfl⟩ | ⟨_, b, hb, rfl⟩
  · refine ⟨⟨d, hd, congrArg (· + (d : Int)) hlength⟩, hnotes, hreadable, Or.inl ?_⟩
    exact congrArg List.reverse hlatest
  · refine ⟨⟨d, hd, congrArg (· + (d : Int)) hlength⟩, hnotes, hreadable, Or.inr ?_⟩
    refine ⟨b, hlength ▸ hb, ?_⟩
    show (b :: attacked.latestBrushes).reverse = score.brushes ++ [b]
    rw [List.reverse_cons, hlatest]
    rfl

theorem Adds.mem_brushes {score next : Score} {t : Tuple} (h : Adds t score next)
    {b : Brush} (hb : b ∈ next.brushes) :
    b ∈ score.brushes ∨ Brush.across score.length t.touched = .ok b := by
  rcases h.brushes with hsame | ⟨c, hc, hmore⟩
  · exact Or.inl (hsame ▸ hb)
  · rw [hmore] at hb
    cases List.mem_append.mp hb with
    | inl hold => exact Or.inl hold
    | inr hnew => exact Or.inr (List.mem_singleton.mp hnew ▸ hc)

theorem addTuple_eq_ok_iff {score next : Score} {t : Tuple} :
    score.addTuple t = .ok next <-> score.add t = .ok next :=
  Outcome.mapError_eq_ok_iff

/-!
# The times of notes and brushes
-/

structure WellTimed (score : Score) : Prop where
  length_nonneg : 0 <= score.length
  starts : forall s n, n ∈ (score.timeline s).notes -> 0 <= n.start ∧ n.start < score.length
  first : 0 < score.length -> exists s n, n ∈ (score.timeline s).notes ∧ n.start = 0
  struck : forall b, b ∈ score.brushes ->
    exists s n, n ∈ (score.timeline s).notes ∧ n.start = b.start

theorem notes_default (s : StringId) : (({} : Score).timeline s).notes = [] := by
  simp [timeline, Timeline.notes]

theorem wellTimed_default : WellTimed {} where
  length_nonneg := Int.le_refl 0
  starts := by
    intro s n hn
    rw [notes_default] at hn
    cases hn
  first := by
    intro h
    exact absurd h (Int.lt_irrefl 0)
  struck := by
    intro b hb
    cases hb

theorem Adds.exists_note {t : Tuple} {score next : Score} (h : Adds t score next)
    (hne : t.attacks ≠ []) :
    exists s n, n ∈ (next.timeline s).notes ∧ n.start = score.length := by
  rcases List.exists_mem_of_ne_nil _ hne with ⟨pair, hpair⟩
  rcases h.readable pair hpair with ⟨⟨s, p⟩, hread⟩
  rcases h.length with ⟨d, hd, _⟩
  refine ⟨s, ⟨score.length, p, d⟩, (h.notes s _).mpr (Or.inr ?_), rfl⟩
  exact ⟨pair, p, d, hpair, hread, hd, rfl⟩

theorem WellTimed.add {t : Tuple} {score next : Score} (hscore : score.WellTimed)
    (hne : t.attacks ≠ []) (h : Adds t score next) : next.WellTimed := by
  rcases h.length with ⟨d, hd, hlength⟩
  have hpos := divisions_pos hd
  have hnonneg := hscore.length_nonneg
  have hkept : forall s n, n ∈ (score.timeline s).notes -> n ∈ (next.timeline s).notes :=
    fun s n hn => (h.notes s n).mpr (Or.inl hn)
  constructor
  · omega
  · intro s n hn
    rcases (h.notes s n).mp hn with hold | ⟨_, p, d', _, _, _, rfl⟩
    · have hstart := hscore.starts s n hold
      omega
    · show 0 <= score.length ∧ score.length < next.length
      omega
  · intro _
    by_cases hzero : score.length = 0
    · rcases h.exists_note hne with ⟨s, n, hn, hstart⟩
      exact ⟨s, n, hn, hstart.trans hzero⟩
    · rcases hscore.first (by omega) with ⟨s, n, hn, hstart⟩
      exact ⟨s, n, hkept s n hn, hstart⟩
  · intro b hb
    rcases h.mem_brushes hb with hold | hnew
    · rcases hscore.struck b hold with ⟨s, n, hn, hstart⟩
      exact ⟨s, n, hkept s n hn, hstart⟩
    · rcases h.exists_note hne with ⟨s, n, hn, hstart⟩
      rw [start_of_across hnew]
      exact ⟨s, n, hn, hstart⟩

theorem wellTimed_read {detect : Bool} {text : List Char} {score : Score}
    (h : Score.read detect text = .ok score) : score.WellTimed := by
  apply Outcome.foldlM_invariant WellTimed (Tuple.all detect text) _ wellTimed_default h
  intro mid t next ht hmid hstep
  exact hmid.add (Tuple.attacks_ne_nil ht) (adds_of_add (addTuple_eq_ok_iff.mp hstep))

/-!
# Reading without brushes
-/

def withoutBrushes (score : Score) : Score :=
  { score with latestBrushes := [] }

@[simp] theorem brushes_withoutBrushes (score : Score) :
    score.withoutBrushes.brushes = [] := rfl

theorem addAttacks_withoutBrushes {duration : Nat} (pairs : List (Nat × Nat)) :
    forall {score next : Score},
      pairs.foldlM (addAttack duration) score = .ok next ->
        pairs.foldlM (addAttack duration) score.withoutBrushes =
          .ok next.withoutBrushes := by
  induction pairs with
  | nil =>
      intro score next h
      injection h with h
      rw [h]
      rfl
  | cons pair rest ih =>
      intro score next h
      rw [List.foldlM_cons] at h ⊢
      rcases Outcome.bind_eq_ok_iff.mp h with ⟨mid, hmid, hrest⟩
      rcases addAttack_eq_ok_iff.mp hmid with ⟨s, p, t, hpair, ht, rfl⟩
      exact Outcome.bind_eq_ok_iff.mpr
        ⟨_, addAttack_eq_ok_iff.mpr ⟨s, p, t, hpair, ht, rfl⟩, ih hrest⟩

theorem add_withoutBrushes {marked plain : Tuple} (hplain : Tuple.Unmarks marked plain)
    {score next : Score} (h : score.add marked = .ok next) :
    score.withoutBrushes.add plain = .ok next.withoutBrushes := by
  rcases add_eq_ok_iff.mp h with ⟨d, attacked, brushed, hd, hattacked, hbrushed, rfl⟩
  have hdivisions : plain.divisions = .ok d := by
    rw [<- hd, Tuple.divisions, Tuple.divisions, hplain.duration]
  have hattacks : plain.attacks = marked.attacks := by
    rw [Tuple.attacks, Tuple.attacks, hplain.pairs]
  have hstroke : attacked.withoutBrushes.addStroke plain = .ok brushed.withoutBrushes := by
    unfold addStroke
    rw [if_neg (by simp [hplain.brush])]
    rcases addStroke_cases hbrushed with ⟨_, rfl⟩ | ⟨_, b, _, rfl⟩ <;> rfl
  apply add_eq_ok_iff.mpr
  refine ⟨d, attacked.withoutBrushes, brushed.withoutBrushes, hdivisions, ?_, hstroke, rfl⟩
  rw [hattacks]
  exact addAttacks_withoutBrushes marked.attacks hattacked

theorem foldlM_addTuple_withoutBrushes {marked plain : List Tuple}
    (hplain : List.Forall₂ Tuple.Unmarks marked plain) :
    forall {score next : Score},
      marked.foldlM addTuple score = .ok next ->
        plain.foldlM addTuple score.withoutBrushes = .ok next.withoutBrushes := by
  induction hplain with
  | nil =>
      intro score next h
      injection h with h
      rw [h]
      rfl
  | cons hfirst _ ih =>
      intro score next h
      rw [List.foldlM_cons] at h ⊢
      rcases Outcome.bind_eq_ok_iff.mp h with ⟨mid, hmid, hrest⟩
      have hadd := add_withoutBrushes hfirst (addTuple_eq_ok_iff.mp hmid)
      exact Outcome.bind_eq_ok_iff.mpr ⟨_, addTuple_eq_ok_iff.mpr hadd, ih hrest⟩

theorem read_withoutBrushes {detect : Bool} {text : List Char} {score : Score}
    (h : Score.read detect text = .ok score) :
    Score.read false text = .ok score.withoutBrushes :=
  foldlM_addTuple_withoutBrushes (Tuple.unmarks_all detect text) h

theorem brushes_of_read_false {text : List Char} {score : Score}
    (h : Score.read false text = .ok score) : score.brushes = [] := by
  have hplain := read_withoutBrushes h
  rw [h] at hplain
  injection hplain with hplain
  rw [hplain]
  rfl

end Score
end Plectrum

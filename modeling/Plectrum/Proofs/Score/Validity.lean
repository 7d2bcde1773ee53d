import Mathlib.Data.List.Chain
import Plectrum.Proofs.Score.Grammar
import Plectrum.Proofs.Score.Reading
import Plectrum.Proofs.Score.Timeline
import Plectrum.Proofs.Text.Numeral

/-!
# Valid tuples

A score can be read if and only if every one of its tuples is valid.  Each tuple is so
on its own: the notes of different tuples are never in conflict, since a tuple starts
later than all notes before it.  Otherwise the error is the first fault of the first
tuple that is not valid.  Its duration is looked at first, then its pairs one by one,
and then the brush.
-/

namespace Plectrum

theorem StringId.number_inj {s r : StringId} (h : s.number = r.number) : s = r := by
  have hs := ofNumber?_number s
  rw [h, ofNumber?_number] at hs
  injection hs with hs
  exact hs.symm

def StringId.Neighbours (a b : StringId) : Prop :=
  a.number + 1 = b.number ∨ b.number + 1 = a.number

/-- Whether the first step of some strings that leads to no neighbour is from `a` to `b`. -/
def Brush.SkipsFirst (strings : List StringId) (a b : StringId) : Prop :=
  exists front back, strings = front ++ a :: b :: back ∧
    (front ++ [a]).IsChain StringId.Neighbours ∧ ¬ a.Neighbours b

namespace Tuple

/-!
# Validity
-/

def value (t : Tuple) : Nat :=
  Nat.ofDigitChars 10 t.duration 0

def Lasts (t : Tuple) : Prop :=
  1 <= t.value ∧ t.value <= wordMax

def OnInstrument (pair : Nat × Nat) : Prop :=
  (1 <= pair.1 ∧ pair.1 <= 9) ∧ pair.2 <= Position.last

structure Sound (pairs : List (Nat × Nat)) : Prop where
  onInstrument : forall pair, pair ∈ pairs -> OnInstrument pair
  distinct : (pairs.map Prod.fst).Nodup

structure Valid (t : Tuple) : Prop where
  lasts : t.Lasts
  sound : Sound t.attacks
  brush : t.brush = true -> 2 <= t.attacks.length ∧ t.touched.IsChain StringId.Neighbours

/-- What is wrong with a pair, behind sound pairs of the same tuple. -/
inductive PairFault (time : Int) (earlier : List (Nat × Nat)) :
    Nat × Nat -> TupleFault -> Prop where
  | unknownString {number position : Nat} :
      ¬ (1 <= number ∧ number <= 9) ->
        PairFault time earlier (number, position) (.unknownString number)
  | positionTooLarge {number position : Nat} :
      1 <= number ∧ number <= 9 -> Position.last < position ->
        PairFault time earlier (number, position) (.positionTooLarge position)
  | conflict {s : StringId} {position : Nat} :
      s.number <= 9 -> position <= Position.last -> s.number ∈ earlier.map Prod.fst ->
        PairFault time earlier (s.number, position) (.conflict s time)

/-- What is found wrong with a tuple that starts at a time. -/
inductive FirstFault (time : Int) (t : Tuple) : TupleFault -> Prop where
  | noDuration : t.value = 0 -> FirstFault time t .noDuration
  | durationTooLong : wordMax < t.value -> FirstFault time t (.durationTooLong t.duration)
  | pair {earlier later : List (Nat × Nat)} {pair : Nat × Nat} {fault : TupleFault} :
      t.Lasts -> t.attacks = earlier ++ pair :: later -> Sound earlier ->
        PairFault time earlier pair fault -> FirstFault time t fault
  | brushTooNarrow :
      t.Lasts -> Sound t.attacks -> t.brush = true -> t.attacks.length < 2 ->
        FirstFault time t .brushTooNarrow
  | brushSkips {a b : StringId} :
      t.Lasts -> Sound t.attacks -> t.brush = true -> Brush.SkipsFirst t.touched a b ->
        FirstFault time t (.brushSkips a b)

/-!
# Durations
-/

theorem divisions_eq (t : Tuple) :
    t.divisions =
      if t.value = 0 then .error .noDuration
      else if wordMax < t.value then .error (.durationTooLong t.duration)
      else .ok t.value := by
  unfold divisions
  cases hvalue : Text.Decimal.value? wordMax t.duration with
  | none =>
      have hlong : wordMax < t.value := Text.Decimal.value?_eq_none_iff.mp hvalue
      rw [if_neg (Nat.ne_of_gt (Nat.zero_lt_of_lt hlong)), if_pos hlong]
  | some n =>
      rcases Text.Decimal.value?_eq_some_iff.mp hvalue with ⟨hn, hle⟩
      change n = t.value at hn
      subst hn
      rw [if_neg (Nat.not_lt.mpr hle)]
      cases t.value with
      | zero => rfl
      | succ k => rfl

theorem divisions_eq_ok_iff {t : Tuple} {d : Nat} :
    t.divisions = .ok d <-> t.Lasts ∧ d = t.value := by
  rw [divisions_eq]
  unfold Lasts
  split
  · rename_i hzero
    simp [hzero]
  · rename_i hne
    split
    · rename_i hlong
      simp [Nat.not_le.mpr hlong]
    · rename_i hle
      have hpos : 1 <= t.value := Nat.pos_of_ne_zero hne
      simp [hpos, Nat.not_lt.mp hle, eq_comm]

theorem divisions_eq_error_iff {t : Tuple} {fault : TupleFault} :
    t.divisions = .error fault <->
      (t.value = 0 ∧ fault = .noDuration) ∨
        (wordMax < t.value ∧ fault = .durationTooLong t.duration) := by
  rw [divisions_eq]
  split
  · rename_i hzero
    simp [hzero, eq_comm]
  · rename_i hne
    split
    · rename_i hlong
      simp [hne, hlong, eq_comm]
    · rename_i hle
      simp [hne, hle]

/-!
# Pairs
-/

theorem sound_nil : Sound [] where
  onInstrument := by
    intro pair hpair
    cases hpair
  distinct := List.nodup_nil

theorem sound_concat_iff {earlier : List (Nat × Nat)} {pair : Nat × Nat} :
    Sound (earlier ++ [pair]) <->
      Sound earlier ∧ OnInstrument pair ∧ pair.1 ∉ earlier.map Prod.fst := by
  constructor
  · intro ⟨hon, hdistinct⟩
    rw [List.map_append, List.map_singleton, List.nodup_append] at hdistinct
    rcases hdistinct with ⟨hearlier, _, hnew⟩
    refine ⟨⟨?_, hearlier⟩, ?_, ?_⟩
    · intro other hother
      exact hon other (List.mem_append_left [pair] hother)
    · exact hon pair (List.mem_append_right earlier List.mem_cons_self)
    · intro hmem
      exact hnew _ hmem _ List.mem_cons_self rfl
  · intro ⟨⟨hon, hdistinct⟩, hpair, hnew⟩
    constructor
    · intro other hother
      cases List.mem_append.mp hother with
      | inl hearlier => exact hon other hearlier
      | inr hlast => exact List.mem_singleton.mp hlast ▸ hpair
    · rw [List.map_append, List.map_singleton, List.nodup_append]
      refine ⟨hdistinct, List.pairwise_singleton _ _, ?_⟩
      intro a ha b hb hab
      rw [hab, List.mem_singleton.mp hb] at ha
      exact hnew ha

theorem exists_number {n : Nat} (h : 1 <= n ∧ n <= 9) : exists s : StringId, s.number = n := by
  have hcount : n - 1 < 16 := by omega
  exact ⟨⟨⟨n - 1, hcount⟩⟩, Nat.sub_add_cancel h.left⟩

theorem no_pairFault_iff (time : Int) {earlier : List (Nat × Nat)} {pair : Nat × Nat} :
    (forall fault, ¬ PairFault time earlier pair fault) <->
      OnInstrument pair ∧ pair.1 ∉ earlier.map Prod.fst := by
  constructor
  · intro hnone
    have hnumber : 1 <= pair.1 ∧ pair.1 <= 9 :=
      Decidable.not_not.mp (fun h => hnone _ (PairFault.unknownString h))
    have hposition : pair.2 <= Position.last :=
      Nat.not_lt.mp (fun h => hnone _ (PairFault.positionTooLarge hnumber h))
    refine ⟨⟨hnumber, hposition⟩, ?_⟩
    intro hmem
    rcases exists_number hnumber with ⟨s, hs⟩
    have hfault : PairFault time earlier (s.number, pair.2) (.conflict s time) :=
      PairFault.conflict (hs ▸ hnumber.right) hposition (hs ▸ hmem)
    rw [hs] at hfault
    exact hnone _ hfault
  · intro ⟨⟨hnumber, hposition⟩, hnew⟩ fault h
    cases h with
    | unknownString hno => exact hno hnumber
    | positionTooLarge _ hlarge => exact Nat.not_le.mpr hlarge hposition
    | conflict _ _ hmem => exact hnew hmem

theorem mem_pairUpFrom {pair : Nat × Nat} :
    forall {digits : List Char}, pair ∈ pairUpFrom [] digits ->
      exists a b, a ∈ digits ∧ b ∈ digits ∧
        pair = (Text.Decimal.digitValue a, Text.Decimal.digitValue b)
  | [], h => by cases h
  | [_], h => by cases h
  | a :: b :: rest, h => by
      rw [pairUpFrom, pairUpFrom_found] at h
      rcases List.mem_append.mp h with hfirst | hrest
      · refine ⟨a, b, List.mem_cons_self, List.mem_cons_of_mem a List.mem_cons_self, ?_⟩
        exact List.mem_singleton.mp hfirst
      · rcases mem_pairUpFrom hrest with ⟨c, d, hc, hd, hpair⟩
        exact ⟨c, d, List.mem_cons_of_mem a (List.mem_cons_of_mem b hc),
          List.mem_cons_of_mem a (List.mem_cons_of_mem b hd), hpair⟩

theorem number_le_of_mem_attacks {detect : Bool} {text : List Char} {t : Tuple}
    (h : t ∈ all detect text) : forall pair, pair ∈ t.attacks -> pair.1 <= 9 := by
  intro pair hpair
  rcases mem_pairUpFrom hpair with ⟨a, b, ha, _, rfl⟩
  exact Text.Decimal.digitValue_le (pairs_digits_of_mem_all h a ha)

end Tuple

namespace Score

/-!
# Adding attacks
-/

theorem readPair_eq_ok_iff {pair : Nat × Nat} {s : StringId} {p : Position} :
    readPair pair = .ok (s, p) <-> pair = (s.number, p) ∧ p <= Position.last := by
  unfold readPair
  constructor
  · intro h
    split at h
    · cases h
    · rename_i r hr
      split at h
      · rename_i hle
        injection h with h
        injection h with hs hp
        subst hs hp
        exact ⟨by rw [StringId.number_of_ofNumber? hr], hle⟩
      · cases h
  · intro ⟨hpair, hle⟩
    rw [hpair]
    simp [StringId.ofNumber?_number, hle]

theorem readPair_eq_error_iff {pair : Nat × Nat} (hdigit : pair.1 <= 9)
    {fault : TupleFault} :
    readPair pair = .error fault <->
      (¬ (1 <= pair.1 ∧ pair.1 <= 9) ∧ fault = .unknownString pair.1) ∨
        ((1 <= pair.1 ∧ pair.1 <= 9) ∧ Position.last < pair.2 ∧
          fault = .positionTooLarge pair.2) := by
  unfold readPair
  by_cases hnumber : 1 <= pair.1 ∧ pair.1 <= 9
  · rcases Tuple.exists_number hnumber with ⟨s, hs⟩
    rw [<- hs, StringId.ofNumber?_number, hs]
    by_cases hle : pair.2 <= Position.last
    · simp [hnumber, hle, Nat.not_lt.mpr hle]
    · simp [hnumber, hle, Nat.not_le.mp hle, eq_comm]
  · have hnone : StringId.ofNumber? pair.1 = none := by
      unfold StringId.ofNumber?
      rw [dif_neg (fun h => hnumber ⟨h.left, hdigit⟩)]
    simp [hnone, hnumber, eq_comm]

theorem addNote_eq_error_iff {score : Score} {duration : Nat} {s : StringId}
    {p : Position} {fault : TupleFault} :
    score.addNote duration s p = .error fault <->
      (exists n, n ∈ (score.timeline s).notes ∧ n.start = score.length) ∧
        fault = .conflict s score.length := by
  unfold addNote
  cases hinsert : (score.timeline s).insert ⟨score.length, p, duration⟩ with
  | ok t =>
      have hfree : ¬ exists n, n ∈ (score.timeline s).notes ∧ n.start = score.length := by
        intro ⟨n, hn, hstart⟩
        have hrefused : (score.timeline s).insert ⟨score.length, p, duration⟩ = .error n :=
          Timeline.insert_eq_error_iff.mpr ⟨hn, hstart⟩
        cases hinsert.symm.trans hrefused
      simp [hfree]
  | error n =>
      have hfound : exists n, n ∈ (score.timeline s).notes ∧ n.start = score.length :=
        ⟨n, Timeline.insert_eq_error_iff.mp hinsert⟩
      simp [hfound, eq_comm]

structure Attacked (score : Score) (earlier : List (Nat × Nat)) (mid : Score) : Prop where
  length : mid.length = score.length
  struck : forall s, (exists n, n ∈ (mid.timeline s).notes ∧ n.start = score.length) <->
    s.number ∈ earlier.map Prod.fst

def Ended (score : Score) : Prop :=
  forall s n, n ∈ (score.timeline s).notes -> n.start < score.length

theorem Ended.attacked {score : Score} (h : score.Ended) : Attacked score [] score where
  length := rfl
  struck := by
    intro s
    constructor
    · intro ⟨n, hn, hstart⟩
      exact absurd hstart (Int.ne_of_lt (h s n hn))
    · intro hs
      cases hs

theorem Attacked.concat {score mid next : Score} {duration : Nat}
    {earlier : List (Nat × Nat)} {pair : Nat × Nat} (hmid : Attacked score earlier mid)
    (h : addAttack duration mid pair = .ok next) :
    Attacked score (earlier ++ [pair]) next := by
  have hnotes := mem_notes_of_addAttack h
  rcases addAttack_eq_ok_iff.mp h with ⟨r, p, t, hread, _, rfl⟩
  have hpair := (readPair_eq_ok_iff.mp hread).left
  refine ⟨hmid.length, ?_⟩
  intro s
  rw [List.map_append, List.mem_append, <- hmid.struck, hpair, List.map_singleton,
    List.mem_singleton]
  constructor
  · intro ⟨n, hn, hstart⟩
    rcases (hnotes s n).mp hn with hold | ⟨q, hsread, _⟩
    · exact Or.inl ⟨n, hold, hstart⟩
    · rw [hread] at hsread
      injection hsread with hsame
      injection hsame with hrs _
      exact Or.inr (by rw [hrs])
  · intro hs
    rcases hs with ⟨n, hn, hstart⟩ | hsame
    · exact ⟨n, (hnotes s n).mpr (Or.inl hn), hstart⟩
    · have hsr := StringId.number_inj hsame
      subst hsr
      exact ⟨_, (hnotes s _).mpr (Or.inr ⟨p, hread, rfl⟩), hmid.length⟩

theorem Attacked.addAttack_eq_error_iff {score mid : Score} {duration : Nat}
    {earlier : List (Nat × Nat)} {pair : Nat × Nat} (hmid : Attacked score earlier mid)
    (hdigit : pair.1 <= 9) {fault : TupleFault} :
    addAttack duration mid pair = .error fault <->
      Tuple.PairFault score.length earlier pair fault := by
  unfold addAttack
  rw [Outcome.bind_eq_error_iff, readPair_eq_error_iff hdigit]
  constructor
  · intro h
    rcases h with (⟨hnumber, rfl⟩ | ⟨hnumber, hlarge, rfl⟩) | ⟨⟨s, p⟩, hread, hnote⟩
    · exact Tuple.PairFault.unknownString hnumber
    · exact Tuple.PairFault.positionTooLarge hnumber hlarge
    · rcases readPair_eq_ok_iff.mp hread with ⟨rfl, hle⟩
      rcases addNote_eq_error_iff.mp hnote with ⟨hfound, rfl⟩
      rw [hmid.length] at hfound ⊢
      exact Tuple.PairFault.conflict hdigit hle ((hmid.struck s).mp hfound)
  · intro h
    cases h with
    | unknownString hnumber => exact Or.inl (Or.inl ⟨hnumber, rfl⟩)
    | positionTooLarge hnumber hlarge => exact Or.inl (Or.inr ⟨hnumber, hlarge, rfl⟩)
    | @conflict s p hnumber hle hmem =>
        refine Or.inr ⟨(s, p), readPair_eq_ok_iff.mpr ⟨rfl, hle⟩, ?_⟩
        have hfound := (hmid.struck s).mpr hmem
        rw [<- hmid.length] at hfound
        rw [<- hmid.length]
        exact addNote_eq_error_iff.mpr ⟨hfound, rfl⟩

theorem Attacked.addAttack_ok_iff {score mid : Score} {duration : Nat}
    {earlier : List (Nat × Nat)} {pair : Nat × Nat} (hmid : Attacked score earlier mid)
    (hdigit : pair.1 <= 9) :
    (exists next, addAttack duration mid pair = .ok next) <->
      Tuple.OnInstrument pair ∧ pair.1 ∉ earlier.map Prod.fst := by
  rw [Outcome.ok_iff_forall_ne_error, <- Tuple.no_pairFault_iff score.length]
  simp only [hmid.addAttack_eq_error_iff hdigit]

section Attacks

variable {score : Score} (hended : score.Ended) {pairs : List (Nat × Nat)}
  (hdigits : forall pair, pair ∈ pairs -> pair.1 <= 9) {duration : Nat}
include hended hdigits

theorem addAttacks_ok_iff :
    (exists next, pairs.foldlM (addAttack duration) score = .ok next) <->
      Tuple.Sound pairs :=
  Outcome.foldlM_ok_iff (Attacked score) hended.attacked
    (fun _ _ _ _ _ hmid hstep => hmid.concat hstep) Tuple.Sound
    (fun earlier pair => Tuple.OnInstrument pair ∧ pair.1 ∉ earlier.map Prod.fst)
    Tuple.sound_nil
    (fun _ _ => Tuple.sound_concat_iff)
    (fun _ _ _ hdigit hmid => hmid.addAttack_ok_iff hdigit) hdigits

theorem addAttacks_eq_error_iff {fault : TupleFault} :
    pairs.foldlM (addAttack duration) score = .error fault <->
      exists earlier pair later, pairs = earlier ++ pair :: later ∧
        Tuple.Sound earlier ∧ Tuple.PairFault score.length earlier pair fault :=
  Outcome.foldlM_fault_iff (Attacked score) hended.attacked
    (fun _ _ _ _ _ hmid hstep => hmid.concat hstep) Tuple.Sound
    (Tuple.PairFault score.length)
    (fun _ hearlier => addAttacks_ok_iff hended hearlier)
    (fun _ _ _ _ hdigit hmid => hmid.addAttack_eq_error_iff hdigit) hdigits

end Attacks

end Score

/-!
# Brushes
-/

namespace Brush

theorem steps_cons_eq {a b : StringId} (rest : List StringId) :
    (a.Neighbours b -> steps (a :: b :: rest) = steps (b :: rest)) ∧
      (¬ a.Neighbours b -> steps (a :: b :: rest) = .error (.brushSkips a b)) :=
  ⟨fun h => if_pos h, fun h => if_neg h⟩

theorem steps_eq_ok_iff :
    forall strings : List StringId,
      steps strings = .ok () <-> strings.IsChain StringId.Neighbours
  | [] => ⟨fun _ => List.IsChain.nil, fun _ => rfl⟩
  | [a] => ⟨fun _ => List.IsChain.singleton a, fun _ => rfl⟩
  | a :: b :: rest => by
      rw [List.isChain_cons_cons, <- steps_eq_ok_iff (b :: rest)]
      by_cases hnext : a.Neighbours b
      · rw [(steps_cons_eq rest).left hnext]
        exact (and_iff_right hnext).symm
      · rw [(steps_cons_eq rest).right hnext]
        simp [hnext]

theorem skipsFirst_cons_iff {first second a b : StringId} {rest : List StringId} :
    SkipsFirst (first :: second :: rest) a b <->
      (¬ first.Neighbours second ∧ a = first ∧ b = second) ∨
        (first.Neighbours second ∧ SkipsFirst (second :: rest) a b) := by
  have hhead : forall front back : List StringId, second :: rest = front ++ a :: b :: back ->
      (front ++ [a]).head? = some second := by
    intro front back hsplit
    cases front with
    | nil =>
        injection hsplit with hsecond _
        rw [hsecond]
        rfl
    | cons c front =>
        injection hsplit with hsecond _
        rw [hsecond]
        rfl
  constructor
  · intro ⟨front, back, hsplit, hchain, hskip⟩
    cases front with
    | nil =>
        injection hsplit with hfirst hrest
        injection hrest with hsecond _
        subst hfirst hsecond
        exact Or.inl ⟨hskip, rfl, rfl⟩
    | cons c front =>
        injection hsplit with hfirst hrest
        subst hfirst
        rcases List.isChain_cons.mp hchain with ⟨hnext, hchain⟩
        exact Or.inr ⟨hnext second (hhead front back hrest), front, back, hrest, hchain, hskip⟩
  · intro h
    rcases h with ⟨hskip, rfl, rfl⟩ | ⟨hnext, front, back, hsplit, hchain, hskip⟩
    · exact ⟨[], rest, rfl, List.IsChain.singleton a, hskip⟩
    · refine ⟨first :: front, back, congrArg (first :: ·) hsplit, ?_, hskip⟩
      apply List.isChain_cons.mpr
      refine ⟨?_, hchain⟩
      intro c hc
      have hsame := (hhead front back hsplit).symm.trans hc
      injection hsame with hsame
      exact hsame ▸ hnext

theorem not_skipsFirst_of_short {strings : List StringId} (h : strings.length < 2)
    (a b : StringId) : ¬ SkipsFirst strings a b := by
  intro ⟨front, back, hsplit, _, _⟩
  rw [hsplit, List.length_append, List.length_cons, List.length_cons] at h
  omega

theorem steps_eq_error_iff {fault : TupleFault} :
    forall strings : List StringId,
      steps strings = .error fault <->
        exists a b, SkipsFirst strings a b ∧ fault = .brushSkips a b
  | [] => by
      simp [steps, not_skipsFirst_of_short]
  | [c] => by
      simp [steps, not_skipsFirst_of_short]
  | first :: second :: rest => by
      by_cases hnext : first.Neighbours second
      · rw [(steps_cons_eq rest).left hnext, steps_eq_error_iff (second :: rest)]
        simp [skipsFirst_cons_iff, hnext]
      · rw [(steps_cons_eq rest).right hnext]
        simp [skipsFirst_cons_iff, hnext, eq_comm]

theorem across_ok_iff {start : Int} {strings : List StringId} :
    (exists b, across start strings = .ok b) <->
      2 <= strings.length ∧ strings.IsChain StringId.Neighbours := by
  match strings with
  | [] => simp [across]
  | [a] => simp [across]
  | a :: b :: rest =>
      rw [<- steps_eq_ok_iff]
      unfold across
      simp only [Outcome.map_eq_ok_iff, List.length_cons]
      constructor
      · intro ⟨_, _, h, _⟩
        exact ⟨Nat.le_add_left 2 rest.length, h⟩
      · intro ⟨_, h⟩
        exact ⟨_, (), h, rfl⟩

theorem across_eq_error_iff {start : Int} {strings : List StringId} {fault : TupleFault} :
    across start strings = .error fault <->
      (strings.length < 2 ∧ fault = .brushTooNarrow) ∨
        exists a b, SkipsFirst strings a b ∧ fault = .brushSkips a b := by
  match strings with
  | [] => simp [across, not_skipsFirst_of_short, eq_comm]
  | [a] => simp [across, not_skipsFirst_of_short, eq_comm]
  | a :: b :: rest =>
      rw [<- steps_eq_error_iff]
      unfold across
      simp only [Outcome.map_eq_error_iff, List.length_cons]
      have hlong : ¬ rest.length + 1 + 1 < 2 := by omega
      simp [hlong]

end Brush

namespace Tuple

theorem map_number_touched {t : Tuple}
    (h : forall pair, pair ∈ t.attacks -> OnInstrument pair) :
    t.touched.map StringId.number = t.attacks.map Prod.fst := by
  unfold touched
  rw [List.map_filterMap]
  generalize t.attacks = pairs at h
  induction pairs with
  | nil => rfl
  | cons pair rest ih =>
      rcases exists_number (h pair List.mem_cons_self).left with ⟨s, hs⟩
      have hrest := ih (fun other hother => h other (List.mem_cons_of_mem pair hother))
      rw [List.map_cons, <- hrest, <- hs]
      simp [<- hs, StringId.ofNumber?_number]

theorem length_touched {t : Tuple} (h : Sound t.attacks) :
    t.touched.length = t.attacks.length := by
  have hnumbers := congrArg List.length (map_number_touched h.onInstrument)
  rw [List.length_map, List.length_map] at hnumbers
  exact hnumbers

end Tuple

/-!
# Adding a tuple
-/

namespace Score

theorem addStroke_eq {score : Score} {t : Tuple} :
    (t.brush = false -> score.addStroke t = .ok score) ∧
      (t.brush = true ->
        score.addStroke t = (Brush.across score.length t.touched).map score.addBrush) :=
  ⟨fun h => if_neg (by simp [h]), fun h => if_pos h⟩

theorem addStroke_ok_iff {score : Score} {t : Tuple} :
    (exists next, score.addStroke t = .ok next) <->
      (t.brush = true -> exists b, Brush.across score.length t.touched = .ok b) := by
  cases hbrush : t.brush with
  | false =>
      rw [addStroke_eq.left hbrush]
      simp
  | true =>
      rw [addStroke_eq.right hbrush]
      simp only [Outcome.map_eq_ok_iff, true_implies]
      constructor
      · intro ⟨_, b, hb, _⟩
        exact ⟨b, hb⟩
      · intro ⟨b, hb⟩
        exact ⟨_, b, hb, rfl⟩

theorem addStroke_eq_error_iff {score : Score} {t : Tuple} {fault : TupleFault} :
    score.addStroke t = .error fault <->
      t.brush = true ∧ Brush.across score.length t.touched = .error fault := by
  cases hbrush : t.brush with
  | false =>
      rw [addStroke_eq.left hbrush]
      simp
  | true =>
      rw [addStroke_eq.right hbrush, Outcome.map_eq_error_iff]
      simp

theorem add_eq_error_cases {score : Score} {t : Tuple} {fault : TupleFault} :
    score.add t = .error fault <->
      t.divisions = .error fault ∨
        exists d, t.divisions = .ok d ∧
          (t.attacks.foldlM (addAttack d) score = .error fault ∨
            exists attacked, t.attacks.foldlM (addAttack d) score = .ok attacked ∧
              attacked.addStroke t = .error fault) := by
  unfold add
  rw [Outcome.bind_eq_error_iff]
  apply or_congr_right
  apply exists_congr
  intro d
  rw [Outcome.bind_eq_error_iff]
  apply and_congr_right
  intro _
  apply or_congr_right
  apply exists_congr
  intro attacked
  rw [Outcome.bind_eq_error_iff]
  apply and_congr_right
  intro _
  constructor
  · intro h
    rcases h with h | ⟨_, _, h⟩
    · exact h
    · cases h
  · intro h
    exact Or.inl h

section Adding

variable {score : Score} (hended : score.Ended) {t : Tuple}
  (hdigits : forall pair, pair ∈ t.attacks -> pair.1 <= 9)
include hended hdigits

theorem add_ok_iff : (exists next, score.add t = .ok next) <-> t.Valid := by
  constructor
  · intro ⟨next, h⟩
    rcases add_eq_ok_iff.mp h with ⟨d, attacked, brushed, hd, hattacked, hbrushed, _⟩
    have hsound := (addAttacks_ok_iff hended hdigits).mp ⟨attacked, hattacked⟩
    refine ⟨(Tuple.divisions_eq_ok_iff.mp hd).left, hsound, ?_⟩
    intro hbrush
    rw [<- Tuple.length_touched hsound]
    exact Brush.across_ok_iff.mp (addStroke_ok_iff.mp ⟨brushed, hbrushed⟩ hbrush)
  · intro h
    have hd := Tuple.divisions_eq_ok_iff.mpr ⟨h.lasts, rfl⟩
    rcases (addAttacks_ok_iff hended hdigits).mpr h.sound with ⟨attacked, hattacked⟩
    have hstroke : exists brushed, attacked.addStroke t = .ok brushed := by
      apply addStroke_ok_iff.mpr
      intro hbrush
      apply Brush.across_ok_iff.mpr
      rw [Tuple.length_touched h.sound]
      exact h.brush hbrush
    rcases hstroke with ⟨brushed, hbrushed⟩
    exact ⟨_, add_eq_ok_iff.mpr ⟨t.value, attacked, brushed, hd, hattacked, hbrushed, rfl⟩⟩

theorem add_eq_error_iff {fault : TupleFault} :
    score.add t = .error fault <-> t.FirstFault score.length fault := by
  rw [add_eq_error_cases, Tuple.divisions_eq_error_iff]
  constructor
  · intro h
    rcases h with (⟨hzero, rfl⟩ | ⟨hlong, rfl⟩) | ⟨d, hd, hrest⟩
    · exact Tuple.FirstFault.noDuration hzero
    · exact Tuple.FirstFault.durationTooLong hlong
    · have hlasts := (Tuple.divisions_eq_ok_iff.mp hd).left
      rcases hrest with hattacks | ⟨attacked, hattacked, hstroke⟩
      · rcases (addAttacks_eq_error_iff hended hdigits).mp hattacks with
          ⟨earlier, pair, later, hsplit, hsound, hfault⟩
        exact Tuple.FirstFault.pair hlasts hsplit hsound hfault
      · have hsound := (addAttacks_ok_iff hended hdigits).mp ⟨attacked, hattacked⟩
        rcases addStroke_eq_error_iff.mp hstroke with ⟨hbrush, hacross⟩
        rcases Brush.across_eq_error_iff.mp hacross with ⟨hshort, rfl⟩ | ⟨a, b, hskip, rfl⟩
        · rw [Tuple.length_touched hsound] at hshort
          exact Tuple.FirstFault.brushTooNarrow hlasts hsound hbrush hshort
        · exact Tuple.FirstFault.brushSkips hlasts hsound hbrush hskip
  · intro h
    have hstroke : t.Lasts -> Tuple.Sound t.attacks ->
        (forall attacked : Score, attacked.addStroke t = .error fault) ->
          exists d, t.divisions = .ok d ∧
            (t.attacks.foldlM (addAttack d) score = .error fault ∨
              exists attacked, t.attacks.foldlM (addAttack d) score = .ok attacked ∧
                attacked.addStroke t = .error fault) := by
      intro hlasts hsound herror
      rcases (addAttacks_ok_iff hended hdigits).mpr hsound with ⟨attacked, hattacked⟩
      exact ⟨t.value, Tuple.divisions_eq_ok_iff.mpr ⟨hlasts, rfl⟩,
        Or.inr ⟨attacked, hattacked, herror attacked⟩⟩
    cases h with
    | noDuration hzero => exact Or.inl (Or.inl ⟨hzero, rfl⟩)
    | durationTooLong hlong => exact Or.inl (Or.inr ⟨hlong, rfl⟩)
    | pair hlasts hsplit hsound hfault =>
        refine Or.inr ⟨t.value, Tuple.divisions_eq_ok_iff.mpr ⟨hlasts, rfl⟩, Or.inl ?_⟩
        exact (addAttacks_eq_error_iff hended hdigits).mpr ⟨_, _, _, hsplit, hsound, hfault⟩
    | brushTooNarrow hlasts hsound hbrush hshort =>
        apply Or.inr (hstroke hlasts hsound _)
        intro attacked
        rw [<- Tuple.length_touched hsound] at hshort
        exact addStroke_eq_error_iff.mpr
          ⟨hbrush, Brush.across_eq_error_iff.mpr (Or.inl ⟨hshort, rfl⟩)⟩
    | brushSkips hlasts hsound hbrush hskip =>
        apply Or.inr (hstroke hlasts hsound _)
        intro attacked
        exact addStroke_eq_error_iff.mpr
          ⟨hbrush, Brush.across_eq_error_iff.mpr (Or.inr ⟨_, _, hskip, rfl⟩)⟩

end Adding

end Score
end Plectrum

import Plectrum.Instrument.Finger

/-!
# Preparing an attack

For every position that a finger reaches, its preparation is one of three kinds.
In each of them the actions come before the attack and at different times, and the
first of them comes as long before the attack as the lead says.
-/

namespace Plectrum
namespace Finger

/-!
# Reach and lead
-/

def Reaches (f : Finger) (l : Latencies) (target : Position) : Prop :=
  target ≠ Position.openString -> target ≠ f.position ->
    (l.travel? f.position target).isSome = true

instance (f : Finger) (l : Latencies) (target : Position) :
    Decidable (f.Reaches l target) :=
  inferInstanceAs (Decidable (_ -> _ -> _))

def releaseTime (f : Finger) (l : Latencies) : Nat :=
  if f.pressed then l.release.ms else 0

def travelTime (f : Finger) (l : Latencies) (target : Position) : Nat :=
  ((l.travel? f.position target).map Latency.ms).getD 0

/-- How many milliseconds before an attack its preparation begins. -/
def lead (f : Finger) (l : Latencies) (target : Position) : Nat :=
  if target = Position.openString then
    f.releaseTime l
  else if target = f.position then
    if f.pressed then 0 else l.press.ms
  else
    l.press.ms + f.travelTime l target + f.releaseTime l

/-!
# The kinds of preparation
-/

theorem preparation_cases {f : Finger} {l : Latencies} {target : Position}
    {actions : List Action} (h : f.preparation l target = .ok actions) :
    (target = Position.openString ∧ actions = f.releaseAhead l.release.ms) ∨
      (target ≠ Position.openString ∧ target = f.position ∧
        actions = f.pressAhead l.press.ms) ∨
      (target ≠ Position.openString ∧ target ≠ f.position ∧
        exists t : Latency, l.travel? f.position target = some t ∧
          actions =
            ⟨-l.press.ms, .press⟩ :: ⟨-(l.press.ms + t.ms : Nat), .move target⟩ ::
              f.releaseAhead (l.press.ms + t.ms + l.release.ms)) := by
  unfold preparation at h
  split at h
  · rename_i hopen
    injection h with hactions
    exact Or.inl ⟨hopen, hactions.symm⟩
  · rename_i hopen
    split at h
    · rename_i hsame
      injection h with hactions
      exact Or.inr (Or.inl ⟨hopen, hsame, hactions.symm⟩)
    · rename_i hother
      cases htravel : l.travel f.position target with
      | error e =>
          rw [htravel] at h
          cases h
      | ok t =>
          rw [htravel] at h
          injection h with hactions
          exact Or.inr (Or.inr
            ⟨hopen, hother, t, Latencies.travel_eq_ok_iff.mp htravel, hactions.symm⟩)

theorem reaches_iff {f : Finger} {l : Latencies} {target : Position} :
    f.Reaches l target <->
      exists actions, f.preparation l target = .ok actions := by
  constructor
  · intro h
    unfold preparation
    split
    · exact ⟨_, rfl⟩
    · rename_i hopen
      split
      · exact ⟨_, rfl⟩
      · rename_i hother
        rcases Option.isSome_iff_exists.mp (h hopen hother) with ⟨t, ht⟩
        rw [Latencies.travel_eq_ok_iff.mpr ht]
        exact ⟨_, rfl⟩
  · intro ⟨actions, h⟩ hopen hother
    rcases preparation_cases h with ⟨heq, _⟩ | ⟨_, heq, _⟩ | ⟨_, _, t, ht, _⟩
    · exact absurd heq hopen
    · exact absurd heq hother
    · rw [ht]
      rfl

theorem play_eq_ok_iff {f next : Finger} {l : Latencies} {target : Position}
    {actions : List Action} :
    f.play l target = .ok (actions, next) <->
      exists before, f.preparation l target = .ok before ∧
        actions = before ++ [⟨0, .attack⟩] ∧ next = f.after target := by
  unfold play
  cases f.preparation l target with
  | error e =>
      constructor
      · intro h
        cases h
      · intro ⟨_, h, _⟩
        cases h
  | ok before =>
      constructor
      · intro h
        injection h with h
        injection h with hactions hnext
        exact ⟨before, rfl, hactions.symm, hnext.symm⟩
      · intro ⟨_, hbefore, hactions, hnext⟩
        injection hbefore with hbefore
        subst hbefore hactions hnext
        rfl

theorem Reaches.exists_play {f : Finger} {l : Latencies} {target : Position}
    (h : f.Reaches l target) :
    exists before, f.play l target = .ok (before ++ [⟨0, .attack⟩], f.after target) := by
  rcases reaches_iff.mp h with ⟨before, hbefore⟩
  exact ⟨before, play_eq_ok_iff.mpr ⟨before, hbefore, rfl, rfl⟩⟩

theorem reaches_of_play {f next : Finger} {l : Latencies} {target : Position}
    {actions : List Action} (h : f.play l target = .ok (actions, next)) :
    f.Reaches l target := by
  rcases play_eq_ok_iff.mp h with ⟨before, hbefore, _⟩
  exact reaches_iff.mpr ⟨before, hbefore⟩

/-!
# The times of a preparation
-/

theorem pairwise_preparation {f : Finger} {l : Latencies} {target : Position}
    {actions : List Action} (h : f.preparation l target = .ok actions) :
    actions.Pairwise (fun later earlier => earlier.offset < later.offset) := by
  have hrelease := l.release.ms_pos
  rcases preparation_cases h with ⟨_, rfl⟩ | ⟨_, _, rfl⟩ | ⟨_, _, t, _, rfl⟩
  · cases hpressed : f.pressed <;> simp [releaseAhead, hpressed]
  · cases hpressed : f.pressed <;> simp [pressAhead, hpressed]
  · have htravel := t.ms_pos
    cases hpressed : f.pressed <;> simp [releaseAhead, hpressed] <;> omega

theorem offset_of_mem_preparation {f : Finger} {l : Latencies} {target : Position}
    {actions : List Action} (h : f.preparation l target = .ok actions)
    {a : Action} (ha : a ∈ actions) :
    -(f.lead l target : Int) <= a.offset ∧ a.offset < 0 := by
  have hpress := l.press.ms_pos
  have hrelease := l.release.ms_pos
  rcases preparation_cases h with
    ⟨hopen, rfl⟩ | ⟨hopen, hsame, rfl⟩ | ⟨hopen, hother, t, ht, rfl⟩
  · cases hpressed : f.pressed <;>
      simp [releaseAhead, lead, releaseTime, hopen, hpressed] at ha ⊢
    subst ha
    constructor
    · exact Int.le_refl _
    · show -(l.release.ms : Int) < 0
      omega
  · cases hpressed : f.pressed <;> simp [pressAhead, hpressed] at ha
    subst ha
    simp only [lead, if_neg hopen, if_pos hsame, hpressed]
    constructor
    · exact Int.le_refl _
    · show -(l.press.ms : Int) < 0
      omega
  · simp only [lead, if_neg hopen, if_neg hother, travelTime, ht, releaseTime]
    cases hpressed : f.pressed <;> simp [releaseAhead, hpressed] at ha ⊢
    · rcases ha with rfl | rfl <;> simp <;> omega
    · rcases ha with rfl | rfl | rfl <;> simp <;> omega

theorem exists_offset_eq_lead {f : Finger} {l : Latencies} {target : Position}
    {actions : List Action} (h : f.preparation l target = .ok actions)
    (hpos : 0 < f.lead l target) :
    exists a, a ∈ actions ∧ a.offset = -(f.lead l target : Int) := by
  rcases preparation_cases h with
    ⟨hopen, rfl⟩ | ⟨hopen, hsame, rfl⟩ | ⟨hopen, hother, t, ht, rfl⟩
  · cases hpressed : f.pressed <;>
      simp [releaseAhead, lead, releaseTime, hopen, hpressed] at hpos ⊢
  · cases hpressed : f.pressed
    · simp only [pressAhead, lead, if_neg hopen, if_pos hsame, hpressed]
      exact ⟨_, List.mem_singleton.mpr rfl, rfl⟩
    · simp [lead, if_neg hopen, if_pos hsame, hpressed] at hpos
  · cases hpressed : f.pressed <;>
      simp [releaseAhead, lead, hopen, hother, travelTime, ht, releaseTime, hpressed]

theorem operation_of_mem_releaseAhead {f : Finger} {time : Nat} {a : Action}
    (h : a ∈ f.releaseAhead time) : a.operation = .release := by
  rcases List.mem_ite_nil_right.mp h with ⟨_, h⟩
  rw [List.mem_singleton.mp h]

theorem operation_of_mem_pressAhead {f : Finger} {time : Nat} {a : Action}
    (h : a ∈ f.pressAhead time) : a.operation = .press := by
  rcases List.mem_ite_nil_left.mp h with ⟨_, h⟩
  rw [List.mem_singleton.mp h]

theorem operation_of_mem_preparation {f : Finger} {l : Latencies} {target : Position}
    {actions : List Action} (h : f.preparation l target = .ok actions)
    {a : Action} (ha : a ∈ actions) : a.operation ≠ .attack := by
  intro hattack
  rcases preparation_cases h with ⟨_, rfl⟩ | ⟨_, _, rfl⟩ | ⟨_, _, t, _, rfl⟩
  · cases (operation_of_mem_releaseAhead ha).symm.trans hattack
  · cases (operation_of_mem_pressAhead ha).symm.trans hattack
  · rcases List.mem_cons.mp ha with rfl | ha
    · cases hattack
    · rcases List.mem_cons.mp ha with rfl | ha
      · cases hattack
      · cases (operation_of_mem_releaseAhead ha).symm.trans hattack

theorem target_of_mem_play {f next : Finger} {l : Latencies} {target other : Position}
    {actions : List Action} (h : f.play l target = .ok (actions, next))
    {a : Action} (ha : a ∈ actions) (hmove : a.operation = .move other) :
    other = target := by
  rcases play_eq_ok_iff.mp h with ⟨before, hbefore, rfl, _⟩
  rcases List.mem_append.mp ha with hprepares | hattack
  · rcases preparation_cases hbefore with ⟨_, rfl⟩ | ⟨_, _, rfl⟩ | ⟨_, _, t, _, rfl⟩
    · cases (operation_of_mem_releaseAhead hprepares).symm.trans hmove
    · cases (operation_of_mem_pressAhead hprepares).symm.trans hmove
    · rcases List.mem_cons.mp hprepares with rfl | hprepares
      · cases hmove
      · rcases List.mem_cons.mp hprepares with rfl | hprepares
        · injection hmove with heq
          exact heq.symm
        · cases (operation_of_mem_releaseAhead hprepares).symm.trans hmove
  · rw [List.mem_singleton.mp hattack] at hmove
    cases hmove

theorem offset_of_mem_play {f next : Finger} {l : Latencies} {target : Position}
    {actions : List Action} (h : f.play l target = .ok (actions, next))
    {a : Action} (ha : a ∈ actions) :
    -(f.lead l target : Int) <= a.offset ∧ a.offset <= 0 := by
  rcases play_eq_ok_iff.mp h with ⟨before, hbefore, rfl, _⟩
  cases List.mem_append.mp ha with
  | inl hprepares =>
      have hoffset := offset_of_mem_preparation hbefore hprepares
      exact ⟨hoffset.left, Int.le_of_lt hoffset.right⟩
  | inr hattack =>
      rw [List.mem_singleton.mp hattack]
      exact ⟨Int.neg_nonpos_of_nonneg (Int.natCast_nonneg _), Int.le_refl 0⟩

theorem exists_first_of_play {f next : Finger} {l : Latencies} {target : Position}
    {actions : List Action} (h : f.play l target = .ok (actions, next)) :
    exists a, a ∈ actions ∧ a.offset = -(f.lead l target : Int) := by
  rcases play_eq_ok_iff.mp h with ⟨before, hbefore, rfl, _⟩
  cases Nat.eq_zero_or_pos (f.lead l target) with
  | inl hzero =>
      rw [hzero]
      exact ⟨_, List.mem_append_right before (List.mem_singleton.mpr rfl), rfl⟩
  | inr hpos =>
      rcases exists_offset_eq_lead hbefore hpos with ⟨a, ha, hoffset⟩
      exact ⟨a, List.mem_append_left _ ha, hoffset⟩

end Finger
end Plectrum

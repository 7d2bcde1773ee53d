import Plectrum.Proofs.Instrument.Preparation

/-!
# The finger as a mechanism

A finger cannot obey every operation: it must not press twice, not release what it
does not press, and not move while it presses, to where it stands, or to the open
string.  The actions for an attack, taken in the order of their times, are obeyed,
and they leave the finger as the attack needs it.
-/

namespace Plectrum
namespace Finger

def operate? (f : Finger) : Operation -> Option Finger
  | .press => if f.pressed then none else some { f with pressed := true }
  | .release => if f.pressed then some { f with pressed := false } else none
  | .move target =>
      if f.pressed ∨ target = f.position ∨ target = Position.openString then
        none
      else
        some { f with position := target }
  | .attack => some f

/-- The finger at each attack among some operations, if it can obey all of them. -/
def playback? (f : Finger) : List Operation -> Option (List Finger)
  | [] => some []
  | o :: rest =>
      match f.operate? o with
      | none => none
      | some next =>
          if o = .attack then
            (next.playback? rest).map (fun later => next :: later)
          else
            next.playback? rest

def Holds (f : Finger) (target : Position) : Prop :=
  if target = Position.openString then f.pressed = false else f = ⟨target, true⟩

theorem holds_after (f : Finger) (target : Position) :
    (f.after target).Holds target := by
  unfold Holds after
  split
  · rfl
  · rfl

theorem playback?_attack (f : Finger) (rest : List Operation) :
    f.playback? (.attack :: rest) =
      (f.playback? rest).map (fun later => f :: later) := rfl

theorem playback?_cons_of_operate {f next : Finger} {o : Operation}
    (rest : List Operation) (hattack : o ≠ .attack) (h : f.operate? o = some next) :
    f.playback? (o :: rest) = next.playback? rest := by
  rw [playback?, h]
  exact if_neg hattack

theorem count_attack_of_playback? (operations : List Operation) :
    forall {f : Finger} {fingers : List Finger}, f.playback? operations = some fingers ->
      operations.count .attack = fingers.length := by
  induction operations with
  | nil =>
      intro f fingers h
      injection h with h
      rw [<- h]
      rfl
  | cons o rest ih =>
      intro f fingers h
      unfold playback? at h
      split at h
      · cases h
      · split at h
        · rename_i hattack
          rcases Option.map_eq_some_iff.mp h with ⟨later, hlater, rfl⟩
          rw [hattack, List.count_cons_self, ih hlater, List.length_cons]
        · rename_i hattack
          rw [List.count_cons_of_ne hattack, ih h]

/-!
# Obeying a preparation
-/

theorem playback?_releaseAhead (f : Finger) (time : Nat) (rest : List Operation) :
    f.playback? ((f.releaseAhead time).map Action.operation ++ rest) =
      ({ f with pressed := false } : Finger).playback? rest := by
  cases f with
  | mk position pressed =>
      cases pressed with
      | false => rfl
      | true => exact playback?_cons_of_operate rest (by simp) rfl

theorem playback?_pressAhead (f : Finger) (time : Nat) (rest : List Operation) :
    f.playback? ((f.pressAhead time).map Action.operation ++ rest) =
      ({ f with pressed := true } : Finger).playback? rest := by
  cases f with
  | mk position pressed =>
      cases pressed with
      | false => exact playback?_cons_of_operate rest (by simp) rfl
      | true => rfl

theorem reverse_releaseAhead (f : Finger) (time : Nat) :
    (f.releaseAhead time).reverse = f.releaseAhead time := by
  unfold releaseAhead
  split <;> rfl

theorem reverse_pressAhead (f : Finger) (time : Nat) :
    (f.pressAhead time).reverse = f.pressAhead time := by
  unfold pressAhead
  split <;> rfl

/-- The preparation is given latest first, so it is obeyed in reverse. -/
theorem playback?_preparation {f : Finger} {l : Latencies} {target : Position}
    {actions : List Action} (h : f.preparation l target = .ok actions)
    (rest : List Operation) :
    f.playback? (actions.reverse.map Action.operation ++ rest) =
      (f.after target).playback? rest := by
  rcases preparation_cases h with
    ⟨hopen, rfl⟩ | ⟨hopen, hsame, rfl⟩ | ⟨hopen, hother, t, _, rfl⟩
  · rw [reverse_releaseAhead, playback?_releaseAhead, after, if_pos hopen]
  · rw [reverse_pressAhead, playback?_pressAhead, after, if_neg hopen, hsame]
  · have hmove : operate? { f with pressed := false } (.move target) =
        some ⟨target, false⟩ := by
      simp [operate?, hopen, hother]
    have hpress : operate? ⟨target, false⟩ .press = some ⟨target, true⟩ := rfl
    simp only [List.reverse_cons, reverse_releaseAhead, List.map_append, List.map_cons,
      List.map_nil, List.append_assoc, List.cons_append, List.nil_append]
    rw [playback?_releaseAhead, playback?_cons_of_operate _ (by simp) hmove,
      playback?_cons_of_operate _ (by simp) hpress, after, if_neg hopen]

end Finger
end Plectrum

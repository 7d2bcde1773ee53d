import Mathlib.Data.List.Forall2
import Plectrum.Proofs.Ascending
import Plectrum.Proofs.Instrument.Mechanism
import Plectrum.Proofs.Schedule.Performance

/-!
# The chronicle of a string

A string is told what prepares a note latest first.  Its chronicle is the same in
order of time.  Since the string settles after each attack, and every latency is
positive, no two operations of a chronicle are at the same time, and a finger that
starts at rest obeys all of them.
-/

namespace Plectrum

namespace Finger

/-- What a string is told to do for its notes, in order of time. -/
def chronicle (f : Finger) (l : Latencies) (unit : Nat) : List Note -> List Cue
  | [] => []
  | n :: rest =>
      match f.preparation l n.position with
      | .ok before =>
          before.reverse.map (Cue.ofAction (n.instant unit)) ++
            ⟨n.instant unit, .attack⟩ :: (f.after n.position).chronicle l unit rest
      | .error _ => f.chronicle l unit rest

theorem chronicle_cons {f : Finger} {l : Latencies} {n : Note} {before : List Action}
    (h : f.preparation l n.position = .ok before) (unit : Nat) (rest : List Note) :
    f.chronicle l unit (n :: rest) =
      before.reverse.map (Cue.ofAction (n.instant unit)) ++
        ⟨n.instant unit, .attack⟩ :: (f.after n.position).chronicle l unit rest := by
  rw [chronicle, h]

theorem perm_chronicle (l : Latencies) (unit : Nat) (notes : List Note) :
    forall f : Finger, (f.chronicle l unit notes).Perm (f.cuesFor l unit notes) := by
  induction notes with
  | nil =>
      intro f
      exact List.Perm.refl []
  | cons n rest ih =>
      intro f
      cases hbefore : f.preparation l n.position with
      | ok before =>
          rw [chronicle_cons hbefore, cuesFor_cons hbefore]
          exact ((List.reverse_perm before).map _).append ((ih _).cons _)
      | error e =>
          have hplay : f.play l n.position = .error e := by
            rw [play, hbefore]
            rfl
          rw [chronicle, hbefore, cuesFor, hplay]
          exact ih f

end Finger

namespace Performance

variable {l : Latencies} {unit : Nat}

theorem AllPlayable.settled {last : Int} {c : Cue} (notes : List Note) :
    forall {f : Finger}, AllPlayable l unit f (some last) notes ->
      c ∈ f.chronicle l unit notes -> last + l.settle.ms <= c.time := by
  induction notes generalizing last with
  | nil =>
      intro f _ hc
      cases hc
  | cons n rest ih =>
      intro f ⟨hplayable, hall⟩ hc
      rcases Finger.reaches_iff.mp hplayable.reaches with ⟨before, hbefore⟩
      have hbegins := (hplayable.begins.settled last rfl).right
      rw [Finger.chronicle_cons hbefore] at hc
      rcases List.mem_append.mp hc with hprepares | hattack
      · rcases List.mem_map.mp hprepares with ⟨a, ha, rfl⟩
        have hoffset := Finger.offset_of_mem_preparation hbefore (List.mem_reverse.mp ha)
        show last + l.settle.ms <= n.instant unit + a.offset
        omega
      · rcases List.mem_cons.mp hattack with rfl | hrest
        · show last + l.settle.ms <= n.instant unit
          omega
        · have hlater := ih hall hrest
          omega

theorem AllPlayable.ascending (notes : List Note) :
    forall {f : Finger} {lastAttack : Option Int}, AllPlayable l unit f lastAttack notes ->
      Ascending Cue.time (f.chronicle l unit notes) := by
  induction notes with
  | nil =>
      intro f lastAttack _
      exact List.Pairwise.nil
  | cons n rest ih =>
      intro f lastAttack ⟨hplayable, hall⟩
      rcases Finger.reaches_iff.mp hplayable.reaches with ⟨before, hbefore⟩
      -- The string settles after this attack, and that takes time.
      have hafter : forall c, c ∈ (f.after n.position).chronicle l unit rest ->
          n.instant unit < c.time := by
        intro c hc
        have hsettle := l.settle.ms_pos
        have hsettled := AllPlayable.settled rest hall hc
        omega
      rw [Finger.chronicle_cons hbefore]
      apply List.pairwise_append.mpr
      refine ⟨?_, List.pairwise_cons.mpr ⟨hafter, ih hall⟩, ?_⟩
      · rw [List.map_reverse, List.pairwise_reverse, List.pairwise_map]
        apply List.Pairwise.imp _ (Finger.pairwise_preparation hbefore)
        intro later earlier hlt
        exact Int.add_lt_add_left hlt (n.instant unit)
      · intro c hc d hd
        rcases List.mem_map.mp hc with ⟨a, ha, rfl⟩
        have hoffset := Finger.offset_of_mem_preparation hbefore (List.mem_reverse.mp ha)
        have hbeforeAttack : n.instant unit + a.offset < n.instant unit := by omega
        rcases List.mem_cons.mp hd with rfl | hrest
        · exact hbeforeAttack
        · exact Int.lt_trans hbeforeAttack (hafter d hrest)

theorem AllPlayable.playback (notes : List Note) :
    forall {f : Finger} {lastAttack : Option Int}, AllPlayable l unit f lastAttack notes ->
      exists fingers,
        f.playback? ((f.chronicle l unit notes).map Cue.operation) = some fingers ∧
          List.Forall₂ (fun g n => g.Holds n.position) fingers notes := by
  induction notes with
  | nil =>
      intro f lastAttack _
      exact ⟨[], rfl, List.Forall₂.nil⟩
  | cons n rest ih =>
      intro f lastAttack ⟨hplayable, hall⟩
      rcases Finger.reaches_iff.mp hplayable.reaches with ⟨before, hbefore⟩
      rcases ih hall with ⟨later, hlater, hholds⟩
      refine ⟨f.after n.position :: later, ?_, ?_⟩
      · rw [Finger.chronicle_cons hbefore, List.map_append, List.map_map, List.map_cons]
        have hsame : Cue.operation ∘ Cue.ofAction (n.instant unit) = Action.operation := rfl
        rw [hsame, Finger.playback?_preparation hbefore, Finger.playback?_attack, hlater]
        rfl
      · exact List.Forall₂.cons (f.holds_after n.position) hholds

end Performance
end Plectrum

import Plectrum.Latency.Configuration
import Plectrum.Proofs.Schedule.Feasibility
import Plectrum.Proofs.Schedule.Playback
import Plectrum.Proofs.Score.Strumming

/-!
# Brushes that stand alone

A brush that replaces the other commands of its instant leaves all other instants as
they are.  At its own instant every string that it runs over is attacked, and nothing
else is asked of that string.  But strings beside it may be asked for anything at the
same time, and that is lost.
-/

namespace Plectrum

/-!
# Brushes at an instant
-/

namespace Score

def brushesAt (score : Score) (unit : Nat) (instant : Int) : List Brush :=
  score.brushes.filter (fun b => b.start * unit == instant)

theorem mem_brushesAt {score : Score} {unit : Nat} {instant : Int} {b : Brush} :
    b ∈ score.brushesAt unit instant <->
      b ∈ score.brushes ∧ b.start * unit = instant := by
  unfold brushesAt
  rw [List.mem_filter, beq_iff_eq]

theorem strokesAt_eq_map (score : Score) (unit : Nat) (instant : Int) :
    score.strokesAt unit instant = (score.brushesAt unit instant).map Brush.command := by
  unfold strokesAt Call.commandsAt brushesAt
  rw [List.filter_map, List.map_map]
  rfl

theorem Strummed.struck_of_covers {score : Score} (hscore : score.Strummed) {unit : Nat}
    {instant : Int} {b : Brush} (hb : b ∈ score.brushesAt unit instant) {s : StringId}
    (hs : b.Covers s) :
    exists n, n ∈ (score.timeline s).notes ∧ n.instant unit = instant := by
  rcases mem_brushesAt.mp hb with ⟨hmem, htime⟩
  rcases (hscore.covers b hmem s).mp hs with ⟨n, hn, hstart⟩
  refine ⟨n, hn, ?_⟩
  rw [Note.instant, hstart, htime]

/-- If divisions last, a note at the instant of a brush starts together with it. -/
theorem Strummed.covers_of_struck {score : Score} (hscore : score.Strummed) {unit : Nat}
    (hunit : 0 < unit) {instant : Int} {b : Brush}
    (hb : b ∈ score.brushesAt unit instant) {s : StringId} {n : Note}
    (hn : n ∈ (score.timeline s).notes) (hstruck : n.instant unit = instant) :
    b.Covers s := by
  rcases mem_brushesAt.mp hb with ⟨hmem, htime⟩
  apply (hscore.covers b hmem s).mpr
  refine ⟨n, hn, ?_⟩
  apply Int.eq_of_mul_eq_mul_right (Int.natCast_ne_zero.mpr (Nat.ne_of_gt hunit))
  rw [htime]
  exact hstruck

end Score

/-!
# Overridden ticks
-/

/--
What the brushes of a score make of the tick at an instant, if they replace the other
commands.
-/
structure Tick.Overridden (score : Score) (unit : Nat) (instant : Int)
    (plain replaced : Tick) : Prop where
  time : replaced.time = plain.time
  kept : score.brushesAt unit instant = [] -> replaced.commands = plain.commands
  alone : forall b, (score.brushesAt unit instant).getLast? = some b ->
    replaced.commands = [b.command]
  inside : forall b, b ∈ score.brushesAt unit instant -> forall s, b.Covers s ->
    plain.operationsOn s = [.attack]
  outside : 0 < unit -> forall b, b ∈ score.brushesAt unit instant -> forall s,
    ¬ b.Covers s -> .attack ∉ plain.operationsOn s

namespace Score

section Plain

variable {score : Score} {l : Latencies} {tempo : Tempo} {policy : BrushPolicy}
  {ticks : List Tick} (hplain : score.brushes = [])
  (h : score.schedule l tempo policy = .ok ticks) {t : Tick} (ht : t ∈ ticks)
  {s : StringId}
include hplain h ht

theorem operationsOn_of_struck (hstruck : exists n, n ∈ (score.timeline s).notes ∧
      n.instant tempo.unit = t.time + Call.origin (score.calls l tempo.unit)) :
    t.operationsOn s = [.attack] := by
  have hplayable := playable_of_schedule h s
  have hattack := (Finger.perm_chronicle l tempo.unit _ {}).mem_iff.mpr
    (hplayable.attack_iff.mpr hstruck)
  rw [operationsOn_schedule (Or.inl hplain) h s ht, allCalls_of_brushes_nil hplain,
    hplayable.ascending.filter_eq_singleton hattack]
  rfl

theorem struck_of_attack (hattack : .attack ∈ t.operationsOn s) :
    exists n, n ∈ (score.timeline s).notes ∧
      n.instant tempo.unit = t.time + Call.origin (score.calls l tempo.unit) := by
  rw [operationsOn_schedule (Or.inl hplain) h s ht, allCalls_of_brushes_nil hplain,
    List.mem_map] at hattack
  rcases hattack with ⟨⟨time, operation⟩, hcue, rfl⟩
  rcases List.mem_filter.mp hcue with ⟨hcue, htime⟩
  have hattack := (Finger.perm_chronicle l tempo.unit _ {}).mem_iff.mp hcue
  rw [<- eq_of_beq htime]
  exact (playable_of_schedule h s).attack_iff.mp hattack

end Plain

theorem Strummed.overridden {score : Score} (hscore : score.Strummed) {l : Latencies}
    {tempo : Tempo} {policy : BrushPolicy} {ticks : List Tick}
    (h : score.withoutBrushes.schedule l tempo policy = .ok ticks) {t : Tick}
    (ht : t ∈ ticks) :
    t.Overridden score tempo.unit (t.time + Call.origin (score.calls l tempo.unit))
      (t.edit (fun time commands => BrushPolicy.replace.merge commands
        (score.strokesAt tempo.unit
          (time + Call.origin (score.calls l tempo.unit))))) := by
  constructor
  · rfl
  · intro hnone
    show BrushPolicy.replace.merge t.commands (score.strokesAt _ _) = t.commands
    rw [strokesAt_eq_map, hnone]
    rfl
  · intro b hlast
    show BrushPolicy.replace.merge t.commands (score.strokesAt _ _) = [b.command]
    rw [strokesAt_eq_map, BrushPolicy.merge, List.getLast?_map, hlast]
    rfl
  · intro b hb s hs
    exact operationsOn_of_struck rfl h ht (hscore.struck_of_covers hb hs)
  · intro hunit b hb s hs hattack
    rcases struck_of_attack rfl h ht hattack with ⟨n, hn, hstruck⟩
    exact hs (hscore.covers_of_struck hunit hb hn hstruck)

/--
Where brushes replace other commands, the schedule has the ticks of the schedule
without brushes.  A tick without a brush keeps its commands; in any other the last
brush stands alone.  Of the strings that a brush runs over it takes away the attacks
and nothing else, and if divisions last, it takes away no attacks of other strings.
-/
theorem replacing_schedule_overrides {detect : Bool} {text : List Char} {score : Score}
    (hread : Score.read detect text = .ok score) {l : Latencies} {tempo : Tempo}
    {ticks : List Tick} (h : score.schedule l tempo .replace = .ok ticks) :
    exists plain plainTicks, Score.read false text = .ok plain ∧
      (forall policy, plain.schedule l tempo policy = .ok plainTicks) ∧
      List.Forall₂
        (fun (t u : Tick) => t.Overridden score tempo.unit
          (t.time + Call.origin (plain.calls l tempo.unit)) u)
        plainTicks ticks ∧
      forall b, b ∈ score.brushes -> exists t, t ∈ plainTicks ∧
        t.time + Call.origin (plain.calls l tempo.unit) = b.start * tempo.unit := by
  have htimed := wellTimed_read hread
  have hstrummed := strummed_read hread
  rw [htimed.schedule_eq l tempo .replace .replace] at h
  rcases Outcome.map_eq_ok_iff.mp h with ⟨plainTicks, hplain, rfl⟩
  refine ⟨score.withoutBrushes, plainTicks, read_withoutBrushes hread, ?_, ?_, ?_⟩
  · intro policy
    exact hplain
  · apply List.forall₂_map_right_iff.mpr
    apply List.forall₂_same.mpr
    intro t ht
    exact hstrummed.overridden hplain ht
  · intro b hb
    exact htimed.tick_of_brush hplain hb

/-!
# A crossing

A brush over two strings at the very instant at which a finger presses a third one.
-/

def crossingText : List Char :=
  "^(3141)1 (11)1".toList

def crossing : Score :=
  (Score.read true crossingText).toOption.get (by decide +kernel)

theorem read_crossingText : Score.read true crossingText = .ok crossing :=
  Outcome.toOption_eq_some_iff.mp (Option.some_get _).symm

/-- Divisions of five milliseconds, the time that a press takes. -/
def crossingTempo : Tempo :=
  ⟨6000, 2, by decide, by decide⟩

def crossingPlainTicks : List Tick :=
  [⟨0, [.operate ⟨2⟩ .press, .operate ⟨3⟩ .press]⟩,
    ⟨5, [.operate ⟨0⟩ .press, .operate ⟨2⟩ .attack, .operate ⟨3⟩ .attack]⟩,
    ⟨10, [.operate ⟨0⟩ .attack]⟩]

def crossingTicks : List Tick :=
  [⟨0, [.operate ⟨2⟩ .press, .operate ⟨3⟩ .press]⟩,
    ⟨5, [.brush ⟨2⟩ ⟨3⟩]⟩,
    ⟨10, [.operate ⟨0⟩ .attack]⟩]

theorem schedule_crossing :
    crossing.schedule Latencies.sample crossingTempo .replace = .ok crossingTicks :=
  Outcome.toOption_eq_some_iff.mp (by decide +kernel)

theorem schedule_plain_crossing :
    crossing.withoutBrushes.schedule Latencies.sample crossingTempo .replace =
      .ok crossingPlainTicks :=
  Outcome.toOption_eq_some_iff.mp (by decide +kernel)

theorem crossing_schedule_overrides :
    Score.read true crossingText = .ok crossing ∧
      crossing.schedule Latencies.sample crossingTempo .replace = .ok crossingTicks ∧
      exists plain plainTicks, Score.read false crossingText = .ok plain ∧
        List.Forall₂
          (fun (t u : Tick) => t.Overridden crossing crossingTempo.unit
            (t.time + Call.origin (plain.calls Latencies.sample crossingTempo.unit)) u)
          plainTicks crossingTicks := by
  rcases replacing_schedule_overrides read_crossingText schedule_crossing with
    ⟨plain, plainTicks, hplain, _, hoverridden, _⟩
  exact ⟨read_crossingText, schedule_crossing, plain, plainTicks, hplain, hoverridden⟩

end Score

namespace Tick

def KeepsMotion (plain replaced : List Tick) : Prop :=
  forall t, t ∈ plain -> forall s o, o ≠ Operation.attack ->
    .operate s o ∈ t.commands ->
      exists u, u ∈ replaced ∧ u.time = t.time ∧ .operate s o ∈ u.commands

def LosesOnlyCovered (brushes : List Brush) (plain replaced : List Tick) : Prop :=
  forall t u, t ∈ plain -> u ∈ replaced -> u.time = t.time ->
    forall c, c ∈ t.commands -> c ∉ u.commands ->
      exists b s, b ∈ brushes ∧ b.Covers s ∧ c = .operate s .attack

end Tick

namespace Score

def crossingConfiguration : List Char :=
  ("fret_latency 10\npress_latency 5\nrelease_latency 5\n" ++
    "move_latency 1 2 20\nmove_latency 2 3 30\n").toList

/-- The press of the first string is lost under a brush over the third and the fourth. -/
theorem replacing_schedule_loses_motion :
    exists l score plain ticks plainTicks,
      Latencies.read crossingConfiguration = .ok l ∧
        Score.read true crossingText = .ok score ∧
        Score.read false crossingText = .ok plain ∧
        score.schedule l crossingTempo .replace = .ok ticks ∧
        plain.schedule l crossingTempo .replace = .ok plainTicks ∧
        ¬ Tick.KeepsMotion plainTicks ticks ∧
        ¬ Tick.LosesOnlyCovered score.brushes plainTicks ticks := by
  have hconfiguration : Latencies.read crossingConfiguration = .ok Latencies.sample :=
    Outcome.toOption_eq_some_iff.mp (by decide +kernel)
  have hplain : (⟨5, [.operate ⟨0⟩ .press, .operate ⟨2⟩ .attack, .operate ⟨3⟩ .attack]⟩ :
      Tick) ∈ crossingPlainTicks := by decide
  refine ⟨Latencies.sample, crossing, crossing.withoutBrushes, crossingTicks,
    crossingPlainTicks, hconfiguration, read_crossingText,
    read_withoutBrushes read_crossingText, schedule_crossing, schedule_plain_crossing,
    ?_, ?_⟩
  · intro hkeeps
    have hlost : ¬ exists u, u ∈ crossingTicks ∧ u.time = 5 ∧
        .operate ⟨0⟩ .press ∈ u.commands := by decide
    exact hlost (hkeeps _ hplain ⟨0⟩ .press (by decide) (by decide))
  · intro hloses
    have hreplaced : (⟨5, [.brush ⟨2⟩ ⟨3⟩]⟩ : Tick) ∈ crossingTicks := by decide
    rcases hloses _ _ hplain hreplaced rfl (.operate ⟨0⟩ .press) (by decide) (by decide)
      with ⟨_, s, _, _, hattack⟩
    injection hattack with _ hoperation
    cases hoperation

end Score
end Plectrum

import Plectrum.Proofs.Schedule.Merge

/-!
# Strokes over a schedule

A brush starts together with a note, so something is called for at its instant
before the brush is added.  Hence brushes change the commands of some ticks, but
there are no ticks for brushes alone, and brushes give no errors.
-/

namespace Plectrum

namespace BrushPolicy

/-- The commands of an instant after the strokes of that instant. -/
def merge (policy : BrushPolicy) (commands strokes : List Command) : List Command :=
  match policy with
  | .replace => (strokes.getLast?.map (fun c => [c])).getD commands
  | .append => commands ++ strokes

theorem merge_nil (policy : BrushPolicy) (commands : List Command) :
    policy.merge commands [] = commands := by
  cases policy with
  | replace => rfl
  | append => exact List.append_nil commands

theorem merge_append (policy : BrushPolicy) (commands front back : List Command) :
    policy.merge commands (front ++ back) =
      policy.merge (policy.merge commands front) back := by
  cases policy with
  | replace =>
      unfold merge
      rw [List.getLast?_append]
      cases back.getLast? with
      | none => rfl
      | some c => rfl
  | append => exact (List.append_assoc commands front back).symm

theorem mem_of_mem_merge {policy : BrushPolicy} {commands strokes : List Command}
    {c : Command} (h : c ∈ policy.merge commands strokes) :
    c ∈ commands ∨ c ∈ strokes := by
  cases policy with
  | replace =>
      unfold merge at h
      cases hlast : strokes.getLast? with
      | none =>
          rw [hlast] at h
          exact Or.inl h
      | some last =>
          rw [hlast] at h
          rw [List.mem_singleton.mp h]
          exact Or.inr (List.mem_of_getLast? hlast)
  | append => exact List.mem_append.mp h

end BrushPolicy

/-!
# Brushes where commands are
-/

namespace Agenda

theorem getElem?_addBrush (policy : BrushPolicy) {agenda : Agenda} {time : Int}
    (c : Command) (h : agenda[time]?.isSome) (k : Int) :
    (agenda.addBrush policy time c)[k]? =
      agenda[k]?.map (fun commands =>
        policy.merge commands (Call.commandsAt [⟨time, c⟩] k)) := by
  rw [Call.commandsAt_cons, Call.commandsAt_nil]
  by_cases htime : time = k
  · subst htime
    rcases Option.isSome_iff_exists.mp h with ⟨commands, hcommands⟩
    cases policy with
    | replace => simp [addBrush, hcommands, BrushPolicy.merge]
    | append => simp [addBrush, getElem?_add, hcommands, BrushPolicy.merge]
  · cases policy with
    | replace => simp [addBrush, getElem?_insert, htime, BrushPolicy.merge_nil]
    | append => simp [addBrush, getElem?_add, htime, BrushPolicy.merge_nil]

theorem getElem?_addBrushes (policy : BrushPolicy) {unit : Nat} (brushes : List Brush)
    (k : Int) :
    forall {agenda : Agenda},
      (forall b, b ∈ brushes -> agenda[b.start * unit]?.isSome) ->
        (agenda.addBrushes policy unit brushes)[k]? =
          agenda[k]?.map (fun commands =>
            policy.merge commands (Call.commandsAt (brushes.map (Brush.call unit)) k)) := by
  induction brushes with
  | nil =>
      intro agenda _
      simp [addBrushes, BrushPolicy.merge_nil]
  | cons b rest ih =>
      intro agenda h
      have hadd := getElem?_addBrush policy b.command (h b List.mem_cons_self)
      have hrest : forall c, c ∈ rest ->
          (agenda.addBrush policy (b.start * unit) b.command)[c.start * unit]?.isSome := by
        intro c hc
        rw [hadd, Option.isSome_map]
        exact h c (List.mem_cons_of_mem b hc)
      show ((agenda.addBrush policy (b.start * unit) b.command).addBrushes policy unit
        rest)[k]? = _
      rw [ih hrest, hadd, Option.map_map]
      have hsplit : (b :: rest).map (Brush.call unit) =
          [⟨b.start * unit, b.command⟩] ++ rest.map (Brush.call unit) := rfl
      rw [hsplit, Call.commandsAt_append]
      simp only [Function.comp_def, BrushPolicy.merge_append]

theorem ticks_eq_map_edit {agenda other : Agenda}
    {change : Int -> List Command -> List Command}
    (h : forall k, other[k]? = agenda[k]?.map (change k)) :
    other.ticks = agenda.ticks.map (Tick.edit change) := by
  apply ticks_eq_of_mem_iff
  · apply List.pairwise_map.mpr
    exact ascending_ticks agenda
  · intro t
    rw [h, List.mem_map, Option.map_eq_some_iff]
    constructor
    · intro ⟨u, hu, ht⟩
      rw [<- ht]
      exact ⟨u.commands, mem_ticks.mp hu, rfl⟩
    · intro ⟨commands, hcommands, ht⟩
      refine ⟨⟨t.time, commands⟩, mem_ticks.mpr hcommands, ?_⟩
      unfold Tick.edit
      rw [ht]

theorem isSome_of_call {calls : List Call} {c : Call} (hc : c ∈ calls) :
    (addCalls {} calls)[c.time]?.isSome := by
  rcases exists_tick_of_call hc with ⟨t, ht, htime⟩
  rw [<- htime, mem_ticks.mp ht]
  rfl

end Agenda

/-!
# Brushes of a score
-/

namespace Score

def strokesAt (score : Score) (unit : Nat) (time : Int) : List Command :=
  Call.commandsAt (score.brushes.map (Brush.call unit)) time

/-- The note that starts with a brush makes its time representable and calls for it. -/
theorem WellTimed.call_of_brush {score : Score} (hscore : score.WellTimed)
    {l : Latencies} {unit : Nat} (hplayable : score.Playable l unit) {b : Brush}
    (hb : b ∈ score.brushes) :
    Representable (b.start * unit) ∧
      exists c, c ∈ score.calls l unit ∧ c.time = b.start * unit := by
  rcases hscore.struck b hb with ⟨s, n, hn, hstart⟩
  rcases (hplayable s).attack hn with ⟨hrep, hcue⟩
  rw [Note.instant, hstart] at hrep hcue
  exact ⟨hrep, _, mem_calls.mpr ⟨s, List.mem_map_of_mem hcue⟩, rfl⟩

theorem WellTimed.schedule_eq {score : Score} (hscore : score.WellTimed)
    (l : Latencies) (tempo : Tempo) (policy other : BrushPolicy) :
    score.schedule l tempo policy =
      (score.withoutBrushes.schedule l tempo other).map
        (List.map (Tick.edit (fun time commands =>
          policy.merge commands
            (score.strokesAt tempo.unit
              (time + Call.origin (score.calls l tempo.unit)))))) := by
  have hplain : score.withoutBrushes.stringAgenda l tempo.unit =
      score.stringAgenda l tempo.unit := rfl
  unfold schedule agenda
  rw [hplain]
  cases hstrings : score.stringAgenda l tempo.unit with
  | error e => rfl
  | ok strings =>
      rcases stringAgenda_eq_ok_iff.mp hstrings with ⟨hplayable, hfilled⟩
      have hadded : score.brushes.foldlM (fun agenda b =>
          (b.instant tempo.unit).map (fun time => agenda.addBrush policy time b.command))
          strings = .ok (strings.addBrushes policy tempo.unit score.brushes) :=
        (Agenda.foldlM_addBrush_eq_ok_iff _).mpr
          ⟨fun b hb => (hscore.call_of_brush hplayable hb).left, rfl⟩
      -- Every brush meets commands that are there before the first brush is added.
      have hfound : forall b, b ∈ score.brushes ->
          strings[b.start * tempo.unit]?.isSome := by
        intro b hb
        rcases (hscore.call_of_brush hplayable hb).right with ⟨c, hc, htime⟩
        rw [hfilled, <- htime]
        exact Agenda.isSome_of_call hc
      have hticks := Agenda.ticks_eq_map_edit fun k =>
        Agenda.getElem?_addBrushes policy score.brushes k hfound
      have horigin : Tick.origin strings.ticks = Call.origin (score.calls l tempo.unit) := by
        rw [hfilled, Agenda.origin_ticks_addCalls]
      show (score.brushes.foldlM _ strings >>= fun agenda => Tick.shiftAll agenda.ticks) =
        (Tick.shiftAll strings.ticks).map _
      rw [hadded]
      show Tick.shiftAll (strings.addBrushes policy tempo.unit score.brushes).ticks = _
      rw [hticks, Tick.shiftAll_map_edit, horigin]
      rfl

theorem WellTimed.tick_of_brush {score : Score} (hscore : score.WellTimed)
    {l : Latencies} {tempo : Tempo} {policy : BrushPolicy} {ticks : List Tick}
    (h : score.withoutBrushes.schedule l tempo policy = .ok ticks) {b : Brush}
    (hb : b ∈ score.brushes) :
    exists t, t ∈ ticks ∧
      t.time + Call.origin (score.calls l tempo.unit) = b.start * tempo.unit := by
  have hmerges := merges_schedule (Or.inl score.brushes_withoutBrushes) h
  rw [allCalls_of_brushes_nil score.brushes_withoutBrushes] at hmerges
  rcases schedule_eq_ok_iff.mp h with ⟨agenda, hagenda, _⟩
  rcases agenda_eq_ok_iff.mp hagenda with ⟨hplayable, _⟩
  rcases (hscore.call_of_brush hplayable hb).right with ⟨c, hc, htime⟩
  rcases hmerges.exists_tick hc with ⟨t, ht, heq⟩
  exact ⟨t, ht, heq.trans htime⟩

/--
If brushes are looked for, the schedule is that of the score without brushes with
the strokes of each instant put to the commands of its tick, and every brush is at
one of these ticks.
-/
theorem brushes_edit_schedule {text : List Char} {score : Score}
    (h : Score.read true text = .ok score) :
    exists plain, Score.read false text = .ok plain ∧
      forall (l : Latencies) (tempo : Tempo) (policy other : BrushPolicy),
        score.schedule l tempo policy =
          (plain.schedule l tempo other).map
            (List.map (Tick.edit (fun time commands =>
              policy.merge commands
                (score.strokesAt tempo.unit
                  (time + Call.origin (plain.calls l tempo.unit)))))) ∧
        forall ticks, plain.schedule l tempo other = .ok ticks ->
          forall b, b ∈ score.brushes -> exists t, t ∈ ticks ∧
            t.time + Call.origin (plain.calls l tempo.unit) = b.start * tempo.unit := by
  have hscore := wellTimed_read h
  refine ⟨score.withoutBrushes, read_withoutBrushes h, ?_⟩
  intro l tempo policy other
  refine ⟨hscore.schedule_eq l tempo policy other, ?_⟩
  intro ticks hticks b hb
  exact hscore.tick_of_brush hticks hb

theorem brushes_edit_sample_schedule :
    sample.brushes = [⟨4, ⟨0⟩, ⟨1⟩⟩] ∧
      exists plain front, Score.read false sampleText = .ok plain ∧
        front = ([⟨0, [.operate ⟨0⟩ (.move 2)]⟩, ⟨20, [.operate ⟨0⟩ .press]⟩,
          ⟨25, [.operate ⟨0⟩ .attack]⟩, ⟨3985, [.operate ⟨0⟩ .release]⟩,
          ⟨3990, [.operate ⟨0⟩ (.move 3)]⟩, ⟨4020, [.operate ⟨0⟩ .press]⟩] : List Tick) ∧
        plain.schedule Latencies.sample Tempo.standard .append =
          .ok (front ++ [⟨4025, [.operate ⟨0⟩ .attack, .operate ⟨1⟩ .attack]⟩]) ∧
        sample.schedule Latencies.sample Tempo.standard .append =
          .ok (front ++
            [⟨4025, [.operate ⟨0⟩ .attack, .operate ⟨1⟩ .attack, .brush ⟨0⟩ ⟨1⟩]⟩]) ∧
        sample.schedule Latencies.sample Tempo.standard .replace =
          .ok (front ++ [⟨4025, [.brush ⟨0⟩ ⟨1⟩]⟩]) := by
  rcases brushes_edit_schedule read_sampleText with ⟨plain, hplain, h⟩
  have hsame := hplain.symm.trans (read_withoutBrushes read_sampleText)
  injection hsame with hsame
  have hschedule : plain.schedule Latencies.sample Tempo.standard .append =
      .ok ([⟨0, [.operate ⟨0⟩ (.move 2)]⟩, ⟨20, [.operate ⟨0⟩ .press]⟩,
        ⟨25, [.operate ⟨0⟩ .attack]⟩, ⟨3985, [.operate ⟨0⟩ .release]⟩,
        ⟨3990, [.operate ⟨0⟩ (.move 3)]⟩, ⟨4020, [.operate ⟨0⟩ .press]⟩] ++
        [⟨4025, [.operate ⟨0⟩ .attack, .operate ⟨1⟩ .attack]⟩]) := by
    rw [hsame]
    decide +kernel
  refine ⟨by decide +kernel, plain, _, hplain, rfl, hschedule, ?append, ?replace⟩
  case append =>
    rw [(h Latencies.sample Tempo.standard .append .append).left, hschedule, hsame]
    decide +kernel
  case replace =>
    rw [(h Latencies.sample Tempo.standard .replace .append).left, hschedule, hsame]
    decide +kernel

end Score
end Plectrum

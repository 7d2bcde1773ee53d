import Plectrum.Proofs.Instrument.Code
import Plectrum.Proofs.Schedule.Feasibility
import Plectrum.Proofs.Score.Contents
import Plectrum.Proofs.Text.Numeral

/-!
# Reading a rendered schedule

Neither a numeral nor the code of a command has a space or a line end in it.  So ticks
can be read back from their text, as long as no move has the code of another operation.
The moves of a schedule go to positions of notes, and all of these have their own code.
-/

namespace Plectrum

/-!
# Words between separators
-/

namespace Text

section Separated

variable {symbol : Type} (separator : symbol)

theorem intercalate_cons (first : List symbol) (rest : List (List symbol)) :
    [separator].intercalate (first :: rest) =
      first ++ rest.flatMap (fun word => separator :: word) := by
  induction rest generalizing first with
  | nil => rw [List.intercalate_singleton, List.flatMap_nil, List.append_nil]
  | cons word rest ih =>
      rw [List.intercalate_cons_cons, ih, List.flatMap_cons, List.append_assoc]
      rfl

theorem intercalate_concat_nil (lines : List (List symbol)) :
    [separator].intercalate (lines ++ [[]]) =
      lines.flatMap (fun line => line ++ [separator]) := by
  induction lines with
  | nil => exact List.intercalate_singleton
  | cons line rest ih =>
      have hne : rest ++ [[]] ≠ [] := List.append_ne_nil_of_right_ne_nil rest (by simp)
      rw [List.cons_append, List.intercalate_cons_of_ne_nil hne, ih, List.flatMap_cons]

end Separated
end Text

/-!
# Reading back
-/

namespace Tick

def Codable (t : Tick) : Prop :=
  forall c, c ∈ t.commands -> c.Codable

def words (t : Tick) : List (List Char) :=
  Text.Decimal.ofInt t.time :: t.commands.map Command.code

def ofLine (line : List Char) : Tick where
  time := Text.Decimal.toInt ((line.splitOn ' ').headD [])
  commands := (line.splitOn ' ').tail.filterMap Command.ofCode?

/-- The ticks of a rendered text.  What is behind the last line end is left out. -/
def decode (text : List Char) : List Tick :=
  (text.splitOn '\n').dropLast.map ofLine

theorem line_eq_intercalate (t : Tick) : t.line = [' '].intercalate t.words := by
  rw [words, Text.intercalate_cons, List.flatMap_map]
  rfl

theorem render_eq_intercalate (ticks : List Tick) :
    render ticks = ['\n'].intercalate (ticks.map line ++ [[]]) := by
  rw [Text.intercalate_concat_nil, List.flatMap_map]
  rfl

theorem Codable.le_toNat_of_mem_words {t : Tick} (h : t.Codable) {word : List Char}
    (hword : word ∈ t.words) {a : Char} (ha : a ∈ word) : '-'.toNat <= a.toNat := by
  rcases List.mem_cons.mp hword with rfl | hcode
  · exact Text.Decimal.le_toNat_of_mem_ofInt ha
  · rcases List.mem_map.mp hcode with ⟨c, hc, rfl⟩
    exact Nat.le_trans (by decide) (Command.le_toNat_of_mem_code (h c hc) ha)

theorem Codable.space_not_mem_words {t : Tick} (h : t.Codable) {word : List Char}
    (hword : word ∈ t.words) : ' ' ∉ word := by
  intro hspace
  exact absurd (h.le_toNat_of_mem_words hword hspace) (by decide)

theorem Codable.newline_not_mem_line {t : Tick} (h : t.Codable) : '\n' ∉ t.line := by
  intro hnewline
  rw [line_eq_intercalate, words, Text.intercalate_cons, List.mem_append,
    List.mem_flatMap] at hnewline
  rcases hnewline with htime | ⟨word, hword, hnewline⟩
  · exact absurd (h.le_toNat_of_mem_words List.mem_cons_self htime) (by decide)
  · rcases List.mem_cons.mp hnewline with hspace | hnewline
    · exact absurd hspace (by decide)
    · exact absurd (h.le_toNat_of_mem_words (List.mem_cons_of_mem _ hword) hnewline)
        (by decide)

theorem Codable.ofLine_line {t : Tick} (h : t.Codable) : ofLine t.line = t := by
  have hsplit : t.line.splitOn ' ' = t.words := by
    rw [line_eq_intercalate]
    exact List.splitOn_intercalate ' ' (fun word hword => h.space_not_mem_words hword)
      (List.cons_ne_nil _ _)
  have hcommands : (t.commands.map Command.code).filterMap Command.ofCode? = t.commands := by
    rw [List.filterMap_map]
    exact (List.filterMap_congr (fun c hc => Command.ofCode?_code (h c hc))).trans
      List.filterMap_some
  unfold ofLine
  rw [hsplit, words, List.headD_cons, List.tail_cons, Text.Decimal.toInt_ofInt, hcommands]

theorem decode_render {ticks : List Tick} (h : forall t, t ∈ ticks -> t.Codable) :
    decode (render ticks) = ticks := by
  have hlines : forall line, line ∈ ticks.map Tick.line ++ [[]] -> '\n' ∉ line := by
    intro line hline
    rcases List.mem_append.mp hline with htick | hlast
    · rcases List.mem_map.mp htick with ⟨t, ht, rfl⟩
      exact (h t ht).newline_not_mem_line
    · rw [List.mem_singleton.mp hlast]
      exact List.not_mem_nil
  have hsplit : (render ticks).splitOn '\n' = ticks.map Tick.line ++ [[]] := by
    rw [render_eq_intercalate]
    exact List.splitOn_intercalate '\n' hlines
      (List.append_ne_nil_of_right_ne_nil _ (List.cons_ne_nil _ _))
  rw [decode, hsplit, List.dropLast_concat, List.map_map]
  exact (List.map_congr_left (fun t ht => (h t ht).ofLine_line)).trans (List.map_id ticks)

end Tick

/-!
# The commands of a schedule
-/

namespace Score

theorem Playable.codable_of_call {score : Score} {l : Latencies} {unit : Nat}
    (h : score.Playable l unit)
    (hpositions : forall s n, n ∈ (score.timeline s).notes -> n.position <= Position.last)
    {c : Call} (hc : c ∈ score.calls l unit) : c.command.Codable := by
  rcases h.mem_calls_iff.mp hc with ⟨s, earlier, n, actions, next, hn, hplay, a, ha, rfl⟩
  apply Operation.codable_of_targets
  intro target hmove
  rw [Finger.target_of_mem_play hplay ha hmove]
  exact hpositions s n hn.mem

theorem codable_of_schedule {detect : Bool} {text : List Char} {score : Score}
    (hread : Score.read detect text = .ok score) {l : Latencies} {tempo : Tempo}
    {policy : BrushPolicy} {ticks : List Tick}
    (h : score.schedule l tempo policy = .ok ticks) {t : Tick} (ht : t ∈ ticks) :
    t.Codable := by
  have hplayable := playable_of_schedule h
  rw [(wellTimed_read hread).schedule_eq l tempo policy policy] at h
  rcases Outcome.map_eq_ok_iff.mp h with ⟨plain, hplain, rfl⟩
  rcases List.mem_map.mp ht with ⟨u, hu, rfl⟩
  intro c hc
  rcases BrushPolicy.mem_of_mem_merge hc with hcommand | hstroke
  · have hmerges := merges_schedule (Or.inl score.brushes_withoutBrushes) hplain
    rw [allCalls_of_brushes_nil score.brushes_withoutBrushes] at hmerges
    rw [<- Tick.commandsAt_of_mem hmerges.ascending hu, hmerges.commands] at hcommand
    exact hplayable.codable_of_call (fun _ _ hn => position_le_of_read hread hn)
      (Call.mem_commandsAt.mp hcommand)
  · rcases List.mem_map.mp (Call.mem_commandsAt.mp hstroke) with ⟨b, _, hb⟩
    injection hb with _ hcommand
    rw [<- hcommand]
    trivial

end Score

namespace Tick

def Scheduled (ticks : List Tick) : Prop :=
  exists detect text score, Score.read detect text = .ok score ∧
    exists l tempo policy, score.schedule l tempo policy = .ok ticks

theorem Scheduled.codable {ticks : List Tick} (h : Scheduled ticks) :
    forall t, t ∈ ticks -> t.Codable := by
  rcases h with ⟨detect, text, score, hread, l, tempo, policy, hschedule⟩
  intro t ht
  exact Score.codable_of_schedule hread hschedule ht

/--
Ticks can be read back from their text if every move has a code of its own.  That is
so in every schedule, so different schedules have different texts.
-/
theorem render_is_uniquely_decodable :
    (forall ticks, (forall t, t ∈ ticks -> t.Codable) -> decode (render ticks) = ticks) ∧
      (forall ticks, Scheduled ticks -> forall t, t ∈ ticks -> t.Codable) ∧
      forall ticks other, Scheduled ticks -> Scheduled other ->
        render ticks = render other -> ticks = other := by
  refine ⟨fun _ => decode_render, fun _ => Scheduled.codable, ?_⟩
  intro ticks other hticks hother hsame
  calc
    ticks = decode (render ticks) := (decode_render hticks.codable).symm
    _ = decode (render other) := congrArg decode hsame
    _ = other := decode_render hother.codable

theorem sample_is_decodable :
    exists ticks,
      Score.sample.schedule Latencies.sample Tempo.standard .append = .ok ticks ∧
        decode ("0 02\n20 06\n25 08\n3985 07\n3990 03\n4020 06\n" ++
          "4025 08 18 AB\n").toList = ticks := by
  have htext :
      (Score.sample.schedule Latencies.sample Tempo.standard .append).toOption.map render =
        some ("0 02\n20 06\n25 08\n3985 07\n3990 03\n4020 06\n" ++
          "4025 08 18 AB\n").toList := by
    decide +kernel
  rcases Option.map_eq_some_iff.mp htext with ⟨ticks, hsome, htext⟩
  have h := Outcome.toOption_eq_some_iff.mp hsome
  have hscheduled : Scheduled ticks := ⟨true, _, _, Score.read_sampleText, _, _, _, h⟩
  rcases render_is_uniquely_decodable with ⟨hdecode, hcodable, _⟩
  rw [<- htext]
  exact ⟨ticks, h, hdecode ticks (hcodable ticks hscheduled)⟩

end Tick
end Plectrum

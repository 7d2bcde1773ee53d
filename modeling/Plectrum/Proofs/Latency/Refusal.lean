import Plectrum.Proofs.Latency.Configuration
import Plectrum.Proofs.Text.LineEnds

/-!
# Why a configuration is refused

A line is refused for what is first found wrong with it, and that depends on the lines
before it only.  So a configuration is refused at the first such line, whatever comes
behind it.  A configuration without such a line lacks a single latency.
-/

namespace Plectrum

/-!
# Faults of the arguments
-/

def Latency.Written (text : List Char) : Prop :=
  exists l : Latency, Text.Decimal.Denotes text l.ms

def Position.Written (text : List Char) (p : Position) : Prop :=
  Text.Decimal.Denotes text p ∧ 0 < p ∧ p <= Position.last

inductive Position.Fault (argument : Nat) (text : List Char) : DirectiveFault -> Prop where
  | notPositive :
      ¬ Latency.Written text -> Fault argument text (.notPositive .move argument text)
  | tooLarge {l : Latency} :
      Text.Decimal.Denotes text l.ms -> Position.last < l.ms ->
        Fault argument text (.positionTooLarge l.ms)

/-- What is first found wrong with the arguments of a travel time. -/
inductive Move.Fault (source target travel : List Char) : DirectiveFault -> Prop where
  | source {fault : DirectiveFault} :
      Position.Fault 1 source fault -> Fault source target travel fault
  | target {a : Position} {fault : DirectiveFault} :
      Position.Written source a -> Position.Fault 2 target fault ->
        Fault source target travel fault
  | travel {a b : Position} :
      Position.Written source a -> Position.Written target b -> ¬ Latency.Written travel ->
        Fault source target travel (.notPositive .move 3 travel)
  | toItself {a : Position} :
      Position.Written source a -> Position.Written target a -> Latency.Written travel ->
        Fault source target travel (.moveToItself a)

/-- What is first found wrong with the words of a line, when entries were given before. -/
inductive Entry.Fault (given : Entry -> Prop) : List (List Char) -> DirectiveFault -> Prop where
  | scalarCount {s : Scalar} {arguments : List (List Char)} :
      arguments.length ≠ 1 ->
        Fault given (s.word.toList :: arguments) (.argumentCount (.scalar s))
  | repeatedScalar {s : Scalar} {l : Latency} {text : List Char} :
      given (.scalar s l) -> Fault given [s.word.toList, text] (.repeatedScalar s)
  | scalarText {s : Scalar} {text : List Char} :
      (forall l, ¬ given (.scalar s l)) -> ¬ Latency.Written text ->
        Fault given [s.word.toList, text] (.notPositive (.scalar s) 1 text)
  | moveCount {arguments : List (List Char)} :
      arguments.length ≠ 3 ->
        Fault given (Directive.move.word.toList :: arguments) (.argumentCount .move)
  | moveArguments {source target travel : List Char} {fault : DirectiveFault} :
      Move.Fault source target travel fault ->
        Fault given [Directive.move.word.toList, source, target, travel] fault
  | repeatedMove {source target travel : List Char} {m earlier : Move} :
      m.Denoted source target travel -> given (.move earlier) -> ¬ earlier.Agrees m ->
        Fault given [Directive.move.word.toList, source, target, travel]
          (.repeatedMove m.source m.target)

namespace Draft

theorem latencyArgument_eq_error_iff {directive : Directive} {argument : Nat}
    {text : List Char} {fault : DirectiveFault} :
    latencyArgument directive argument text = .error fault <->
      ¬ Latency.Written text ∧ fault = .notPositive directive argument text := by
  have hok : Latency.Written text <->
      exists l, latencyArgument directive argument text = .ok l :=
    exists_congr fun _ => latencyArgument_eq_ok_iff.symm
  rw [hok, latencyArgument]
  cases Latency.ofNumeral? text with
  | none => simp [eq_comm]
  | some l => simp

theorem positionArgument_eq_error_iff {argument : Nat} {text : List Char}
    {fault : DirectiveFault} :
    positionArgument argument text = .error fault <-> Position.Fault argument text fault := by
  unfold positionArgument
  rw [Outcome.bind_eq_error_iff]
  constructor
  · intro h
    rcases h with hnone | ⟨n, hn, h⟩
    · rcases latencyArgument_eq_error_iff.mp hnone with ⟨htext, rfl⟩
      exact Position.Fault.notPositive htext
    · split at h
      · cases h
      · rename_i hlarge
        injection h with hfault
        rw [<- hfault]
        exact Position.Fault.tooLarge (latencyArgument_eq_ok_iff.mp hn)
          (Nat.lt_of_not_le hlarge)
  · intro h
    cases h with
    | notPositive hnone => exact Or.inl (latencyArgument_eq_error_iff.mpr ⟨hnone, rfl⟩)
    | tooLarge htext hlarge =>
        exact Or.inr ⟨_, latencyArgument_eq_ok_iff.mpr htext, if_neg (Nat.not_le.mpr hlarge)⟩

theorem moveArguments_eq_error_iff {source target travel : List Char}
    {fault : DirectiveFault} :
    moveArguments source target travel = .error fault <->
      Move.Fault source target travel fault := by
  unfold moveArguments
  simp only [Outcome.bind_eq_error_iff, positionArgument_eq_ok_iff, positionArgument_eq_error_iff,
    latencyArgument_eq_ok_iff, latencyArgument_eq_error_iff]
  constructor
  · intro h
    rcases h with hsource | ⟨a, ha, htarget | ⟨b, hb, ⟨htravel, rfl⟩ | ⟨t, ht, h⟩⟩⟩
    · exact Move.Fault.source hsource
    · exact Move.Fault.target ha htarget
    · exact Move.Fault.travel ha hb htravel
    · split at h
      · rename_i hsame
        injection h with hfault
        rw [<- hfault]
        exact Move.Fault.toItself ha (hsame ▸ hb) ⟨t, ht⟩
      · cases h
  · intro h
    cases h with
    | source hsource => exact Or.inl hsource
    | target ha htarget => exact Or.inr ⟨_, ha, Or.inl htarget⟩
    | travel ha hb htravel => exact Or.inr ⟨_, ha, Or.inr ⟨_, hb, Or.inl ⟨htravel, rfl⟩⟩⟩
    | toItself ha hb htravel =>
        rcases htravel with ⟨t, ht⟩
        exact Or.inr ⟨_, ha, Or.inr ⟨_, hb, Or.inr ⟨t, ht, if_pos rfl⟩⟩⟩

/-!
# Faults of a line
-/

theorem addWords_scalar (d : Draft) (s : Scalar) (arguments : List (List Char)) :
    d.addWords (s.word.toList :: arguments) = d.addScalar s arguments := by
  have hword : Directive.ofWord? s.word.toList = some (.scalar s) :=
    Directive.ofWord?_word (.scalar s)
  rw [addWords, hword]

theorem addWords_move (d : Draft) (arguments : List (List Char)) :
    d.addWords (Directive.move.word.toList :: arguments) = d.addMove arguments := by
  rw [addWords, Directive.ofWord?_word]

theorem fault_of_addScalar {d : Draft} {s : Scalar} {arguments : List (List Char)}
    {fault : DirectiveFault} (h : d.addScalar s arguments = .error fault) :
    Entry.Fault d.Holds (s.word.toList :: arguments) fault := by
  unfold addScalar at h
  split at h
  · rename_i text
    split at h
    · rename_i hsome
      rcases Option.isSome_iff_exists.mp hsome with ⟨l, hl⟩
      injection h with hfault
      rw [<- hfault]
      exact Entry.Fault.repeatedScalar hl
    · rename_i hnone
      rcases latencyArgument_eq_error_iff.mp (Outcome.map_eq_error_iff.mp h) with ⟨htext, rfl⟩
      refine Entry.Fault.scalarText ?_ htext
      intro l hl
      exact hnone (Option.isSome_iff_exists.mpr ⟨l, hl⟩)
  · rename_i hcount
    injection h with hfault
    rw [<- hfault]
    apply Entry.Fault.scalarCount
    intro hone
    rcases List.length_eq_one_iff.mp hone with ⟨text, htext⟩
    exact hcount text htext

theorem fault_of_addMove {d : Draft} {arguments : List (List Char)} {fault : DirectiveFault}
    (h : d.addMove arguments = .error fault) :
    Entry.Fault d.Holds (Directive.move.word.toList :: arguments) fault := by
  unfold addMove at h
  split at h
  · rename_i source target travel
    rcases Outcome.bind_eq_error_iff.mp h with harguments | ⟨m, hm, h⟩
    · exact Entry.Fault.moveArguments (moveArguments_eq_error_iff.mp harguments)
    · split at h
      · rename_i hany
        rcases List.any_eq_true.mp hany with ⟨earlier, hearlier, hexcludes⟩
        injection h with hfault
        rw [<- hfault]
        refine Entry.Fault.repeatedMove (moveArguments_eq_ok_iff.mp hm) hearlier ?_
        intro hagrees
        cases hexcludes.symm.trans (Move.excludes_eq_false_iff.mpr hagrees)
      · cases h
  · rename_i hcount
    injection h with hfault
    rw [<- hfault]
    apply Entry.Fault.moveCount
    intro hthree
    rcases List.length_eq_three.mp hthree with ⟨source, target, travel, hwords⟩
    exact hcount source target travel hwords

theorem addWords_eq_error_iff {d : Draft} {words : List (List Char)} {fault : DirectiveFault} :
    d.addWords words = .error fault <-> Entry.Fault d.Holds words fault := by
  constructor
  · intro h
    cases words with
    | nil => cases h
    | cons first arguments =>
        cases hword : Directive.ofWord? first with
        | none =>
            rw [addWords, hword] at h
            cases h
        | some directive =>
            rw [<- Directive.word_of_ofWord? hword] at h ⊢
            cases directive with
            | scalar s => exact fault_of_addScalar ((d.addWords_scalar s arguments).symm.trans h)
            | move => exact fault_of_addMove ((d.addWords_move arguments).symm.trans h)
  · intro h
    cases h with
    | scalarCount hcount =>
        rw [addWords_scalar]
        unfold addScalar
        split
        · exact absurd rfl hcount
        · rfl
    | repeatedScalar hgiven =>
        rw [addWords_scalar, addScalar, if_pos]
        exact Option.isSome_iff_exists.mpr ⟨_, hgiven⟩
    | scalarText hnew htext =>
        rw [addWords_scalar, addScalar, if_neg]
        · exact Outcome.map_eq_error_iff.mpr (latencyArgument_eq_error_iff.mpr ⟨htext, rfl⟩)
        · intro hsome
          rcases Option.isSome_iff_exists.mp hsome with ⟨l, hl⟩
          exact hnew l hl
    | moveCount hcount =>
        rw [addWords_move]
        unfold addMove
        split
        · exact absurd rfl hcount
        · rfl
    | moveArguments harguments =>
        rw [addWords_move]
        exact Outcome.bind_eq_error_iff.mpr (Or.inl (moveArguments_eq_error_iff.mpr harguments))
    | repeatedMove hm hgiven hcontradicts =>
        rename_i m earlier
        rw [addWords_move]
        refine Outcome.bind_eq_error_iff.mpr (Or.inr ⟨m, moveArguments_eq_ok_iff.mpr hm, ?_⟩)
        rw [if_pos]
        · rfl
        · apply List.any_eq_true.mpr
          refine ⟨earlier, hgiven, ?_⟩
          rw [<- Bool.not_eq_false, Move.excludes_eq_false_iff]
          exact hcontradicts

/-- What is wrong with a line depends on what the lines before it say. -/
theorem Records.addLine_eq_error_iff {lines : List Text.Line} {d : Draft} (h : Records lines d)
    {line : Text.Line} {e : ConfigurationError} :
    d.addLine line = .error e <->
      exists fault, e = .line line.number fault ∧
        Entry.Fault (Entry.Given (lines.map Text.Line.words)) line.words fault := by
  have hholds : d.Holds = Entry.Given (lines.map Text.Line.words) :=
    funext fun entry => propext (h entry)
  rw [addLine, Outcome.mapError_eq_error_iff, <- hholds]
  constructor
  · intro ⟨fault, hwords, he⟩
    exact ⟨fault, he.symm, addWords_eq_error_iff.mp hwords⟩
  · intro ⟨fault, he, hfault⟩
    exact ⟨fault, addWords_eq_error_iff.mpr hfault, he.symm⟩

end Draft

/-!
# The first faulty line
-/

namespace Latencies

/-- Whether the line of a number is refused for a fault, behind lines that are consistent. -/
def RefusedAt (lines : List Text.Line) (n : Nat) (fault : DirectiveFault) : Prop :=
  exists front line back, lines = front ++ line :: back ∧ line.number = n ∧
    Consistent (front.map Text.Line.words) ∧
    Entry.Fault (Entry.Given (front.map Text.Line.words)) line.words fault

theorem readLines_eq_error_iff {lines : List Text.Line} {e : ConfigurationError} :
    readLines lines = .error e <->
      exists n fault, e = .line n fault ∧ RefusedAt lines n fault := by
  have hfold : readLines lines = .error e <->
      exists front line back, lines = front ++ line :: back ∧
        Consistent (front.map Text.Line.words) ∧
        exists fault, e = .line line.number fault ∧
          Entry.Fault (Entry.Given (front.map Text.Line.words)) line.words fault :=
    Outcome.foldlM_fault_iff Draft.Records Draft.records_nil
      (fun _ _ _ _ _ hpassed hline => hpassed.concat hline)
      (fun passed => Consistent (passed.map Text.Line.words))
      (fun passed line e => exists fault, e = .line line.number fault ∧
        Entry.Fault (Entry.Given (passed.map Text.Line.words)) line.words fault)
      (fun _ _ => readLines_ok_iff)
      (fun _ _ _ _ _ hpassed => hpassed.addLine_eq_error_iff) (fun _ hline => hline)
  rw [hfold]
  constructor
  · intro ⟨front, line, back, hlines, hfront, fault, he, hfault⟩
    exact ⟨line.number, fault, he, front, line, back, hlines, rfl, hfront, hfault⟩
  · intro ⟨n, fault, he, front, line, back, hlines, hn, hfront, hfault⟩
    exact ⟨front, line, back, hlines, hfront, fault, hn ▸ he, hfault⟩

theorem readLines_ok_iff_not_refused {lines : List Text.Line} :
    (exists d, readLines lines = .ok d) <-> forall n fault, ¬ RefusedAt lines n fault := by
  rw [Outcome.ok_iff_forall_ne_error]
  constructor
  · intro h n fault hrefused
    exact h _ (readLines_eq_error_iff.mpr ⟨n, fault, rfl, hrefused⟩)
  · intro h e he
    rcases readLines_eq_error_iff.mp he with ⟨n, fault, _, hrefused⟩
    exact h n fault hrefused

theorem RefusedAt.exists_split {configuration : List Char} {n : Nat} {fault : DirectiveFault}
    (h : RefusedAt (Text.numberedLines configuration) n fault) :
    exists front line back, Text.numberedLines configuration = front ++ line :: back ∧
      n = front.length + 1 ∧ Consistent (front.map Text.Line.words) ∧
      forall others, RefusedAt (front ++ line :: others) n fault := by
  rcases h with ⟨front, line, back, hlines, hn, hfront, hfault⟩
  have hnumber := hn.symm.trans (Text.number_eq_of_numberedLines hlines)
  exact ⟨front, line, back, hlines, hnumber, hfront,
    fun others => ⟨front, line, others, rfl, hn, hfront, hfault⟩⟩

end Latencies

/-!
# Missing latencies
-/

namespace Scalar

def all : List Scalar :=
  [settle, press, release]

def Occurs (lines : List (List (List Char))) (s : Scalar) : Prop :=
  exists arguments, s.word.toList :: arguments ∈ lines

def FirstAbsent (lines : List (List (List Char))) (s : Scalar) : Prop :=
  ¬ Occurs lines s ∧ exists before after, all = before ++ s :: after ∧
    forall t, t ∈ before -> Occurs lines t

theorem occurs_iff_given {lines : List (List (List Char))} (h : Consistent lines) {s : Scalar} :
    Occurs lines s <-> exists l, Entry.Given lines (.scalar s l) := by
  constructor
  · intro ⟨arguments, hwords⟩
    rcases h.written _ hwords ⟨.scalar s, arguments, rfl⟩ with ⟨e, hsaid⟩
    have hdirective : e.directive = .scalar s := Entry.Said.directive_eq hsaid
    cases e with
    | scalar t l =>
        cases hdirective
        exact ⟨l, _, hwords, hsaid⟩
    | move m => cases hdirective
  · intro ⟨l, words, hwords, text, htext, _⟩
    exact ⟨[text], htext ▸ hwords⟩

end Scalar

namespace Draft

theorem finish_eq_error_iff {d : Draft} {e : ConfigurationError} :
    d.finish = .error e <->
      exists s, e = .missing s ∧ Scalar.all.find? (fun t => (d.scalar t).isNone) = some s := by
  unfold finish require Scalar.all
  cases hsettle : d.scalar .settle with
  | none => simp [hsettle, Bind.bind, Except.bind, eq_comm]
  | some settle =>
      cases hpress : d.scalar .press with
      | none => simp [hsettle, hpress, Bind.bind, Except.bind, eq_comm]
      | some press =>
          cases hrelease : d.scalar .release with
          | none => simp [hsettle, hpress, hrelease, Bind.bind, Except.bind, eq_comm]
          | some release =>
              simp [hsettle, hpress, hrelease, Bind.bind, Except.bind, Pure.pure, Except.pure]

theorem Records.finish_eq_missing_iff {lines : List Text.Line} {d : Draft} (h : Records lines d)
    (hlines : Consistent (lines.map Text.Line.words)) {s : Scalar} :
    d.finish = .error (.missing s) <-> Scalar.FirstAbsent (lines.map Text.Line.words) s := by
  have hoccurs : forall t, (d.scalar t).isNone = false <->
      Scalar.Occurs (lines.map Text.Line.words) t := by
    intro t
    rw [Scalar.occurs_iff_given hlines, Option.isNone_eq_false_iff, Option.isSome_iff_exists]
    exact exists_congr fun l => h (.scalar t l)
  have habsent : (d.scalar s).isNone = true <-> ¬ Scalar.Occurs (lines.map Text.Line.words) s := by
    rw [<- hoccurs, Bool.not_eq_false]
  rw [finish_eq_error_iff]
  simp only [ConfigurationError.missing.injEq, exists_eq_left']
  rw [List.find?_eq_some_iff_append, Scalar.FirstAbsent, habsent]
  simp only [Bool.not_eq_true', hoccurs]

end Draft

namespace Latencies

theorem read_eq_line_error_iff {configuration : List Char} {n : Nat} {fault : DirectiveFault} :
    read configuration = .error (.line n fault) <->
      RefusedAt (Text.numberedLines configuration) n fault := by
  rw [read, Outcome.bind_eq_error_iff, readLines_eq_error_iff]
  constructor
  · intro h
    rcases h with ⟨n, fault, he, hrefused⟩ | ⟨d, _, hfinish⟩
    · injection he with hn hfault
      rw [hn, hfault]
      exact hrefused
    · rcases Draft.finish_eq_error_iff.mp hfinish with ⟨_, he, _⟩
      cases he
  · intro h
    exact Or.inl ⟨n, fault, rfl, h⟩

theorem read_eq_missing_iff {configuration : List Char} {s : Scalar} :
    read configuration = .error (.missing s) <->
      (forall n fault, ¬ RefusedAt (Text.numberedLines configuration) n fault) ∧
        Scalar.FirstAbsent (lines configuration) s := by
  have hfinish : forall {d : Draft}, readLines (Text.numberedLines configuration) = .ok d ->
      (d.finish = .error (.missing s) <-> Scalar.FirstAbsent (lines configuration) s) :=
    fun hd => (records_of_readLines hd).finish_eq_missing_iff (consistent_of_readLines hd)
  rw [<- readLines_ok_iff_not_refused, read, Outcome.bind_eq_error_iff]
  constructor
  · intro h
    rcases h with hlines | ⟨d, hd, herror⟩
    · rcases readLines_eq_error_iff.mp hlines with ⟨_, _, he, _⟩
      cases he
    · exact ⟨⟨d, hd⟩, (hfinish hd).mp herror⟩
  · rintro ⟨⟨d, hd⟩, habsent⟩
    exact Or.inr ⟨d, hd, (hfinish hd).mpr habsent⟩

theorem read_cases_of_consistent {configuration : List Char}
    (h : Consistent (lines configuration)) :
    (exists l, read configuration = .ok l) ∨
      exists s, read configuration = .error (.missing s) := by
  rcases readLines_ok_iff.mpr h with ⟨d, hd⟩
  have hread : read configuration = d.finish := by
    rw [read, show readLines (Text.numberedLines configuration) = .ok d from hd]
    rfl
  rw [hread]
  cases hfinish : d.finish with
  | ok l => exact Or.inl ⟨l, rfl⟩
  | error e =>
      rcases Draft.finish_eq_error_iff.mp hfinish with ⟨s, rfl, _⟩
      exact Or.inr ⟨s, rfl⟩

section Locality

variable {configuration : List Char} {n : Nat} {fault : DirectiveFault}

theorem bounds_of_read_eq_line_error (h : read configuration = .error (.line n fault)) :
    0 < n ∧ n <= (Text.numberedLines configuration).length := by
  rcases (read_eq_line_error_iff.mp h).exists_split with ⟨before, line, back, hlines, rfl, _, _⟩
  refine ⟨Nat.succ_pos _, ?_⟩
  rw [hlines, List.length_append, List.length_cons]
  exact Nat.add_le_add_left (Nat.le_add_left 1 _) _

theorem read_of_same_front (h : read configuration = .error (.line n fault)) {other : List Char}
    (hother : (Text.numberedLines other).take n = (Text.numberedLines configuration).take n) :
    read other = .error (.line n fault) := by
  rcases (read_eq_line_error_iff.mp h).exists_split with
    ⟨before, line, back, hlines, rfl, _, hrefused⟩
  have hsame : (Text.numberedLines other).take (before.length + 1) = before ++ [line] := by
    rw [hother, hlines, List.take_length_add_append]
    rfl
  have hothers : Text.numberedLines other =
      before ++ line :: (Text.numberedLines other).drop (before.length + 1) := by
    have hsplit := List.take_append_drop (before.length + 1) (Text.numberedLines other)
    rw [hsame, List.append_assoc] at hsplit
    exact hsplit.symm
  rw [read_eq_line_error_iff, hothers]
  exact hrefused _

theorem read_of_lines_before (h : read configuration = .error (.line n fault)) {front : List Char}
    (hfront : Text.numberedLines front = (Text.numberedLines configuration).take (n - 1)) :
    (exists l, read front = .ok l) ∨ exists s, read front = .error (.missing s) := by
  rcases (read_eq_line_error_iff.mp h).exists_split with
    ⟨before, line, back, hlines, rfl, hbefore, _⟩
  have hsame : Text.numberedLines front = before := by
    rw [hfront, hlines]
    exact List.take_left
  apply read_cases_of_consistent
  rw [lines, hsame]
  exact hbefore

end Locality

/--
A configuration is refused at its first faulty line.  Every text with the same lines up to
there is refused for the same, and the lines before it, which are the lines of a front part
of the text, lack no more than a single latency.  A latency is said to be missing only if no
line is refused, and it is then the first one for which there is no line.
-/
theorem read_stops_at_first_fault (configuration : List Char) :
    (forall n fault,
      read configuration = .error (.line n fault) <->
        RefusedAt (Text.numberedLines configuration) n fault) ∧
      (forall n fault, read configuration = .error (.line n fault) ->
        (0 < n ∧ n <= (Text.numberedLines configuration).length) ∧
          (forall other,
            (Text.numberedLines other).take n = (Text.numberedLines configuration).take n ->
              read other = .error (.line n fault)) ∧
          (exists front, front <+: configuration ∧
            Text.numberedLines front = (Text.numberedLines configuration).take (n - 1)) ∧
          forall front,
            Text.numberedLines front = (Text.numberedLines configuration).take (n - 1) ->
              (exists l, read front = .ok l) ∨ exists s, read front = .error (.missing s)) ∧
      forall s, read configuration = .error (.missing s) ->
        (forall n fault, ¬ RefusedAt (Text.numberedLines configuration) n fault) ∧
          Scalar.FirstAbsent (lines configuration) s := by
  refine ⟨fun _ _ => read_eq_line_error_iff, ?_, fun _ h => read_eq_missing_iff.mp h⟩
  intro n fault h
  refine ⟨bounds_of_read_eq_line_error h, ?_, Text.exists_front_lines configuration _, ?_⟩
  · exact fun _ hother => read_of_same_front h hother
  · exact fun _ hfront => read_of_lines_before h hfront

/-- A text with a faulty line, one that goes on behind it, and one without it. -/
def faultyText : List Char :=
  "fret_latency 1\r\npress_latency 2\r\npress_latency 3\r\n".toList

def faultierText : List Char :=
  "fret_latency 1\npress_latency 2\npress_latency 3\nmove_latency 4 4 1\n".toList

def soundText : List Char :=
  "fret_latency 1\npress_latency 2".toList

theorem faulty_read_stops_at_first_fault :
    read faultyText = .error (.line 3 (.repeatedScalar .press)) ∧
      read faultierText = .error (.line 3 (.repeatedScalar .press)) ∧
      (exists s, read soundText = .error (.missing s)) ∧
      Scalar.FirstAbsent (lines soundText) .release := by
  have hfaulty : read faultyText = .error (.line 3 (.repeatedScalar .press)) := by
    decide +kernel
  have hmissing : read soundText = .error (.missing .release) := by
    decide +kernel
  rcases (read_stops_at_first_fault faultyText).right.left 3 _ hfaulty with
    ⟨_, hothers, _, hfronts⟩
  refine ⟨hfaulty, hothers faultierText (by decide +kernel), ?_, ?_⟩
  · rcases hfronts soundText (by decide +kernel) with ⟨l, hl⟩ | hs
    · cases hl.symm.trans hmissing
    · exact hs
  · exact ((read_stops_at_first_fault soundText).right.right .release hmissing).right

end Latencies
end Plectrum

import Plectrum.Proofs.Compile.Continuation
import Plectrum.Proofs.Compile.Location
import Plectrum.Program

/-!
# Stages of a run

What a run comes to depends on what its files hold when it begins.  Each stage has a fault
of its own, whatever the others do, and the run ends with the fault of the first stage that
has one.  If there is none, it comes to the commands that are to be delivered.
-/

namespace Plectrum

theorem compile_eq_error_iff {configuration text : List Char} {chords : Option ChordTable}
    {manner : Manner} {e : CompileError} :
    compile configuration text chords manner = .error e <->
      (exists d, Latencies.read configuration = .error d ∧ .configuration d = e) ∨
      exists l, Latencies.read configuration = .ok l ∧
        ((exists d, Score.read manner.detectsBrushes (withChords chords text) = .error d ∧
          .score (faultPlace (withChords chords text) d) d = e) ∨
        exists read, Score.read manner.detectsBrushes (withChords chords text) = .ok read ∧
          exists d, read.schedule l manner.tempo manner.policy = .error d ∧ .schedule d = e) := by
  unfold compile readScore
  simp only [Outcome.bind_eq_error_iff, Outcome.mapError_eq_error_iff,
    Outcome.mapError_eq_ok_iff]

abbrev Files := String -> Except FileFailure String

inductive Stage where
  | tempo
  | configuration
  | score
  | chordFile
  | chordTable
  | latencies
  | tuples
  | schedule
  deriving DecidableEq

namespace Stage

def all : List Stage :=
  [tempo, configuration, score, chordFile, chordTable, latencies, tuples, schedule]

end Stage

namespace Options

variable (o : Options) (files : Files)

inductive HasChords : Option ChordTable -> Prop where
  | none (absent : o.chords = .none) : HasChords .none
  | some {path text : String} {table : ChordTable} (given : o.chords = .some path)
      (contents : files path = .ok text) (read : ChordTable.read text.toList = .ok table) :
      HasChords (.some table)

def manner (tempo : Tempo) : Manner :=
  { tempo := tempo, brush := o.brush }

/-- What is wrong at a stage, whatever is wrong at the others. -/
inductive FaultAt : Stage -> ProgramError -> Prop where
  | tempo (zero : o.tempo = 0 ∨ o.divisions = 0) :
      FaultAt .tempo (.tempo o.tempo o.divisions)
  | configuration {failure : FileFailure} (unread : files o.configuration = .error failure) :
      FaultAt .configuration (.unreadable o.configuration failure)
  | score {failure : FileFailure} (unread : files o.score = .error failure) :
      FaultAt .score (.unreadable o.score failure)
  | chordFile {path : String} {failure : FileFailure} (given : o.chords = some path)
      (unread : files path = .error failure) : FaultAt .chordFile (.unreadable path failure)
  | chordTable {path text : String} {e : ChordError} (given : o.chords = some path)
      (contents : files path = .ok text) (fault : ChordTable.read text.toList = .error e) :
      FaultAt .chordTable (.chords e)
  | latencies {text : String} {e : ConfigurationError}
      (contents : files o.configuration = .ok text)
      (fault : Latencies.read text.toList = .error e) :
      FaultAt .latencies (.compile (.configuration e))
  | tuples {text : String} {chords : Option ChordTable} {e : ScoreError}
      (contents : files o.score = .ok text) (known : o.HasChords files chords)
      (fault : Score.read o.brush.isSome (withChords chords text.toList) = .error e) :
      FaultAt .tuples (.compile (.score (faultPlace (withChords chords text.toList) e) e))
  | schedule {configuration text : String} {chords : Option ChordTable} {tempo : Tempo}
      {l : Latencies} {read : Score} {e : ScheduleError}
      (valid : Tempo.of? o.tempo o.divisions = some tempo)
      (instrument : files o.configuration = .ok configuration)
      (known : Latencies.read configuration.toList = .ok l)
      (contents : files o.score = .ok text) (called : o.HasChords files chords)
      (tuples : Score.read o.brush.isSome (withChords chords text.toList) = .ok read)
      (fault : read.schedule l tempo (o.manner tempo).policy = .error e) :
      FaultAt .schedule (.compile (.schedule e))

def Passes (stage : Stage) : Prop :=
  forall e, ¬ o.FaultAt files stage e

def FirstFault (e : ProgramError) : Prop :=
  exists front stage back, Stage.all = front ++ stage :: back ∧
    (forall earlier, earlier ∈ front -> o.Passes files earlier) ∧ o.FaultAt files stage e

def ComesTo (ticks : List Tick) : Prop :=
  exists tempo configuration score chords,
    Tempo.of? o.tempo o.divisions = some tempo ∧ files o.configuration = .ok configuration ∧
      files o.score = .ok score ∧ o.HasChords files chords ∧
      compile configuration.toList score.toList chords (o.manner tempo) = .ok ticks

/-!
# What a run comes to
-/

def textOf (path : String) : Except ProgramError (List Char) :=
  ((files path).mapError (.unreadable path)).map String.toList

def validTempo : Except ProgramError Tempo :=
  match Tempo.of? o.tempo o.divisions with
  | some tempo => .ok tempo
  | none => .error (.tempo o.tempo o.divisions)

def chordTable : Except ProgramError (Option ChordTable) :=
  match o.chords with
  | none => .ok none
  | some path => do
      let text <- textOf files path
      ((ChordTable.read text).mapError .chords).map some

def planned : Except ProgramError (List Tick) := do
  let tempo <- o.validTempo
  let configuration <- textOf files o.configuration
  let score <- textOf files o.score
  let chords <- o.chordTable files
  (compile configuration score chords (o.manner tempo)).mapError .compile

variable {o files}

theorem textOf_eq_ok_iff {path : String} {text : List Char} :
    textOf files path = .ok text <->
      exists contents, files path = .ok contents ∧ contents.toList = text := by
  unfold textOf
  simp only [Outcome.map_eq_ok_iff, Outcome.mapError_eq_ok_iff]

theorem textOf_eq_error_iff {path : String} {e : ProgramError} :
    textOf files path = .error e <->
      exists failure, files path = .error failure ∧ .unreadable path failure = e := by
  unfold textOf
  rw [Outcome.map_eq_error_iff, Outcome.mapError_eq_error_iff]

theorem validTempo_eq_ok_iff {tempo : Tempo} :
    o.validTempo = .ok tempo <-> Tempo.of? o.tempo o.divisions = some tempo := by
  unfold validTempo
  cases Tempo.of? o.tempo o.divisions with
  | none =>
      constructor
      · intro h
        cases h
      · intro h
        cases h
  | some other => rw [Except.ok.injEq, Option.some.injEq]

theorem validTempo_eq_error_iff {e : ProgramError} :
    o.validTempo = .error e <->
      (o.tempo = 0 ∨ o.divisions = 0) ∧ .tempo o.tempo o.divisions = e := by
  unfold validTempo Tempo.of?
  by_cases h : o.tempo ≠ 0 ∧ o.divisions ≠ 0
  · rw [dif_pos h]
    constructor
    · intro herror
      cases herror
    · intro ⟨hzero, _⟩
      exact absurd hzero (not_or.mpr h)
  · rw [dif_neg h]
    have hzero : o.tempo = 0 ∨ o.divisions = 0 := by
      by_contra hne
      exact h (not_or.mp hne)
    rw [Except.error.injEq]
    exact ⟨fun he => ⟨hzero, he⟩, fun he => he.right⟩

theorem chordTable_eq_ok_iff {chords : Option ChordTable} :
    o.chordTable files = .ok chords <-> o.HasChords files chords := by
  unfold chordTable
  cases hpath : o.chords with
  | none =>
      constructor
      · intro h
        injection h with h
        exact h ▸ .none hpath
      · intro h
        cases h with
        | none absent => rfl
        | some given contents read => cases hpath.symm.trans given
  | some path =>
      simp only [Outcome.bind_eq_ok_iff, textOf_eq_ok_iff, Outcome.map_eq_ok_iff,
        Outcome.mapError_eq_ok_iff]
      constructor
      · intro ⟨_, ⟨contents, hcontents, rfl⟩, table, hread, hchords⟩
        exact hchords ▸ .some hpath hcontents hread
      · intro h
        cases h with
        | none absent => cases hpath.symm.trans absent
        | some given contents read =>
            cases hpath.symm.trans given
            exact ⟨_, ⟨_, contents, rfl⟩, _, read, rfl⟩

theorem chordTable_eq_error_iff {e : ProgramError} :
    o.chordTable files = .error e <->
      o.FaultAt files .chordFile e ∨ o.FaultAt files .chordTable e := by
  unfold chordTable
  cases hpath : o.chords with
  | none =>
      constructor
      · intro h
        cases h
      · intro h
        cases h with
        | inl h =>
            cases h with
            | chordFile given unread => cases hpath.symm.trans given
        | inr h =>
            cases h with
            | chordTable given contents fault => cases hpath.symm.trans given
  | some path =>
      simp only [Outcome.bind_eq_error_iff, textOf_eq_error_iff, textOf_eq_ok_iff,
        Outcome.map_eq_error_iff, Outcome.mapError_eq_error_iff]
      constructor
      · intro h
        rcases h with ⟨failure, hunread, rfl⟩ | ⟨_, ⟨contents, hcontents, rfl⟩, d, hfault, rfl⟩
        · exact Or.inl (.chordFile hpath hunread)
        · exact Or.inr (.chordTable hpath hcontents hfault)
      · intro h
        cases h with
        | inl h =>
            cases h with
            | chordFile given unread =>
                cases hpath.symm.trans given
                exact Or.inl ⟨_, unread, rfl⟩
        | inr h =>
            cases h with
            | chordTable given contents fault =>
                cases hpath.symm.trans given
                exact Or.inr ⟨_, ⟨_, contents, rfl⟩, _, fault, rfl⟩

theorem planned_eq_ok_iff {ticks : List Tick} :
    o.planned files = .ok ticks <-> o.ComesTo files ticks := by
  unfold planned ComesTo
  simp only [Outcome.bind_eq_ok_iff, validTempo_eq_ok_iff, textOf_eq_ok_iff,
    chordTable_eq_ok_iff, Outcome.mapError_eq_ok_iff]
  constructor
  · intro ⟨tempo, htempo, _, ⟨configuration, hconfiguration, rfl⟩, _, ⟨score, hscore, rfl⟩,
      chords, hchords, hticks⟩
    exact ⟨tempo, configuration, score, chords, htempo, hconfiguration, hscore, hchords, hticks⟩
  · intro ⟨tempo, configuration, score, chords, htempo, hconfiguration, hscore, hchords, hticks⟩
    exact ⟨tempo, htempo, _, ⟨configuration, hconfiguration, rfl⟩, _, ⟨score, hscore, rfl⟩,
      chords, hchords, hticks⟩

/-!
# Stages without a fault
-/

theorem HasChords.unique {chords others : Option ChordTable} (h : o.HasChords files chords)
    (hothers : o.HasChords files others) : chords = others :=
  Except.ok.inj ((chordTable_eq_ok_iff.mpr h).symm.trans (chordTable_eq_ok_iff.mpr hothers))

theorem passes_tempo {tempo : Tempo} (h : Tempo.of? o.tempo o.divisions = some tempo) :
    o.Passes files .tempo := by
  intro e hfault
  cases hfault with
  | tempo zero =>
      cases (validTempo_eq_ok_iff.mpr h).symm.trans (validTempo_eq_error_iff.mpr ⟨zero, rfl⟩)

theorem passes_configuration {text : String} (h : files o.configuration = .ok text) :
    o.Passes files .configuration := by
  intro e hfault
  cases hfault with
  | configuration unread => cases h.symm.trans unread

theorem passes_score {text : String} (h : files o.score = .ok text) :
    o.Passes files .score := by
  intro e hfault
  cases hfault with
  | score unread => cases h.symm.trans unread

theorem passes_chordFile {path text : String} (hpath : o.chords = some path)
    (h : files path = .ok text) : o.Passes files .chordFile := by
  intro e hfault
  cases hfault with
  | chordFile given unread =>
      cases hpath.symm.trans given
      cases h.symm.trans unread

theorem HasChords.passes {chords : Option ChordTable} (h : o.HasChords files chords) :
    o.Passes files .chordFile ∧ o.Passes files .chordTable := by
  have hok := chordTable_eq_ok_iff.mpr h
  constructor
  · intro e hfault
    cases hok.symm.trans (chordTable_eq_error_iff.mpr (Or.inl hfault))
  · intro e hfault
    cases hok.symm.trans (chordTable_eq_error_iff.mpr (Or.inr hfault))

theorem passes_latencies {text : String} {l : Latencies} (h : files o.configuration = .ok text)
    (hread : Latencies.read text.toList = .ok l) : o.Passes files .latencies := by
  intro e hfault
  cases hfault with
  | latencies contents fault =>
      cases h.symm.trans contents
      cases hread.symm.trans fault

theorem passes_tuples {text : String} {chords : Option ChordTable} {read : Score}
    (h : files o.score = .ok text) (hchords : o.HasChords files chords)
    (hread : Score.read o.brush.isSome (withChords chords text.toList) = .ok read) :
    o.Passes files .tuples := by
  intro e hfault
  cases hfault with
  | tuples contents known fault =>
      cases h.symm.trans contents
      cases hchords.unique known
      cases hread.symm.trans fault

theorem ComesTo.passes {ticks : List Tick} (h : o.ComesTo files ticks) (stage : Stage) :
    o.Passes files stage := by
  rcases h with
    ⟨tempo, configuration, score, chords, htempo, hconfiguration, hscore, hchords, hticks⟩
  rcases compile_eq_ok_iff.mp hticks with ⟨l, read, hl, hread, hschedule⟩
  cases stage with
  | tempo => exact passes_tempo htempo
  | configuration => exact passes_configuration hconfiguration
  | score => exact passes_score hscore
  | chordFile => exact hchords.passes.left
  | chordTable => exact hchords.passes.right
  | latencies => exact passes_latencies hconfiguration hl
  | tuples => exact passes_tuples hscore hchords hread
  | schedule =>
      intro e hfault
      cases hfault with
      | schedule valid instrument known contents called tuples fault =>
          cases htempo.symm.trans valid
          cases hconfiguration.symm.trans instrument
          cases hl.symm.trans known
          cases hscore.symm.trans contents
          cases hchords.unique called
          cases hread.symm.trans tuples
          cases hschedule.symm.trans fault

/-!
# The first fault
-/

theorem FaultAt.unique {stage : Stage} {d e : ProgramError} (hd : o.FaultAt files stage d)
    (he : o.FaultAt files stage e) : d = e := by
  cases hd with
  | tempo zero =>
      cases he with
      | tempo zero => rfl
  | configuration unread =>
      cases he with
      | configuration other =>
          cases unread.symm.trans other
          rfl
  | score unread =>
      cases he with
      | score other =>
          cases unread.symm.trans other
          rfl
  | chordFile given unread =>
      cases he with
      | chordFile same other =>
          cases given.symm.trans same
          cases unread.symm.trans other
          rfl
  | chordTable given contents fault =>
      cases he with
      | chordTable same text other =>
          cases given.symm.trans same
          cases contents.symm.trans text
          cases fault.symm.trans other
          rfl
  | latencies contents fault =>
      cases he with
      | latencies text other =>
          cases contents.symm.trans text
          cases fault.symm.trans other
          rfl
  | tuples contents known fault =>
      cases he with
      | tuples text called other =>
          cases contents.symm.trans text
          cases known.unique called
          cases fault.symm.trans other
          rfl
  | schedule valid instrument known contents called tuples fault =>
      cases he with
      | schedule tempo configuration latencies text chords read other =>
          cases valid.symm.trans tempo
          cases instrument.symm.trans configuration
          cases known.symm.trans latencies
          cases contents.symm.trans text
          cases called.unique chords
          cases tuples.symm.trans read
          cases fault.symm.trans other
          rfl

theorem FirstFault.unique {d e : ProgramError} (hd : o.FirstFault files d)
    (he : o.FirstFault files e) : d = e := by
  classical
  have hfind : forall {front stage back e}, Stage.all = front ++ stage :: back ->
      (forall earlier, earlier ∈ front -> o.Passes files earlier) -> o.FaultAt files stage e ->
      Stage.all.find? (fun stage => decide (¬ o.Passes files stage)) = some stage := by
    intro front stage back e hsplit hpasses hfault
    rw [List.find?_eq_some_iff_append]
    refine ⟨decide_eq_true (fun hpass => hpass e hfault), front, back, hsplit, ?_⟩
    intro earlier hearlier
    simpa using hpasses earlier hearlier
  rcases hd with ⟨front, stage, back, hsplit, hpasses, hfault⟩
  rcases he with ⟨_, other, _, hother, hothers, hlater⟩
  cases (hfind hsplit hpasses hfault).symm.trans (hfind hother hothers hlater)
  exact hfault.unique hlater

theorem firstFault_of_compile {tempo : Tempo} {configuration score : String}
    {chords : Option ChordTable} {e : CompileError}
    (htempo : Tempo.of? o.tempo o.divisions = some tempo)
    (hconfiguration : files o.configuration = .ok configuration)
    (hscore : files o.score = .ok score) (hchords : o.HasChords files chords)
    (h : compile configuration.toList score.toList chords (o.manner tempo) = .error e) :
    o.FirstFault files (.compile e) := by
  have hread : forall stage,
      stage ∈ [Stage.tempo, .configuration, .score, .chordFile, .chordTable] ->
        o.Passes files stage := by
    simp only [List.forall_mem_cons]
    exact ⟨passes_tempo htempo, passes_configuration hconfiguration, passes_score hscore,
      hchords.passes.left, hchords.passes.right, List.forall_mem_nil _⟩
  rcases compile_eq_error_iff.mp h with ⟨d, hd, rfl⟩ | ⟨l, hl, h⟩
  · exact ⟨_, .latencies, _, rfl, hread, .latencies hconfiguration hd⟩
  have hloaded := List.forall_mem_append.mpr
    ⟨hread, List.forall_mem_singleton.mpr (passes_latencies hconfiguration hl)⟩
  rcases h with ⟨d, hd, rfl⟩ | ⟨tuples, htuples, d, hd, rfl⟩
  · exact ⟨_, .tuples, _, rfl, hloaded, .tuples hscore hchords hd⟩
  have hparsed := List.forall_mem_append.mpr
    ⟨hloaded, List.forall_mem_singleton.mpr (passes_tuples hscore hchords htuples)⟩
  exact ⟨_, .schedule, _, rfl, hparsed,
    .schedule htempo hconfiguration hl hscore hchords htuples hd⟩

theorem firstFault_of_planned {e : ProgramError} (h : o.planned files = .error e) :
    o.FirstFault files e := by
  -- Each stage that is passed is added to those in front of the next one.
  unfold planned at h
  rcases Outcome.bind_eq_error_iff.mp h with hfault | ⟨tempo, htempo, h⟩
  · rcases validTempo_eq_error_iff.mp hfault with ⟨hzero, rfl⟩
    exact ⟨[], .tempo, _, rfl, List.forall_mem_nil _, .tempo hzero⟩
  have hvalid := validTempo_eq_ok_iff.mp htempo
  have hpasses : o.Passes files .tempo := passes_tempo hvalid
  have htimed := List.forall_mem_singleton.mpr hpasses
  rcases Outcome.bind_eq_error_iff.mp h with hfault | ⟨_, hread, h⟩
  · rcases textOf_eq_error_iff.mp hfault with ⟨failure, hfailure, rfl⟩
    exact ⟨[.tempo], .configuration, _, rfl, htimed, .configuration hfailure⟩
  rcases textOf_eq_ok_iff.mp hread with ⟨configuration, hconfiguration, rfl⟩
  have hconfigured := List.forall_mem_append.mpr
    ⟨htimed, List.forall_mem_singleton.mpr (passes_configuration hconfiguration)⟩
  rcases Outcome.bind_eq_error_iff.mp h with hfault | ⟨_, hread, h⟩
  · rcases textOf_eq_error_iff.mp hfault with ⟨failure, hfailure, rfl⟩
    exact ⟨[.tempo, .configuration], .score, _, rfl, hconfigured, .score hfailure⟩
  rcases textOf_eq_ok_iff.mp hread with ⟨score, hscore, rfl⟩
  have hopened := List.forall_mem_append.mpr
    ⟨hconfigured, List.forall_mem_singleton.mpr (passes_score hscore)⟩
  rcases Outcome.bind_eq_error_iff.mp h with hfault | ⟨chords, hchords, h⟩
  · rcases chordTable_eq_error_iff.mp hfault with hfault | hfault
    · exact ⟨[.tempo, .configuration, .score], .chordFile, _, rfl, hopened, hfault⟩
    · have hfile : o.Passes files .chordFile := by
        cases hfault with
        | chordTable given contents _ => exact passes_chordFile given contents
      refine ⟨[.tempo, .configuration, .score, .chordFile], .chordTable, _, rfl, ?_, hfault⟩
      exact List.forall_mem_append.mpr ⟨hopened, List.forall_mem_singleton.mpr hfile⟩
  rcases Outcome.mapError_eq_error_iff.mp h with ⟨d, hd, rfl⟩
  exact firstFault_of_compile hvalid hconfiguration hscore (chordTable_eq_ok_iff.mp hchords) hd

theorem not_firstFault_of_planned {ticks : List Tick} (h : o.planned files = .ok ticks)
    (e : ProgramError) : ¬ o.FirstFault files e := by
  intro ⟨_, stage, _, _, _, hfault⟩
  exact (planned_eq_ok_iff.mp h).passes stage e hfault

theorem planned_eq_error_iff {e : ProgramError} :
    o.planned files = .error e <-> o.FirstFault files e := by
  constructor
  · exact firstFault_of_planned
  · intro h
    cases hplanned : o.planned files with
    | ok ticks => exact absurd h (not_firstFault_of_planned hplanned e)
    | error d => rw [(firstFault_of_planned hplanned).unique h]

end Options
end Plectrum

import Mathlib.Logic.Function.Basic
import Plectrum.Proofs.Files.Store
import Plectrum.Proofs.Program.Stages

/-!
# Delivery

A run plans before it acts.  It reads what its files hold and finds either a fault, or the
commands for them; up to there nothing has changed.  Only then are the commands written, so
it does not matter to them whether the output is one of the files that were read.
-/

namespace Plectrum

section

variable {state value result : Type}

def proceed (f : value -> ExceptT ProgramError (StateM state) result) :
    Except ProgramError value × state -> Except ProgramError result × state
  | (.ok a, s) => (f a).run.run s
  | (.error e, s) => (.error e, s)

theorem run_bind (x : ExceptT ProgramError (StateM state) value)
    (f : value -> ExceptT ProgramError (StateM state) result) (s : state) :
    (x >>= f).run.run s = proceed f (x.run.run s) := by
  rw [ExceptT.run_bind, StateT.run_bind]
  rcases x.run.run s with ⟨_ | _, next⟩
  · rfl
  · rfl

theorem run_liftM (x : StateM state value) (s : state) :
    (liftM x : ExceptT ProgramError (StateM state) value).run.run s =
      (.ok (x.run s).1, (x.run s).2) :=
  rfl

/-!
# Hosts that keep files
-/

/-- Whether a host reads files that are part of its state, and changes nothing by that. -/
structure Host.Keeps (host : Host (StateM state)) (files : state -> Files) : Prop where
  read : forall path s, (host.read path).run s = (files s path, s)
  tell : forall messages s, (host.tell messages).run s = ((), s)

namespace Host.Keeps

variable {host : Host (StateM state)} {files : state -> Files} (h : host.Keeps files)
include h

theorem readText (path : String) (s : state) :
    (host.readText path).run.run s = (Options.textOf (files s) path, s) := by
  rw [Host.readText, run_bind, run_liftM, h.read, Options.textOf]
  cases files s path with
  | ok text => rfl
  | error failure => rfl

theorem tellWanted (o : Options) (messages : Unit -> List Message) (s : state) :
    (host.tellWanted o messages).run.run s = (.ok (), s) := by
  unfold Host.tellWanted
  cases o.detail? with
  | none => rfl
  | some detail =>
      dsimp only
      rw [run_liftM, h.tell]

theorem readChords (o : Options) (s : state) :
    (host.readChords o).run.run s = (o.chordTable (files s), s) := by
  unfold Host.readChords Options.chordTable
  cases o.chords with
  | none => rfl
  | some path =>
      dsimp only
      rw [run_bind, h.readText]
      cases Options.textOf (files s) path with
      | error e => rfl
      | ok text =>
          rw [proceed, run_bind, h.tellWanted]
          dsimp only [proceed, bind, Except.bind]
          cases ChordTable.read text with
          | ok table => rfl
          | error e => rfl

theorem run (o : Options) (s : state) :
    (run host o).run.run s =
      proceed (fun ticks => host.deliver o (String.ofList (Tick.render ticks)))
        (o.planned (files s), s) := by
  unfold Plectrum.run Options.planned Options.validTempo
  cases Tempo.of? o.tempo o.divisions with
  | none => rfl
  | some tempo =>
      -- An error ends the run and the plan alike; otherwise both go on from what was read.
      dsimp only
      rw [run_bind, h.readText]
      cases Options.textOf (files s) o.configuration with
      | error e => rfl
      | ok configuration =>
          rw [proceed, run_bind, h.readText]
          cases Options.textOf (files s) o.score with
          | error e => rfl
          | ok score =>
              rw [proceed, run_bind, h.readChords]
              cases o.chordTable (files s) with
              | error e => rfl
              | ok chords =>
                  rw [proceed, run_bind, h.tellWanted]
                  dsimp only [proceed, bind, Except.bind, Options.manner]
                  cases compile configuration score chords ⟨tempo, o.brush⟩ with
                  | ok ticks => rfl
                  | error e => rfl

end Host.Keeps

/-!
# All or nothing
-/

inductive ProgramError.OfOutput : ProgramError -> Prop where
  | unwritable (failure : FileFailure) : OfOutput (.unwritable failure)

theorem Options.FirstFault.not_ofOutput {o : Options} {files : Files} {e : ProgramError}
    (h : o.FirstFault files e) : ¬ e.OfOutput := by
  rcases h with ⟨_, _, _, _, _, hfault⟩
  intro houtput
  cases houtput with
  | unwritable failure => cases hfault

structure Options.AllOrNothing (o : Options) (files : Files) (ending : Except ProgramError Unit)
    (Unchanged : Prop) (Saved : String -> Prop) : Prop where
  unchanged : forall e, ending = .error e -> ¬ e.OfOutput -> Unchanged
  fault : forall e, ¬ e.OfOutput -> (ending = .error e <-> o.FirstFault files e)
  saved : ending = .ok () ->
    exists ticks, o.ComesTo files ticks ∧ Saved (String.ofList (Tick.render ticks))
  refused : forall e, ending = .error e -> e.OfOutput -> exists ticks, o.ComesTo files ticks

namespace Options.AllOrNothing

variable {o : Options} {files : Files} {ticks : List Tick} {Unchanged : Prop}
  {Saved : String -> Prop}

theorem of_fault {e : ProgramError} (hfault : o.planned files = .error e)
    (hunchanged : Unchanged) : o.AllOrNothing files (.error e) Unchanged Saved where
  unchanged := fun _ _ _ => hunchanged
  fault := by
    intro d _
    rw [<- planned_eq_error_iff, hfault, Except.error.injEq, Except.error.injEq]
  saved := by
    intro hok
    cases hok
  refused := by
    intro d hd houtput
    cases hd
    exact absurd houtput (planned_eq_error_iff.mp hfault).not_ofOutput

theorem of_saved (hticks : o.planned files = .ok ticks)
    (hsaved : Saved (String.ofList (Tick.render ticks))) :
    o.AllOrNothing files (.ok ()) Unchanged Saved where
  unchanged := by
    intro e he
    cases he
  fault := by
    intro e _
    constructor
    · intro he
      cases he
    · exact fun hfault => absurd hfault (not_firstFault_of_planned hticks e)
  saved := fun _ => ⟨ticks, planned_eq_ok_iff.mp hticks, hsaved⟩
  refused := by
    intro e he
    cases he

theorem of_refusal (hticks : o.planned files = .ok ticks) (failure : FileFailure) :
    o.AllOrNothing files (.error (.unwritable failure)) Unchanged Saved where
  unchanged := by
    intro e he hother
    cases he
    exact absurd (.unwritable failure) hother
  fault := by
    intro e hother
    constructor
    · intro he
      cases he
      exact absurd (.unwritable failure) hother
    · exact fun hfault => absurd hfault (not_firstFault_of_planned hticks e)
  saved := by
    intro hok
    cases hok
  refused := fun _ _ _ => ⟨ticks, planned_eq_ok_iff.mp hticks⟩

end Options.AllOrNothing

theorem Host.deliver_cases {host : Host (StateM state)} {o : Options} {output text : String}
    (houtput : o.output = some output) {s next : state} {ending : Except ProgramError Unit}
    (h : (host.deliver o text).run.run s = (ending, next)) :
    ending = .ok () ∧ (host.write output text).run s = (.ok (), next) ∨
      exists failure, ending = .error (.unwritable failure) := by
  unfold Host.deliver at h
  rw [houtput] at h
  dsimp only at h
  rw [run_bind, run_liftM] at h
  rcases hwrite : (host.write output text).run s with ⟨failure | _, after⟩
  · rw [hwrite] at h
    cases h
    exact Or.inr ⟨failure, rfl⟩
  · rw [hwrite] at h
    cases h
    exact Or.inl ⟨rfl, rfl⟩

/-- A run on a host that keeps files is all or nothing; its only effect is that of a write. -/
theorem Host.Keeps.allOrNothing {host : Host (StateM state)} {files : state -> Files}
    (hhost : host.Keeps files) {o : Options} {output : String} (houtput : o.output = some output)
    (Saves : state -> String -> state -> Prop)
    (hwrite : forall s text next, (host.write output text).run s = (.ok (), next) ->
      Saves s text next)
    {s next : state} {ending : Except ProgramError Unit}
    (h : (Plectrum.run host o).run.run s = (ending, next)) :
    o.AllOrNothing (files s) ending (next = s) (fun text => Saves s text next) := by
  rw [hhost.run] at h
  cases hplanned : o.planned (files s) with
  | error e =>
      rw [hplanned] at h
      cases h
      exact .of_fault hplanned rfl
  | ok ticks =>
      rw [hplanned] at h
      rcases Host.deliver_cases houtput h with ⟨rfl, hsaved⟩ | ⟨failure, rfl⟩
      · exact .of_saved hplanned (hwrite s _ _ hsaved)
      · exact .of_refusal hplanned failure

end

/-!
# Files by their paths
-/

namespace Files

/-- A host whose system may refuse to write, and leave whatever it likes when it does. -/
def host (refuse : String -> String -> Files -> Option (FileFailure × Files)) :
    Host (StateM Files) where
  read := fun path => return (<- get) path
  write := fun path text => do
    let files <- get
    match refuse path text files with
    | some (failure, left) => do
        set left
        return .error failure
    | none => do
        set (Function.update files path (.ok text))
        return .ok ()
  print := fun _ => return .ok ()
  tell := fun _ => return

variable {refuse : String -> String -> Files -> Option (FileFailure × Files)}

theorem host_keeps : (host refuse).Keeps id where
  read := fun _ _ => rfl
  tell := fun _ _ => rfl

structure Saves (files next : Files) (path text : String) : Prop where
  saved : next path = .ok text
  others : forall other, other ≠ path -> next other = files other

theorem saves_of_write {files next : Files} {path text : String}
    (h : ((host refuse).write path text).run files = (.ok (), next)) :
    files.Saves next path text := by
  cases hrefuse : refuse path text files with
  | some refusal =>
      have hrun : ((host refuse).write path text).run files = (.error refusal.1, refusal.2) := by
        simp only [host, StateT.run_bind, StateT.run_get, hrefuse, pure_bind]
        rfl
      cases hrun.symm.trans h
  | none =>
      have hrun : ((host refuse).write path text).run files =
          (.ok (), Function.update files path (.ok text)) := by
        simp only [host, StateT.run_bind, StateT.run_get, hrefuse, pure_bind]
        rfl
      cases hrun.symm.trans h
      exact ⟨Function.update_self _ _ _, fun other hne => Function.update_of_ne hne _ _⟩

end Files

/-!
# Stored files
-/

namespace World

theorem host_keeps : host.Keeps (fun world => world.store.read) where
  read := fun _ _ => rfl
  tell := fun _ _ => rfl

/--
Whether worlds differ by a text that was written to a file.  Every path that names the file
then reads it.  Another path reads what it read before, but for one that led nowhere since
it went on through the file, which was not there.
-/
structure Saves (world next : World) (route : Route) (text : String) : Prop where
  printed : next.printed = world.printed
  saved : next.store.get? route = some (.text text)
  others : forall other, other ≠ route -> next.store.get? other = world.store.get? other
  readable : forall path, world.store.resolve path.toList = .name route ->
    next.store.read path = .ok text
  elsewhere : forall path, world.store.resolve path.toList ≠ .name route ->
    next.store.read path = world.store.read path ∨
      world.store.get? route = none ∧ world.store.read path = .error .noSuchFile ∧
        next.store.read path = .error .notDirectory

theorem saves_of_write {world next : World} {path text : String}
    (h : (host.write path text).run world = (.ok (), next)) :
    exists route, world.store.resolve path.toList = .name route ∧
      world.Saves next route text := by
  cases hwrite : world.store.write path text with
  | error failure =>
      have hrun : (host.write path text).run world = (.error failure, world) := by
        simp only [host, StateT.run_bind, StateT.run_get, hwrite, pure_bind]
        rfl
      cases hrun.symm.trans h
  | ok store =>
      have hrun : (host.write path text).run world = (.ok (), { world with store := store }) := by
        simp only [host, StateT.run_bind, StateT.run_get, hwrite, pure_bind]
        rfl
      cases hrun.symm.trans h
      rcases Store.saves_of_write hwrite with ⟨route, hroute, hsaves⟩
      exact ⟨route, hroute, rfl, hsaves.get?_self, fun _ => hsaves.get?_of_ne,
        fun _ => hsaves.read_of_resolve, fun _ => hsaves.read_of_resolve_ne⟩

end World

/--
A run with an output is all or nothing, with files known by their paths and with stored files
to which several paths may lead.
-/
theorem run_is_all_or_nothing {o : Options} {output : String} (houtput : o.output = some output) :
    (forall refuse (files next : Files) ending,
      (run (Files.host refuse) o).run.run files = (ending, next) ->
        o.AllOrNothing files ending (next = files) (files.Saves next output)) ∧
    forall (world next : World) ending, (run World.host o).run.run world = (ending, next) ->
      o.AllOrNothing world.store.read ending (next = world) (fun text =>
        exists route, world.store.resolve output.toList = .name route ∧
          world.Saves next route text) := by
  constructor
  · intro refuse files next ending h
    exact Files.host_keeps.allOrNothing houtput
      (fun files text next => files.Saves next output text)
      (fun _ _ _ => Files.saves_of_write) h
  · intro world next ending h
    exact World.host_keeps.allOrNothing houtput
      (fun world text next => exists route,
        world.store.resolve output.toList = .name route ∧ world.Saves next route text)
      (fun _ _ _ => World.saves_of_write) h

def studio : World where
  store :=
    { files :=
        [(["instrument".toList],
            .text "fret_latency 10\npress_latency 5\nrelease_latency 5\nmove_latency 1 2 20\n"),
          (["chords".toList], .text "E 11\n"), (["song".toList], .text "(E)1")] }

def overwriting : Options where
  verbosity := 0
  configuration := "instrument"
  score := "song"
  chords := some "chords"
  tempo := 60
  divisions := 1
  brush := none
  output := some "./song"

theorem commands_replace_their_score :
    (exists next ticks, (run World.host overwriting).run.run studio = (.ok (), next) ∧
      overwriting.ComesTo studio.store.read ticks ∧
        next.store.read "song" = .ok (String.ofList (Tick.render ticks)) ∧
        next.store.read "song" = .ok "0 06\n5 08\n") ∧
    (run World.host { overwriting with tempo := 0, chords := some "none" }).run.run studio =
      (.error (.tempo 0 1), studio) := by
  constructor
  · have hended : ((run World.host overwriting).run.run studio).1 = .ok () :=
      Outcome.toOption_eq_some_iff.mp (by decide +kernel)
    have h := (run_is_all_or_nothing (o := overwriting) rfl).right studio _ _ rfl
    rcases h.saved hended with ⟨ticks, hticks, route, hroute, hsaves⟩
    -- Both paths name the same file, so the score is what was written.
    have hsame : studio.store.resolve "song".toList = studio.store.resolve "./song".toList := by
      decide +kernel
    exact ⟨_, ticks, Prod.ext hended rfl, hticks, hsaves.readable "song" (hsame.trans hroute),
      Outcome.toOption_eq_some_iff.mp (by decide +kernel)⟩
  · -- There is no file of chords either, but that is found out later.
    have h := (run_is_all_or_nothing
      (o := { overwriting with tempo := 0, chords := some "none" }) rfl).right studio _ _ rfl
    have hfirst : Options.FirstFault { overwriting with tempo := 0, chords := some "none" }
        studio.store.read (.tempo 0 1) :=
      ⟨[], .tempo, _, rfl, List.forall_mem_nil _, .tempo (Or.inl rfl)⟩
    have hended := (h.fault _ hfirst.not_ofOutput).mpr hfirst
    exact Prod.ext hended (h.unchanged _ hended hfirst.not_ofOutput)

end Plectrum

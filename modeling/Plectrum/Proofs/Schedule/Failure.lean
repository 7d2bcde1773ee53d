import Plectrum.Proofs.Schedule.Feasibility

/-!
# Why a score cannot be scheduled

A string fails at the first of its notes with a fault.  The instant of the attack is
looked at first, then the travel, and then the actions for the attack in the order in
which the string is told them.  A score fails at the first of its strings that does,
and then only with a time that is not representable.
-/

namespace Plectrum

theorem checked_eq_error_iff {error e : ScheduleError} {time : Int} :
    checked error time = .error e <-> ¬ Representable time ∧ e = error := by
  unfold checked
  split
  · rename_i h
    constructor
    · intro heq
      cases heq
    · intro heq
      exact absurd h heq.left
  · rename_i h
    constructor
    · intro heq
      injection heq with he
      exact ⟨h, he.symm⟩
    · intro heq
      rw [heq.right]

theorem Latencies.travel_eq_error_iff {l : Latencies} {source target : Position}
    {u : UnknownTravel} :
    l.travel source target = .error u <->
      (l.travel? source target).isSome = false ∧ u = ⟨source, target⟩ := by
  unfold travel
  cases l.travel? source target with
  | none => simp [eq_comm]
  | some t => simp

namespace Finger

theorem preparation_eq_error_iff {f : Finger} {l : Latencies} {target : Position}
    {u : UnknownTravel} :
    f.preparation l target = .error u <->
      ¬ f.Reaches l target ∧ u = ⟨f.position, target⟩ := by
  unfold preparation Reaches
  by_cases hopen : target = Position.openString
  · simp [hopen]
  · by_cases hsame : target = f.position
    · rw [if_neg hopen, if_pos hsame]
      simp [hsame]
    · rw [if_neg hopen, if_neg hsame, Outcome.map_eq_error_iff,
        Latencies.travel_eq_error_iff]
      simp [hopen, hsame]

theorem play_eq_error_iff {f : Finger} {l : Latencies} {target : Position}
    {u : UnknownTravel} :
    f.play l target = .error u <-> ¬ f.Reaches l target ∧ u = ⟨f.position, target⟩ :=
  Outcome.map_eq_error_iff.trans preparation_eq_error_iff

end Finger

namespace Performance

/-!
# Faults of one note
-/

inductive ActionFault (l : Latencies) (s : StringId) (n : Note) (lastAttack : Option Int)
    (time : Int) : ScheduleError -> Prop where
  | timeOverflow :
      ¬ Representable time -> ActionFault l s n lastAttack time (.timeOverflow s n.start)
  | busyOverflow {last : Int} :
      Representable time -> lastAttack = some last ->
        ¬ Representable (last + l.settle.ms) ->
        ActionFault l s n lastAttack time (.timeOverflow s n.start)
  | tooEarly {last : Int} :
      Representable time -> lastAttack = some last ->
        Representable (last + l.settle.ms) -> time < last + l.settle.ms ->
        ActionFault l s n lastAttack time
          (.tooEarly s n.start time (last + l.settle.ms))

/-- What is first found wrong with a note, given the finger and the last attack. -/
inductive NoteFault (l : Latencies) (unit : Nat) (s : StringId) (f : Finger)
    (lastAttack : Option Int) (n : Note) : ScheduleError -> Prop where
  | attack :
      ¬ Representable (n.instant unit) ->
        NoteFault l unit s f lastAttack n (.timeOverflow s n.start)
  | travel :
      Representable (n.instant unit) -> ¬ f.Reaches l n.position ->
        NoteFault l unit s f lastAttack n
          (.unknownTravel s n.start ⟨f.position, n.position⟩)
  | action {next : Finger} {earlier later : List Action} {a : Action}
      {e : ScheduleError} :
      Representable (n.instant unit) ->
        f.play l n.position = .ok (earlier ++ a :: later, next) ->
        (forall b, b ∈ earlier -> Timely l lastAttack (n.instant unit + b.offset)) ->
        ActionFault l s n lastAttack (n.instant unit + a.offset) e ->
        NoteFault l unit s f lastAttack n e

theorem instant_eq_error_iff {l : Latencies} {s : StringId} {n : Note}
    {lastAttack : Option Int} {attack : Int} {a : Action} {e : ScheduleError} :
    instant l s n lastAttack attack a = .error e <->
      ActionFault l s n lastAttack (attack + a.offset) e := by
  unfold instant
  rw [Outcome.bind_eq_error_iff]
  constructor
  · intro h
    rcases h with htime | ⟨time, htime, h⟩
    · rcases checked_eq_error_iff.mp htime with ⟨hrep, rfl⟩
      exact ActionFault.timeOverflow hrep
    · rcases checked_eq_ok_iff.mp htime with ⟨hrep, rfl⟩
      cases lastAttack with
      | none => cases h
      | some last =>
          rcases Outcome.bind_eq_error_iff.mp h with hbusy | ⟨busy, hbusy, hearly⟩
          · rcases checked_eq_error_iff.mp hbusy with ⟨hbusyRep, rfl⟩
            exact ActionFault.busyOverflow hrep rfl hbusyRep
          · rcases checked_eq_ok_iff.mp hbusy with ⟨hbusyRep, rfl⟩
            split at hearly
            · rename_i hlt
              injection hearly with hearly
              rw [<- hearly]
              exact ActionFault.tooEarly hrep rfl hbusyRep hlt
            · cases hearly
  · intro h
    cases h with
    | timeOverflow hrep => exact Or.inl (checked_eq_error_iff.mpr ⟨hrep, rfl⟩)
    | busyOverflow hrep hlast hbusyRep =>
        subst hlast
        refine Or.inr ⟨_, checked_eq_ok_iff.mpr ⟨hrep, rfl⟩, ?_⟩
        exact Outcome.bind_eq_error_iff.mpr
          (Or.inl (checked_eq_error_iff.mpr ⟨hbusyRep, rfl⟩))
    | tooEarly hrep hlast hbusyRep hlt =>
        subst hlast
        refine Or.inr ⟨_, checked_eq_ok_iff.mpr ⟨hrep, rfl⟩, ?_⟩
        refine Outcome.bind_eq_error_iff.mpr
          (Or.inr ⟨_, checked_eq_ok_iff.mpr ⟨hbusyRep, rfl⟩, ?_⟩)
        rw [if_pos hlt]
        rfl

theorem cue_eq_error_iff {l : Latencies} {s : StringId} {n : Note}
    {lastAttack : Option Int} {attack : Int} {told : List Cue} {a : Action}
    {e : ScheduleError} :
    (exists halt, cue l s n lastAttack attack told a = .error halt ∧ halt.error = e) <->
      ActionFault l s n lastAttack (attack + a.offset) e := by
  rw [<- instant_eq_error_iff]
  unfold cue
  cases instant l s n lastAttack attack a with
  | ok time => simp
  | error d => simp

theorem foldlM_cue_eq_error_iff {l : Latencies} {s : StringId} {n : Note}
    {lastAttack : Option Int} {attack : Int} {actions : List Action} {cues : List Cue}
    {e : ScheduleError} :
    (exists halt, actions.foldlM (cue l s n lastAttack attack) cues = .error halt ∧
        halt.error = e) <->
      exists earlier a later, actions = earlier ++ a :: later ∧
        (forall b, b ∈ earlier -> Timely l lastAttack (attack + b.offset)) ∧
        ActionFault l s n lastAttack (attack + a.offset) e := by
  constructor
  · intro ⟨halt, hhalt, he⟩
    rcases (Outcome.foldlM_eq_error_iff actions).mp hhalt with
      ⟨earlier, a, later, told, hactions, htold, ha⟩
    exact ⟨earlier, a, later, hactions, ((foldlM_cue_eq_ok_iff earlier).mp htold).left,
      cue_eq_error_iff.mp ⟨halt, ha, he⟩⟩
  · intro ⟨earlier, a, later, hactions, htimely, ha⟩
    have htold := (foldlM_cue_eq_ok_iff (s := s) (n := n) earlier).mpr
      ⟨htimely, (rfl : _ = (earlier.map (Cue.ofAction attack)).reverse ++ cues)⟩
    rcases cue_eq_error_iff.mpr ha with ⟨halt, hhalt, he⟩
    exact ⟨halt, (Outcome.foldlM_eq_error_iff actions).mpr
      ⟨earlier, a, later, _, hactions, htold, hhalt⟩, he⟩

theorem plan_eq_error_iff {l : Latencies} {unit : Nat} {s : StringId} {f : Finger}
    {n : Note} {e : ScheduleError} :
    plan l unit s f n = .error e <->
      (¬ Representable (n.instant unit) ∧ e = .timeOverflow s n.start) ∨
        (Representable (n.instant unit) ∧ ¬ f.Reaches l n.position ∧
          e = .unknownTravel s n.start ⟨f.position, n.position⟩) := by
  unfold plan
  rw [Outcome.bind_eq_error_iff]
  constructor
  · intro h
    rcases h with hattack | ⟨attack, hattack, h⟩
    · exact Or.inl (checked_eq_error_iff.mp hattack)
    · rcases Outcome.bind_eq_error_iff.mp h with htravel | ⟨played, _, hreturn⟩
      · rcases Outcome.mapError_eq_error_iff.mp htravel with ⟨u, hu, rfl⟩
        rcases Finger.play_eq_error_iff.mp hu with ⟨hreaches, rfl⟩
        exact Or.inr ⟨(checked_eq_ok_iff.mp hattack).left, hreaches, rfl⟩
      · cases hreturn
  · intro h
    rcases h with hattack | ⟨hrep, hreaches, rfl⟩
    · exact Or.inl (checked_eq_error_iff.mpr hattack)
    · refine Or.inr ⟨_, checked_eq_ok_iff.mpr ⟨hrep, rfl⟩, ?_⟩
      exact Outcome.bind_eq_error_iff.mpr (Or.inl (Outcome.mapError_eq_error_iff.mpr
        ⟨_, Finger.play_eq_error_iff.mpr ⟨hreaches, rfl⟩, rfl⟩))

theorem play_eq_error_iff {l : Latencies} {unit : Nat} {s : StringId} {p : Performance}
    {n : Note} {e : ScheduleError} :
    (exists halt, play l unit s p n = .error halt ∧ halt.error = e) <->
      NoteFault l unit s p.finger p.lastAttack n e := by
  unfold play
  constructor
  · intro ⟨halt, hhalt, he⟩
    split at hhalt
    · rename_i d hplan
      injection hhalt with hhalt
      rw [<- hhalt] at he
      change d = e at he
      subst he
      rcases plan_eq_error_iff.mp hplan with ⟨hattack, rfl⟩ | ⟨hattack, hreaches, rfl⟩
      · exact NoteFault.attack hattack
      · exact NoteFault.travel hattack hreaches
    · rename_i attack actions finger hplan
      rcases plan_eq_ok_iff.mp hplan with ⟨hattack, rfl, hplay⟩
      have hcues := Outcome.map_eq_error_iff.mp hhalt
      rcases foldlM_cue_eq_error_iff.mp ⟨halt, hcues, he⟩ with
        ⟨earlier, a, later, rfl, htimely, ha⟩
      exact NoteFault.action hattack hplay htimely ha
  · intro h
    cases h with
    | attack hattack =>
        rw [plan_eq_error_iff.mpr (Or.inl ⟨hattack, rfl⟩)]
        exact ⟨_, rfl, rfl⟩
    | travel hattack hreaches =>
        rw [plan_eq_error_iff.mpr (Or.inr ⟨hattack, hreaches, rfl⟩)]
        exact ⟨_, rfl, rfl⟩
    | action hattack hplay htimely ha =>
        rw [plan_eq_ok_iff.mpr ⟨hattack, rfl, hplay⟩]
        rcases foldlM_cue_eq_error_iff.mpr ⟨_, _, _, rfl, htimely, ha⟩ with
          ⟨halt, hhalt, he⟩
        exact ⟨halt, Outcome.map_eq_error_iff.mpr hhalt, he⟩

theorem NoteFault.ne_shiftOverflow {l : Latencies} {unit : Nat} {s : StringId}
    {f : Finger} {lastAttack : Option Int} {n : Note} {e : ScheduleError}
    (h : NoteFault l unit s f lastAttack n e) (instant origin : Int) :
    e ≠ .shiftOverflow instant origin := by
  intro he
  subst he
  cases h with
  | action _ _ _ ha => cases ha

/-!
# The first note with a fault
-/

def FirstFault (l : Latencies) (unit : Nat) (s : StringId) (notes : List Note)
    (e : ScheduleError) : Prop :=
  exists earlier n later, notes = earlier ++ n :: later ∧
    AllPlayable l unit {} none earlier ∧
    NoteFault l unit s (Finger.leftBy earlier) (Note.lastInstant unit earlier) n e

theorem state_foldl_next (l : Latencies) (unit : Nat) (notes : List Note) :
    (notes.foldl (next l unit) {}).finger = Finger.leftBy notes ∧
      (notes.foldl (next l unit) {}).lastAttack = Note.lastInstant unit notes := by
  induction notes using List.reverseRecOn with
  | nil => exact ⟨rfl, rfl⟩
  | append_singleton earlier n ih =>
      rw [List.foldl_append, Finger.leftBy_append, Note.lastInstant_append, <- ih.left]
      exact ⟨rfl, rfl⟩

theorem perform_eq_error_iff {l : Latencies} {unit : Nat} {s : StringId}
    {notes : List Note} {e : ScheduleError} :
    (exists halt, perform l unit s notes = .error halt ∧ halt.error = e) <->
      FirstFault l unit s notes e := by
  unfold perform playAll
  simp only [Outcome.map_eq_error_iff, Outcome.foldlM_eq_error_iff]
  constructor
  · intro ⟨halt, ⟨earlier, n, later, p, hnotes, hp, hn⟩, he⟩
    rcases (playAll_eq_ok_iff earlier).mp hp with ⟨hall, rfl⟩
    have hfault := play_eq_error_iff.mp ⟨halt, hn, he⟩
    rw [(state_foldl_next l unit earlier).left,
      (state_foldl_next l unit earlier).right] at hfault
    exact ⟨earlier, n, later, hnotes, hall, hfault⟩
  · intro ⟨earlier, n, later, hnotes, hall, hfault⟩
    rw [<- (state_foldl_next l unit earlier).left,
      <- (state_foldl_next l unit earlier).right] at hfault
    rcases play_eq_error_iff.mpr hfault with ⟨halt, hhalt, he⟩
    exact ⟨halt, ⟨earlier, n, later, _, hnotes,
      (playAll_eq_ok_iff earlier).mpr ⟨hall, rfl⟩, hhalt⟩, he⟩

end Performance

/-!
# The first string with a fault
-/

theorem StringId.pairwise_all : all.Pairwise (fun s r => s.number < r.number) := by
  apply List.pairwise_map.mpr
  apply List.Pairwise.imp _ (List.pairwise_lt_finRange stringCount)
  intro i j hlt
  exact Nat.succ_lt_succ hlt

namespace Score

theorem pairwise_strings (score : Score) :
    score.strings.Pairwise (fun s r => s.number < r.number) :=
  StringId.pairwise_all.filter _

theorem mem_front_of_number_lt {score : Score} {front back : List StringId} {s r : StringId}
    (hstrings : score.strings = front ++ s :: back) (hr : r ∈ score.strings)
    (hlt : r.number < s.number) : r ∈ front := by
  have hascending := score.pairwise_strings
  rw [hstrings] at hr hascending
  have hback := (List.pairwise_cons.mp (List.pairwise_append.mp hascending).right.left).left
  rcases List.mem_append.mp hr with hr | hr
  · exact hr
  · rcases List.mem_cons.mp hr with rfl | hr
    · exact absurd hlt (Nat.lt_irrefl _)
    · exact absurd hlt (Nat.lt_asymm (hback r hr))

theorem addString_eq_error_iff {score : Score} {l : Latencies} {unit : Nat}
    {agenda : Agenda} {s : StringId} {e : ScheduleError} :
    score.addString l unit agenda s = .error e <->
      Performance.FirstFault l unit s (score.timeline s).notes e := by
  unfold addString cues
  rw [Outcome.map_eq_error_iff, Outcome.mapError_eq_error_iff]
  exact Performance.perform_eq_error_iff

theorem stringAgenda_eq_error_iff {score : Score} {l : Latencies} {unit : Nat}
    {e : ScheduleError} :
    score.stringAgenda l unit = .error e <->
      exists front s back, score.strings = front ++ s :: back ∧
        (forall r, r ∈ front ->
          Performance.AllPlayable l unit {} none (score.timeline r).notes) ∧
        Performance.FirstFault l unit s (score.timeline s).notes e := by
  unfold stringAgenda
  rw [Outcome.foldlM_eq_error_iff]
  constructor
  · intro ⟨front, s, back, agenda, hstrings, hagenda, hs⟩
    exact ⟨front, s, back, hstrings, ((foldlM_addString_eq_ok_iff front).mp hagenda).left,
      addString_eq_error_iff.mp hs⟩
  · intro ⟨front, s, back, hstrings, hall, hs⟩
    exact ⟨front, s, back, _, hstrings,
      (foldlM_addString_eq_ok_iff front).mpr ⟨hall, rfl⟩, addString_eq_error_iff.mpr hs⟩

end Score

/-!
# Errors of a score
-/

namespace Tick

theorem shift_eq_error_iff {origin : Int} {t : Tick} {e : ScheduleError} :
    shift origin t = .error e <->
      ¬ Representable (t.time - origin) ∧ e = .shiftOverflow t.time origin :=
  Outcome.map_eq_error_iff.trans checked_eq_error_iff

theorem shiftAll_eq_error_iff {ticks : List Tick} {e : ScheduleError} :
    shiftAll ticks = .error e <->
      exists front t back, ticks = front ++ t :: back ∧
        (forall u, u ∈ front -> Representable (u.time - origin ticks)) ∧
        ¬ Representable (t.time - origin ticks) ∧
        e = .shiftOverflow t.time (origin ticks) := by
  rw [shiftAll_eq_mapM, Outcome.mapM_eq_error_iff]
  simp only [shift_eq_error_iff, shift_eq_ok_iff, exists_and_left, exists_eq, and_true]

end Tick

namespace Score

theorem schedule_error_cases {score : Score} {l : Latencies} {tempo : Tempo}
    {policy : BrushPolicy} {e : ScheduleError}
    (h : score.schedule l tempo policy = .error e) :
    score.stringAgenda l tempo.unit = .error e ∨
      score.Playable l tempo.unit ∧
        ((exists b, b ∈ score.brushes ∧ e = .timeOverflow b.first b.start) ∨
          exists instant origin, e = .shiftOverflow instant origin) := by
  rcases Outcome.bind_eq_error_iff.mp h with hagenda | ⟨agenda, hagenda, hshift⟩
  · rcases Outcome.bind_eq_error_iff.mp hagenda with hstrings | ⟨strings, hstrings, hbrushes⟩
    · exact Or.inl hstrings
    · refine Or.inr ⟨(stringAgenda_eq_ok_iff.mp hstrings).left, Or.inl ?_⟩
      rcases (Outcome.foldlM_eq_error_iff _).mp hbrushes with
        ⟨front, b, back, _, hsplit, _, hb⟩
      refine ⟨b, ?_, (checked_eq_error_iff.mp (Outcome.map_eq_error_iff.mp hb)).right⟩
      rw [hsplit]
      exact List.mem_append_right front List.mem_cons_self
  · refine Or.inr ⟨(agenda_eq_ok_iff.mp hagenda).left, Or.inr ?_⟩
    rcases Tick.shiftAll_eq_error_iff.mp hshift with ⟨_, t, _, _, _, _, he⟩
    exact ⟨_, _, he⟩

end Score
end Plectrum

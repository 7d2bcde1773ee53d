import Plectrum.Proofs.Ascending
import Plectrum.Schedule.Agenda

/-!
# Calls and ticks

A call is a command at an instant.  An agenda that is filled with calls has one tick
for each instant at which something is called for, and its commands are those calls
in their order.
-/

namespace Plectrum

structure Call where
  time : Int
  command : Command
  deriving DecidableEq

namespace Call

def commandsAt (calls : List Call) (time : Int) : List Command :=
  (calls.filter (fun c => c.time == time)).map Call.command

@[simp] theorem commandsAt_nil (time : Int) : commandsAt [] time = [] := rfl

theorem commandsAt_cons (c : Call) (rest : List Call) (time : Int) :
    commandsAt (c :: rest) time =
      if c.time = time then c.command :: commandsAt rest time
      else commandsAt rest time := by
  unfold commandsAt
  by_cases h : c.time = time
  · simp [h]
  · simp [h]

theorem commandsAt_append (front back : List Call) (time : Int) :
    commandsAt (front ++ back) time = commandsAt front time ++ commandsAt back time := by
  simp [commandsAt]

theorem mem_commandsAt {calls : List Call} {time : Int} {command : Command} :
    command ∈ commandsAt calls time <-> ⟨time, command⟩ ∈ calls := by
  unfold commandsAt
  rw [List.mem_map]
  constructor
  · intro ⟨c, hc, hcommand⟩
    rw [List.mem_filter, beq_iff_eq] at hc
    rw [<- hc.right, <- hcommand]
    exact hc.left
  · intro h
    exact ⟨⟨time, command⟩, List.mem_filter.mpr ⟨h, beq_self_eq_true time⟩, rfl⟩

end Call

namespace Agenda

theorem getElem?_add (agenda : Agenda) (time k : Int) (c : Command) :
    (agenda.add time c)[k]? =
      if time = k then some (agenda[time]?.getD [] ++ [c]) else agenda[k]? := by
  unfold add
  rw [Std.TreeMap.getElem?_alter]
  simp only [Std.LawfulEqCmp.compare_eq_iff_eq]

theorem getElem?_insert (agenda : Agenda) (time k : Int) (commands : List Command) :
    (agenda.insert time commands)[k]? =
      if time = k then some commands else agenda[k]? := by
  rw [Std.TreeMap.getElem?_insert]
  simp only [Std.LawfulEqCmp.compare_eq_iff_eq]

def addCalls (agenda : Agenda) (calls : List Call) : Agenda :=
  calls.foldl (fun agenda c => agenda.add c.time c.command) agenda

theorem addCalls_append (agenda : Agenda) (front back : List Call) :
    agenda.addCalls (front ++ back) = (agenda.addCalls front).addCalls back := by
  simp [addCalls]

theorem addCalls_flatMap {source : Type} (agenda : Agenda) (calls : source -> List Call)
    (sources : List source) :
    agenda.addCalls (sources.flatMap calls) =
      sources.foldl (fun agenda x => agenda.addCalls (calls x)) agenda :=
  List.foldl_flatMap

theorem getElem?_addCalls (calls : List Call) (time : Int) :
    forall agenda : Agenda,
      (agenda.addCalls calls)[time]? =
        if Call.commandsAt calls time = [] then agenda[time]?
        else some (agenda[time]?.getD [] ++ Call.commandsAt calls time) := by
  induction calls with
  | nil =>
      intro agenda
      rfl
  | cons c rest ih =>
      intro agenda
      show ((agenda.add c.time c.command).addCalls rest)[time]? = _
      rw [ih, getElem?_add, Call.commandsAt_cons]
      by_cases htime : c.time = time
      · subst htime
        by_cases hrest : Call.commandsAt rest c.time = []
        · simp [hrest]
        · simp [hrest]
      · simp [htime]

/-!
# Ticks
-/

theorem mem_ticks {agenda : Agenda} {t : Tick} :
    t ∈ agenda.ticks <-> agenda[t.time]? = some t.commands := by
  unfold ticks
  rw [<- Std.TreeMap.mem_toList_iff_getElem?_eq_some, List.mem_map]
  constructor
  · intro ⟨entry, hentry, ht⟩
    rw [<- ht]
    exact hentry
  · intro h
    exact ⟨(t.time, t.commands), h, rfl⟩

theorem ascending_ticks (agenda : Agenda) : Ascending Tick.time agenda.ticks := by
  apply List.pairwise_map.mpr
  apply List.Pairwise.imp _ Std.TreeMap.ordered_keys_toList
  intro a b h
  exact Int.compare_eq_lt.mp h

theorem ticks_eq_of_mem_iff {agenda : Agenda} {ticks : List Tick}
    (hticks : Ascending Tick.time ticks)
    (h : forall t, t ∈ ticks <-> agenda[t.time]? = some t.commands) :
    agenda.ticks = ticks := by
  apply (ascending_ticks agenda).eq_of_mem_iff hticks
  intro t
  rw [mem_ticks, h]

theorem mem_ticks_addCalls {calls : List Call} {t : Tick} :
    t ∈ (addCalls {} calls).ticks <->
      t.commands = Call.commandsAt calls t.time ∧ t.commands ≠ [] := by
  rw [mem_ticks, getElem?_addCalls]
  have hempty : (({} : Agenda))[t.time]? = none := Std.TreeMap.getElem?_emptyc
  rw [hempty]
  by_cases hnone : Call.commandsAt calls t.time = []
  · rw [if_pos hnone, hnone]
    constructor
    · intro h
      cases h
    · intro h
      exact absurd h.left h.right
  · rw [if_neg hnone]
    constructor
    · intro h
      injection h with h
      rw [<- h]
      exact ⟨rfl, hnone⟩
    · intro h
      rw [h.left]
      rfl

end Agenda
end Plectrum

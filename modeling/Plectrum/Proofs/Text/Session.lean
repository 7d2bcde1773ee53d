import Plectrum.Proofs.Machine.Order
import Plectrum.Proofs.Score.Grammar
import Plectrum.Text.Session

/-!
# Steps of a session

Every step but the return to a saved place passes a part of what lies ahead, and what it
tells depends on that part only.  So the cursor goes forward until the session returns, and
then all is as it was when the place was saved.
-/

namespace Plectrum
namespace Text

namespace Cursor

structure StandsIn (c : Cursor) (text : List Char) : Prop where
  boundary : Boundary text c.offset
  current : forall front back, text = front ++ back -> c.offset = byteSize front ->
    c.current? = back.head?
  at_end : c.current? = none <-> c.offset = byteSize text

theorem offset_eq_byteSize (c : Cursor) : c.offset = byteSize c.behind.reverse := by
  rw [byteSize_reverse, c.offset_eq]

theorem standsIn_text (c : Cursor) : c.StandsIn c.text where
  boundary := ⟨c.behind.reverse, c.ahead, rfl, c.offset_eq_byteSize⟩
  current := by
    intro front back htext hoffset
    rw [c.offset_eq_byteSize] at hoffset
    have hbehind := prefix_of_byteSize_le (List.prefix_append c.behind.reverse c.ahead)
      ⟨back, htext.symm⟩ (Nat.le_of_eq hoffset)
    have hfront := prefix_of_byteSize_le ⟨back, htext.symm⟩
      (List.prefix_append c.behind.reverse c.ahead) (Nat.le_of_eq hoffset.symm)
    have hsame : c.behind.reverse = front :=
      hbehind.eq_of_length_le hfront.length_le
    rw [text, hsame] at htext
    rw [current?, List.append_cancel_left htext]
  at_end := by
    rw [current?, List.head?_eq_none_iff, text, byteSize_append, <- c.offset_eq_byteSize]
    constructor
    · intro h
      rw [h]
      rfl
    · intro h
      by_contra hne
      have hpos := byteSize_pos hne
      omega

theorem eat?_eq_none_iff {c : Cursor} {expected : Char} :
    c.eat? expected = none <-> c.ahead.head? ≠ some expected := by
  rw [Option.eq_none_iff_forall_ne_some]
  constructor
  · intro h hhead
    rcases List.head?_eq_some_iff.mp hhead with ⟨rest, hahead⟩
    exact h _ (eat?_eq_some_iff.mpr ⟨rest, hahead, rfl⟩)
  · intro h d hd
    rcases eat?_eq_some_iff.mp hd with ⟨rest, hahead, _⟩
    exact h (by rw [hahead, List.head?_cons])

theorem skipPast_eq_none {c d : Cursor} {target : Char} (h : c.skipPast target = (none, d)) :
    d = c.pass c.ahead [] := by
  have hnone := not_mem_of_skipPast h
  have htake : c.takeWhile (fun a => a != target) = (c.ahead, c.pass c.ahead []) := by
    apply takeWhile_of_append (List.append_nil c.ahead).symm
    · intro a ha
      exact bne_iff_ne.mpr (fun heq => hnone (heq ▸ ha))
    · intro a ha
      cases ha
  unfold skipPast at h
  rw [htake] at h
  injection h with _ hd
  exact hd.symm

end Cursor

/-!
# Single steps
-/

/--
What a step may tell at an offset, by the part of the text that it passes and the part that
is still ahead then.
-/
inductive Step.Tells (offset : Nat) : Step -> Report -> List Char -> List Char -> Prop where
  | next (a : Char) (rest : List Char) : Tells offset .next (.read (some (offset, a))) [a] rest
  | nothingNext : Tells offset .next (.read none) [] []
  | current (rest : List Char) : Tells offset .current (.seen rest.head?) [] rest
  | eaten (expected : Char) (rest : List Char) :
      Tells offset (.eat expected) (.eaten true) [expected] rest
  | notEaten {expected : Char} {rest : List Char} (other : rest.head? ≠ some expected) :
      Tells offset (.eat expected) (.eaten false) [] rest
  | found {target : Char} {front : List Char} (rest : List Char) (first : target ∉ front) :
      Tells offset (.skipPast target) (.found (some (offset + byteSize front)))
        (front ++ [target]) rest
  | notFound {target : Char} {run : List Char} (none : target ∉ run) :
      Tells offset (.skipPast target) (.found .none) run []
  | taken {p : Char -> Bool} {run rest : List Char} (all : forall a, a ∈ run -> p a = true)
      (longest : forall a, rest.head? = some a -> p a = false) :
      Tells offset (.takeWhile p) (.taken run) run rest
  | save (rest : List Char) : Tells offset .save .silent [] rest

namespace Session

def after (s : Session) (steps : List Step) : Session :=
  (s.run steps).2

def reached (text : List Char) (steps : List Step) : Session :=
  (start text).after steps

theorem after_cons (s : Session) (step : Step) (rest : List Step) :
    s.after (step :: rest) = (s.step step).2.after rest := rfl

theorem after_append (s : Session) (front back : List Step) :
    s.after (front ++ back) = (s.after front).after back := by
  rw [after, run_append]
  rfl

theorem reached_append (text : List Char) (front back : List Step) :
    reached text (front ++ back) = (reached text front).after back :=
  after_append (start text) front back

theorem length_run (steps : List Step) :
    forall s : Session, (s.run steps).1.length = steps.length := by
  induction steps with
  | nil => exact fun _ => rfl
  | cons step rest ih =>
      intro s
      exact congrArg (· + 1) (ih (s.step step).2)

theorem getElem?_run (s : Session) (front : List Step) (step : Step) (back : List Step) :
    (s.run (front ++ step :: back)).1[front.length]? = some ((s.after front).step step) := by
  have hlength := length_run front s
  rw [run_append, List.getElem?_append_right (Nat.le_of_eq hlength), hlength, Nat.sub_self]
  rfl

theorem step_next (s : Session) :
    s.step .next =
      match s.cursor.next? with
      | some (a, past) => (.read (some (s.cursor.offset, a)), { s with cursor := past })
      | none => (.read none, s) := rfl

theorem step_eat (s : Session) (expected : Char) :
    s.step (.eat expected) =
      match s.cursor.eat? expected with
      | some past => (.eaten true, { s with cursor := past })
      | none => (.eaten false, s) := rfl

theorem step_skipPast (s : Session) (target : Char) :
    s.step (.skipPast target) =
      (.found (s.cursor.skipPast target).1,
        { s with cursor := (s.cursor.skipPast target).2 }) := rfl

theorem step_takeWhile (s : Session) (p : Char -> Bool) :
    s.step (.takeWhile p) =
      (.taken (s.cursor.takeWhile p).1, { s with cursor := (s.cursor.takeWhile p).2 }) := rfl

theorem exists_tells (s : Session) {step : Step} (h : step ≠ .restore) :
    exists run rest, s.cursor.ahead = run ++ rest ∧
      (s.step step).2.cursor = s.cursor.pass run rest ∧
      step.Tells s.cursor.offset (s.step step).1 run rest := by
  have hstay : s.cursor = s.cursor.pass [] s.cursor.ahead := rfl
  cases step with
  | next =>
      rw [step_next]
      cases hnext : s.cursor.next? with
      | none =>
          have hahead := Cursor.next?_eq_none_iff.mp hnext
          exact ⟨[], [], hahead, hstay.trans (congrArg _ hahead), .nothingNext⟩
      | some found =>
          cases found with
          | mk a past =>
              rcases Cursor.next?_eq_some_iff.mp hnext with ⟨rest, hahead, hpast⟩
              exact ⟨[a], rest, hahead, hpast, .next a rest⟩
  | current => exact ⟨[], s.cursor.ahead, rfl, hstay, .current _⟩
  | eat expected =>
      rw [step_eat]
      cases heat : s.cursor.eat? expected with
      | none =>
          have hother := Cursor.eat?_eq_none_iff.mp heat
          exact ⟨[], s.cursor.ahead, rfl, hstay, .notEaten hother⟩
      | some past =>
          rcases Cursor.eat?_eq_some_iff.mp heat with ⟨rest, hahead, hpast⟩
          exact ⟨[expected], rest, hahead, hpast, .eaten expected rest⟩
  | skipPast target =>
      rw [step_skipPast]
      cases hskip : s.cursor.skipPast target with
      | mk found past =>
          cases found with
          | none =>
              have hnone := Cursor.not_mem_of_skipPast hskip
              exact ⟨s.cursor.ahead, [], (List.append_nil _).symm,
                Cursor.skipPast_eq_none hskip, .notFound hnone⟩
          | some offset =>
              rcases Cursor.skipPast_eq_some hskip with ⟨front, rest, hahead, hfirst, rfl, rfl⟩
              refine ⟨front ++ [target], rest, ?_, ?_, .found rest hfirst⟩
              · rw [hahead, List.append_assoc]
                rfl
              · exact Cursor.pass_pass s.cursor front (target :: rest) [target] rest
  | takeWhile p =>
      rw [step_takeWhile]
      rcases Cursor.takeWhile_cases p s.cursor with ⟨run, rest, hahead, hall, hlongest, htake⟩
      rw [htake]
      exact ⟨run, rest, hahead, rfl, .taken hall hlongest⟩
  | save => exact ⟨[], s.cursor.ahead, rfl, hstay, .save _⟩
  | restore => exact absurd rfl h

theorem saved_step (s : Session) {step : Step} (h : step ≠ .save) :
    (s.step step).2.saved = s.saved := by
  cases step with
  | next =>
      rw [step_next]
      cases s.cursor.next? with
      | none => rfl
      | some found => rfl
  | eat expected =>
      rw [step_eat]
      cases s.cursor.eat? expected with
      | none => rfl
      | some past => rfl
  | save => exact absurd rfl h
  | _ => rfl

/-!
# Runs
-/

structure Within (s : Session) (text : List Char) : Prop where
  cursor : s.cursor.text = text
  saved : s.saved.text = text

theorem Within.step {s : Session} {text : List Char} (h : s.Within text) (step : Step) :
    (s.step step).2.Within text := by
  by_cases hsave : step = .save
  · rw [hsave]
    exact ⟨h.cursor, h.cursor⟩
  · refine ⟨?_, (congrArg Cursor.text (s.saved_step hsave)).trans h.saved⟩
    by_cases hrestore : step = .restore
    · rw [hrestore]
      exact h.saved
    · rcases s.exists_tells hrestore with ⟨run, rest, hahead, hcursor, _⟩
      rw [hcursor, Cursor.text_pass hahead, h.cursor]

theorem Within.after {text : List Char} (steps : List Step) :
    forall {s : Session}, s.Within text -> (s.after steps).Within text := by
  induction steps with
  | nil => exact fun h => h
  | cons step rest ih => exact fun h => ih (h.step step)

theorem Within.exists_tells {s : Session} {text : List Char} (h : s.Within text) {step : Step}
    (hstep : step ≠ .restore) :
    exists front run rest, text = front ++ (run ++ rest) ∧
      s.cursor.offset = byteSize front ∧
      (s.step step).2.cursor.offset = byteSize (front ++ run) ∧
      step.Tells (byteSize front) (s.step step).1 run rest := by
  rcases s.exists_tells hstep with ⟨run, rest, hahead, hcursor, htells⟩
  have hoffset := s.cursor.offset_eq_byteSize
  refine ⟨s.cursor.behind.reverse, run, rest, ?_, hoffset, ?_, hoffset ▸ htells⟩
  · rw [<- hahead]
    exact h.cursor.symm
  · rw [hcursor, byteSize_append, <- hoffset]
    rfl

theorem within_reached (text : List Char) (steps : List Step) :
    (reached text steps).Within text :=
  Within.after steps ⟨rfl, rfl⟩

theorem exists_passed (steps : List Step) (h : Step.restore ∉ steps) :
    forall s : Session, exists run rest, s.cursor.ahead = run ++ rest ∧
      (s.after steps).cursor = s.cursor.pass run rest := by
  induction steps with
  | nil => exact fun s => ⟨[], s.cursor.ahead, rfl, rfl⟩
  | cons step later ih =>
      intro s
      rcases List.ne_and_not_mem_of_not_mem_cons h with ⟨hstep, hlater⟩
      rcases s.exists_tells hstep.symm with ⟨run, rest, hahead, hcursor, _⟩
      rcases ih hlater (s.step step).2 with ⟨more, last, hrest, hafter⟩
      rw [hcursor] at hrest hafter
      refine ⟨run ++ more, last, ?_, ?_⟩
      · rw [hahead, List.append_assoc]
        exact congrArg (run ++ ·) hrest
      · rw [after_cons, hafter, Cursor.pass_pass]

theorem saved_after (steps : List Step) (h : Step.save ∉ steps) :
    forall s : Session, (s.after steps).saved = s.saved := by
  induction steps with
  | nil => exact fun _ => rfl
  | cons step later ih =>
      intro s
      rcases List.ne_and_not_mem_of_not_mem_cons h with ⟨hstep, hlater⟩
      rw [after_cons, ih hlater, saved_step s hstep.symm]

/-- A return leads to where the place was saved, and that place stays saved. -/
theorem after_restore {steps : List Step} (h : Step.save ∉ steps) (s : Session) :
    s.after (steps ++ [.restore]) = { cursor := s.saved, saved := s.saved } := by
  rw [after_append, <- saved_after steps h s]
  rfl

end Session
end Text
end Plectrum

import Plectrum.Proofs.Machine.Reading
import Plectrum.Proofs.Text.Session

/-!
# Scanning by characters with offsets

A scanner holds a text and those of its characters, with their offsets, that are not read
yet.  Where it stands is not stored: it is the offset of the first of these characters, or
the size of the text if there is none.
-/

namespace Plectrum
namespace Machine

open Text (byteSize Cursor Report Session Step)

structure Scanner where
  input : List Char
  stream : List (Nat × Char)

namespace Scanner

def start (text : List Char) : Scanner :=
  ⟨text, indices 0 text⟩

def offset (s : Scanner) : Nat :=
  (s.stream.head?.map Prod.fst).getD (byteSize s.input)

def current? (s : Scanner) : Option Char :=
  s.stream.head?.map Prod.snd

def next (s : Scanner) : Option (Nat × Char) × Scanner :=
  (s.stream.head?, { s with stream := s.stream.tail })

def eat (expected : Char) (s : Scanner) : Bool × Scanner :=
  if s.current? = some expected then (true, s.next.2) else (false, s)

def seek (target : Char) : List (Nat × Char) -> Option Nat × List (Nat × Char)
  | [] => (none, [])
  | (offset, c) :: rest => if c = target then (some offset, rest) else seek target rest

def skipPast (target : Char) (s : Scanner) : Option Nat × Scanner :=
  let found := seek target s.stream
  (found.1, { s with stream := found.2 })

def takeWhile (p : Char -> Bool) (s : Scanner) : Option (List Char × Scanner) := do
  let past := { s with stream := s.stream.dropWhile (fun entry => p entry.2) }
  let run <- slice s.input s.offset past.offset
  return (run, past)

/-- A step, with another scanner to come back to. -/
def step (s saved : Scanner) : Step -> Option (Report × Scanner)
  | .next => some (.read s.next.1, s.next.2)
  | .current => some (.seen s.current?, s)
  | .eat expected => some (.eaten (s.eat expected).1, (s.eat expected).2)
  | .skipPast target => some (.found (s.skipPast target).1, (s.skipPast target).2)
  | .takeWhile p => (s.takeWhile p).map (fun taken => (.taken taken.1, taken.2))
  | .save => some (.silent, s)
  | .restore => some (.silent, saved)

def kept (s saved : Scanner) : Step -> Scanner
  | .save => s
  | _ => saved

def run (s saved : Scanner) : List Step -> Option (List (Report × Nat))
  | [] => some []
  | first :: rest => do
      let answer <- s.step saved first
      let later <- answer.2.run (s.kept saved first) rest
      return (answer.1, answer.2.offset) :: later

def of (c : Cursor) : Scanner :=
  ⟨c.text, indices c.offset c.ahead⟩

/-!
# Where a scanner stands
-/

theorem of_start (text : List Char) : of (Cursor.start text) = start text := rfl

theorem of_pass {c : Cursor} {run rest : List Char} (h : c.ahead = run ++ rest) :
    of (c.pass run rest) = ⟨c.text, indices (c.offset + byteSize run) rest⟩ := by
  rw [of, Cursor.text_pass h]
  rfl

theorem offset_of (c : Cursor) : (of c).offset = c.offset := by
  unfold offset of
  cases hahead : c.ahead with
  | nil =>
      rw [c.offset_eq_byteSize, Cursor.text, hahead, List.append_nil]
      rfl
  | cons a rest => rfl

theorem current?_of (c : Cursor) : (of c).current? = c.ahead.head? := by
  unfold current? of
  cases c.ahead with
  | nil => rfl
  | cons a rest => rfl

theorem next_of {c : Cursor} {a : Char} {rest : List Char} (h : c.ahead = a :: rest) :
    (of c).next = (some (c.offset, a), of (c.pass [a] rest)) := by
  have hpast : indices (c.offset + a.utf8Size) rest = indices (c.offset + byteSize [a]) rest := by
    rw [Text.byteSize_cons]
    rfl
  rw [of_pass h, next, of, h, indices, hpast]
  rfl

theorem next_of_nil {c : Cursor} (h : c.ahead = []) : (of c).next = (none, of c) := by
  rw [next, of, h]
  rfl

theorem seek_eq_none {target : Char} {run : List Char} (h : target ∉ run) :
    forall offset : Nat, seek target (indices offset run) = (none, []) := by
  induction run with
  | nil => exact fun _ => rfl
  | cons a run ih =>
      intro offset
      rcases List.ne_and_not_mem_of_not_mem_cons h with ⟨ha, hrun⟩
      rw [indices, seek, if_neg ha.symm, ih hrun]

theorem seek_eq_some {target : Char} {front : List Char} (h : target ∉ front)
    (rest : List Char) :
    forall offset : Nat,
      seek target (indices offset (front ++ target :: rest)) =
        (some (offset + byteSize front),
          indices (offset + byteSize (front ++ [target])) rest) := by
  induction front with
  | nil =>
      intro offset
      rw [List.nil_append, List.nil_append, indices, seek, if_pos rfl, Text.byteSize_cons]
      rfl
  | cons a front ih =>
      intro offset
      rcases List.ne_and_not_mem_of_not_mem_cons h with ⟨ha, hfront⟩
      rw [List.cons_append, indices, seek, if_neg ha.symm, ih hfront, List.cons_append,
        Text.byteSize_cons, Text.byteSize_cons, Nat.add_assoc, Nat.add_assoc]

theorem skipPast_of {c : Cursor} {target : Char} {front rest : List Char}
    (h : c.ahead = front ++ target :: rest) (hfirst : target ∉ front) :
    (of c).skipPast target =
      (some (c.offset + byteSize front), of (c.pass (front ++ [target]) rest)) := by
  have hpass : c.ahead = (front ++ [target]) ++ rest := by
    rw [h, List.append_assoc]
    rfl
  rw [of_pass hpass, of, h]
  unfold skipPast
  simp only [seek_eq_some hfirst]

theorem skipPast_of_not_mem {c : Cursor} {target : Char} (h : target ∉ c.ahead) :
    (of c).skipPast target = (none, of (c.pass c.ahead [])) := by
  rw [of_pass (List.append_nil c.ahead).symm, of]
  unfold skipPast
  simp only [seek_eq_none h]
  rfl

theorem dropWhile_indices {p : Char -> Bool} {run rest : List Char}
    (hrun : forall a, a ∈ run -> p a = true)
    (hrest : forall a, rest.head? = some a -> p a = false) :
    forall offset : Nat,
      (indices offset (run ++ rest)).dropWhile (fun entry => p entry.2) =
        indices (offset + byteSize run) rest := by
  induction run with
  | nil =>
      intro offset
      cases rest with
      | nil => rfl
      | cons a rest =>
          rw [List.nil_append, indices, List.dropWhile_cons_of_neg]
          · rfl
          · simp [hrest a rfl]
  | cons a run ih =>
      intro offset
      rcases List.forall_mem_cons.mp hrun with ⟨ha, hrun⟩
      rw [List.cons_append, indices, List.dropWhile_cons_of_pos, ih hrun, Text.byteSize_cons,
        Nat.add_assoc]
      exact ha

theorem takeWhile_of {p : Char -> Bool} {c : Cursor} {run rest : List Char}
    (h : c.ahead = run ++ rest) (hrun : forall a, a ∈ run -> p a = true)
    (hrest : forall a, rest.head? = some a -> p a = false) :
    (of c).takeWhile p = some (run, of (c.pass run rest)) := by
  have hpast : ({ of c with
      stream := (of c).stream.dropWhile (fun entry => p entry.2) } : Scanner) =
        of (c.pass run rest) := by
    rw [of_pass h, of, h, dropWhile_indices hrun hrest]
  have hslice : slice c.text c.offset (c.pass run rest).offset = some run := by
    refine slice_eq_some_iff.mpr ⟨c.behind.reverse, rest, ?_, c.offset_eq_byteSize, rfl⟩
    rw [Cursor.text, h]
  unfold takeWhile
  simp only [hpast, offset_of]
  rw [show (of c).input = c.text from rfl, hslice]
  rfl

/-!
# Steps
-/

theorem step_of {c : Cursor} {step : Step} {report : Report} {run rest : List Char}
    (h : c.ahead = run ++ rest) (htells : step.Tells c.offset report run rest)
    (saved : Scanner) : (of c).step saved step = some (report, of (c.pass run rest)) := by
  have hstay : of (c.pass [] c.ahead) = of c := rfl
  cases htells with
  | next a rest =>
      rw [Scanner.step, next_of h]
      rfl
  | nothingNext =>
      rw [Scanner.step, next_of_nil h, <- hstay, h]
      rfl
  | current rest =>
      rw [Scanner.step, current?_of, <- hstay, h]
      rfl
  | eaten expected rest =>
      have hcurrent : (of c).current? = some expected := by
        rw [current?_of, h]
        rfl
      rw [Scanner.step, eat, if_pos hcurrent, next_of h]
      rfl
  | @notEaten expected rest other =>
      have hcurrent : (of c).current? ≠ some expected := by
        rw [current?_of, h]
        exact other
      rw [Scanner.step, eat, if_neg hcurrent, <- hstay, h]
      rfl
  | found rest first =>
      rw [List.append_assoc] at h
      rw [Scanner.step, skipPast_of h first]
      rfl
  | notFound none =>
      rw [List.append_nil] at h
      rw [Scanner.step, skipPast_of_not_mem (h ▸ none), h]
  | taken all longest =>
      rw [Scanner.step, takeWhile_of h all longest]
      rfl
  | save rest =>
      rw [Scanner.step, <- hstay, h]
      rfl

theorem kept_of (s : Session) (step : Step) :
    (of s.cursor).kept (of s.saved) step = of (s.step step).2.saved := by
  by_cases hsave : step = .save
  · rw [hsave]
    rfl
  · rw [Session.saved_step s hsave]
    cases step with
    | save => exact absurd rfl hsave
    | _ => rfl

theorem run_of (steps : List Step) :
    forall s : Session, (of s.cursor).run (of s.saved) steps =
      some ((s.run steps).1.map (fun answer => (answer.1, answer.2.cursor.offset))) := by
  induction steps with
  | nil => exact fun _ => rfl
  | cons step rest ih =>
      intro s
      have hstep : (of s.cursor).step (of s.saved) step =
          some ((s.step step).1, of (s.step step).2.cursor) := by
        by_cases hrestore : step = .restore
        · rw [hrestore]
          rfl
        · rcases s.exists_tells hrestore with ⟨run, rest, hahead, hcursor, htells⟩
          rw [hcursor]
          exact step_of hahead htells _
      rw [run, hstep, kept_of]
      simp only [Option.bind_eq_bind, Option.bind_some, ih, offset_of]
      rfl

end Scanner

/-!
# Sessions
-/

/--
A session always stands between two characters of its text and sees the next one.  What a
step tells depends on the part of the text that it passes, so without a return the offset
never decreases; a return leads to where the place was saved, and all goes on as from there.
A scanner that finds its offset anew each time tells the same and is never undefined.
-/
theorem sessions_keep_their_place (text : List Char) :
    (forall steps, (Session.reached text steps).cursor.StandsIn text) ∧
    (forall front step back, exists report,
      ((Session.start text).run (front ++ step :: back)).1[front.length]? =
        some (report, Session.reached text (front ++ [step])) ∧
      (step ≠ .restore -> exists before run rest, text = before ++ (run ++ rest) ∧
        (Session.reached text front).cursor.offset = byteSize before ∧
        (Session.reached text (front ++ [step])).cursor.offset = byteSize (before ++ run) ∧
        step.Tells (byteSize before) report run rest)) ∧
    (forall front steps, Step.restore ∉ steps ->
      (Session.reached text front).cursor.offset <=
        (Session.reached text (front ++ steps)).cursor.offset) ∧
    (forall steps later, Step.save ∉ steps ->
      (Session.reached text (steps ++ [.restore])).run later = (Session.start text).run later ∧
      forall front, (Session.reached text (front ++ .save :: (steps ++ [.restore]))).run later =
        (Session.reached text (front ++ [.save])).run later) ∧
    (forall steps, (Scanner.start text).run (Scanner.start text) steps =
      some (((Session.start text).run steps).1.map
        (fun answer => (answer.1, answer.2.cursor.offset)))) := by
  refine ⟨?stands, ?tells, ?forward, ?returns, ?scans⟩
  case stands =>
    intro steps
    have hstands := (Session.reached text steps).cursor.standsIn_text
    rw [(Session.within_reached text steps).cursor] at hstands
    exact hstands
  case tells =>
    intro front step back
    have hnext : Session.reached text (front ++ [step]) =
        ((Session.reached text front).step step).2 := Session.reached_append text front [step]
    refine ⟨((Session.reached text front).step step).1, ?_, ?_⟩
    · rw [Session.getElem?_run, hnext]
      rfl
    · intro hrestore
      rw [hnext]
      exact (Session.within_reached text front).exists_tells hrestore
  case forward =>
    intro front steps hrestore
    rcases Session.exists_passed steps hrestore (Session.reached text front) with
      ⟨run, rest, _, hcursor⟩
    rw [Session.reached_append, hcursor]
    exact Nat.le_add_right _ _
  case returns =>
    intro steps later hsave
    constructor
    · rw [Session.reached, Session.after_restore hsave]
      rfl
    · intro front
      rw [Session.reached_append, Session.after_cons, Session.after_restore hsave,
        Session.reached_append]
      rfl
  case scans =>
    intro steps
    rw [<- Scanner.of_start]
    exact Scanner.run_of steps (Session.start text)

def digitsInside : List Char := "ä(12)x".toList

/-- The digits behind a parenthesis are read, and read again from the place saved there. -/
theorem digits_inside_are_read_again :
    Step.skipPast '(' ≠ .restore ∧
    (exists before run rest, digitsInside = before ++ (run ++ rest) ∧
      (Step.skipPast '(').Tells (byteSize before) (.found (some 2)) run rest) ∧
    Step.restore ∉ [Step.takeWhile Char.isDigit] ∧ Step.save ∉ [Step.takeWhile Char.isDigit] ∧
    (Session.reached digitsInside [.skipPast '(', .save]).cursor.offset <=
      (Session.reached digitsInside
        [.skipPast '(', .save, .takeWhile Char.isDigit]).cursor.offset ∧
    ((Session.reached digitsInside
      [.skipPast '(', .save, .takeWhile Char.isDigit, .restore]).run
        [.takeWhile Char.isDigit]).1.map Prod.fst = [.taken ['1', '2']] := by
  rcases sessions_keep_their_place digitsInside with ⟨_, htells, hforward, hreturns, _⟩
  have hstep : Step.skipPast '(' ≠ .restore := fun h => by cases h
  have hrestore : Step.restore ∉ [Step.takeWhile Char.isDigit] := by simp
  have hsave : Step.save ∉ [Step.takeWhile Char.isDigit] := by simp
  rcases htells [] (.skipPast '(') [] with ⟨report, hreport, hpassed⟩
  have hfound : report = .found (some 2) := by
    have hfirst : ((Session.start digitsInside).run [.skipPast '(']).1[0]?.map Prod.fst =
        some (.found (some 2)) := by
      decide
    exact Option.some.inj ((congrArg (Option.map Prod.fst) hreport).symm.trans hfirst)
  rcases hpassed hstep with ⟨before, run, rest, htext, _, _, htold⟩
  have hagain := (hreturns _ [.takeWhile Char.isDigit] hsave).right [.skipPast '(']
  refine ⟨hstep, ⟨before, run, rest, htext, hfound ▸ htold⟩, hrestore, hsave,
    hforward [.skipPast '(', .save] _ hrestore, ?_⟩
  refine (congrArg (fun told => told.1.map Prod.fst) hagain).trans ?_
  decide

end Machine
end Plectrum

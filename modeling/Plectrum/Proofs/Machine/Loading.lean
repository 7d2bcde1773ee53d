import Plectrum.Chord.Table
import Plectrum.Latency.Configuration
import Plectrum.Proofs.Machine.Places

/-!
# Loading tables

A text is cut into lines by the offset at which the current line starts and the one at
which it ends.  The arguments of a directive are taken out by their numbers, once it is
known how many there are.
-/

namespace Plectrum
namespace Machine

open Text (byteSize Line LineReader)

/-!
# Lines
-/

structure LineCut where
  /-- Finished lines, latest first. -/
  finished : List Line := []
  number : Nat := 1
  start : Nat := 0
  afterReturn : Bool := false

namespace LineCut

/-- Ends the current line at an offset; the line end takes one byte. -/
def endLine (text : List Char) (m : LineCut) (offset : Nat) (afterReturn : Bool) :
    Option LineCut := do
  let line <- slice text m.start offset
  return {
    finished := ⟨m.number, line⟩ :: m.finished
    number := m.number + 1
    start := offset + 1
    afterReturn := afterReturn }

def push (text : List Char) (m : LineCut) (entry : Nat × Char) : Option LineCut :=
  if entry.2 = '\n' ∧ m.afterReturn = true then
    some { m with start := entry.1 + 1, afterReturn := false }
  else if entry.2 = '\n' ∨ entry.2 = '\r' then
    m.endLine text entry.1 (entry.2 == '\r')
  else
    some { m with afterReturn := false }

structure Follows (m : LineCut) (front : List Char) (r : LineReader) : Prop where
  finished : m.finished = r.finished
  number : m.number = r.number
  afterReturn : m.afterReturn = r.afterReturn
  start : exists earlier, front = earlier ++ r.current.reverse ∧ m.start = byteSize earlier
  fresh : r.afterReturn = true -> r.current = []

theorem byteSize_concat (front : List Char) (c : Char) :
    byteSize (front ++ [c]) = byteSize front + c.utf8Size := by
  rw [Text.byteSize_append, Text.byteSize_cons]
  rfl

theorem Follows.endLine {m : LineCut} {front : List Char} {r : LineReader}
    (h : m.Follows front r) {c : Char} (hc : c.utf8Size = 1) (back : List Char)
    (afterReturn : Bool) :
    exists next,
      LineCut.endLine (front ++ c :: back) m (byteSize front) afterReturn = some next ∧
        next.Follows (front ++ [c]) (r.endLine afterReturn) := by
  rcases h.start with ⟨earlier, hfront, hstart⟩
  have hcut : slice (front ++ c :: back) m.start (byteSize front) = some r.current.reverse := by
    refine slice_eq_some_iff.mpr ⟨earlier, c :: back, ?_, hstart, ?_⟩
    · rw [hfront, List.append_assoc]
    · rw [hstart, hfront, Text.byteSize_append]
  unfold LineCut.endLine
  rw [hcut]
  refine ⟨_, rfl, ?_, congrArg (· + 1) h.number, rfl, ⟨front ++ [c], ?_, ?_⟩, fun _ => rfl⟩
  · simp [LineReader.endLine, h.finished, h.number]
  · simp [LineReader.endLine]
  · rw [byteSize_concat, hc]

theorem Follows.push {m : LineCut} {front : List Char} {r : LineReader} (h : m.Follows front r)
    (c : Char) (back : List Char) :
    exists next, LineCut.push (front ++ c :: back) m (byteSize front, c) = some next ∧
      next.Follows (front ++ [c]) (r.push c) := by
  by_cases hline : c = '\n'
  · subst hline
    have hone : '\n'.utf8Size = 1 := rfl
    cases hreturn : r.afterReturn with
    | true =>
        have hskip : r.push '\n' = { r with afterReturn := false } := by
          rw [LineReader.push, if_pos rfl, if_pos hreturn]
        rw [hskip]
        refine ⟨_, if_pos ⟨rfl, h.afterReturn.trans hreturn⟩, h.finished, h.number, rfl,
          ⟨front ++ ['\n'], ?_, ?_⟩, fun hfalse => by cases hfalse⟩
        · simp [h.fresh hreturn]
        · rw [byteSize_concat, hone]
    | false =>
        have hend : r.push '\n' = r.endLine false := by
          rw [LineReader.push, if_pos rfl, if_neg (by simp [hreturn])]
        rw [hend, LineCut.push, if_neg (by simp [h.afterReturn, hreturn]), if_pos (Or.inl rfl)]
        exact h.endLine hone back false
  · by_cases hreturn : c = '\r'
    · subst hreturn
      exact h.endLine (c := '\r') rfl back true
    · have hpush : r.push c = { r with current := c :: r.current, afterReturn := false } := by
        rw [LineReader.push, if_neg hline, if_neg hreturn]
      rcases h.start with ⟨earlier, hfront, hstart⟩
      rw [hpush, LineCut.push, if_neg (fun hboth => hline hboth.left),
        if_neg (not_or.mpr ⟨hline, hreturn⟩)]
      exact ⟨_, rfl, h.finished, h.number, rfl, ⟨earlier, by simp [hfront], hstart⟩,
        fun hfalse => by cases hfalse⟩

theorem Follows.foldlM (back : List Char) :
    forall {m : LineCut} {front : List Char} {r : LineReader}, m.Follows front r ->
      exists next,
        (indices (byteSize front) back).foldlM (LineCut.push (front ++ back)) m = some next ∧
          next.Follows (front ++ back) (back.foldl LineReader.push r) := by
  induction back with
  | nil =>
      intro m front r h
      exact ⟨m, rfl, by simpa using h⟩
  | cons c back ih =>
      intro m front r h
      rcases h.push c back with ⟨mid, hmid, hfollows⟩
      rcases ih hfollows with ⟨next, hnext, hend⟩
      rw [byteSize_concat, List.append_assoc] at hnext
      rw [List.append_assoc] at hend
      refine ⟨next, ?_, hend⟩
      rw [indices, List.foldlM_cons, hmid]
      exact hnext

end LineCut

def lines (text : List Char) : Option (List Line) := do
  let m <- (indices 0 text).foldlM (LineCut.push text) {}
  if m.start < byteSize text then
    let line <- slice text m.start (byteSize text)
    return (⟨m.number, line⟩ :: m.finished).reverse
  else
    return m.finished.reverse

theorem lines_eq (text : List Char) : lines text = some (Text.numberedLines text) := by
  have hstart : LineCut.Follows {} [] {} := by
    refine ⟨rfl, rfl, rfl, ⟨[], rfl, rfl⟩, ?_⟩
    intro h
    cases h
  rcases hstart.foldlM text with ⟨m, hm, hfollows⟩
  rw [List.nil_append] at hm hfollows
  rcases hfollows.start with ⟨earlier, htext, hoffset⟩
  unfold lines Text.numberedLines LineReader.lines
  rw [show (indices 0 text).foldlM (LineCut.push text) {} = some m from hm]
  rw [Option.bind_eq_bind, Option.bind_some]
  cases hcurrent : (text.foldl LineReader.push {}).current with
  | nil =>
      rw [hcurrent, List.reverse_nil, List.append_nil] at htext
      rw [hoffset, <- htext, if_neg (Nat.lt_irrefl _), hfollows.finished]
      rfl
  | cons c current =>
      rw [hcurrent] at htext
      have hslice : slice text m.start (byteSize text) = some (c :: current).reverse :=
        slice_eq_some_iff.mpr ⟨earlier, [], by simpa using htext, hoffset, by
          rw [hoffset, htext, Text.byteSize_append]⟩
      have hlt : m.start < byteSize text := by
        have hpos : 0 < byteSize (c :: current).reverse := Text.byteSize_pos (by simp)
        rw [hoffset, htext, Text.byteSize_append]
        exact Nat.lt_add_of_pos_right hpos
      rw [if_pos hlt, hslice, hfollows.finished, hfollows.number]
      simp [LineReader.endLine, hcurrent]

/-!
# Tables
-/

def chordTable (text : List Char) : Run ChordError ChordTable := do
  let found <- defined (lines text)
  found.foldlM (fun table line => certain (table.addLine line)) {}

theorem chordTable_eq (text : List Char) : chordTable text = some (ChordTable.read text) := by
  unfold chordTable
  rw [defined_bind (lines_eq text)]
  exact foldlM_eq_some_of_forall (fun _ _ => rfl) _ _

def addScalar (d : Draft) (s : Scalar) (arguments : List (List Char)) :
    Run DirectiveFault Draft :=
  if arguments.length = 1 then
    if (d.scalar s).isSome then
      certain (.error (.repeatedScalar s))
    else do
      let text <- defined arguments[0]?
      certain ((Draft.latencyArgument (.scalar s) 1 text).map (d.setScalar s))
  else
    certain (.error (.argumentCount (.scalar s)))

def addMove (d : Draft) (arguments : List (List Char)) : Run DirectiveFault Draft :=
  if arguments.length = 3 then do
    let source <- defined arguments[0]?
    let a <- certain (Draft.positionArgument 1 source)
    let target <- defined arguments[1]?
    let b <- certain (Draft.positionArgument 2 target)
    let travel <- defined arguments[2]?
    let t <- certain (Draft.latencyArgument .move 3 travel)
    if a = b then
      certain (.error (.moveToItself a))
    else if d.moves.any (fun earlier => earlier.excludes ⟨a, b, t⟩) then
      certain (.error (.repeatedMove a b))
    else
      certain (.ok { d with moves := ⟨a, b, t⟩ :: d.moves })
  else
    certain (.error (.argumentCount .move))

def addWords (d : Draft) : List (List Char) -> Run DirectiveFault Draft
  | [] => certain (.ok d)
  | first :: arguments =>
      match Directive.ofWord? first with
      | some (.scalar s) => addScalar d s arguments
      | some .move => addMove d arguments
      | none => certain (.ok d)

def addLine (d : Draft) (line : Line) : Run ConfigurationError Draft :=
  ExceptT.adapt (.line line.number) (addWords d (Text.words line.text))

def latencies (configuration : List Char) : Run ConfigurationError Latencies := do
  let found <- defined (lines configuration)
  let d <- found.foldlM addLine {}
  certain d.finish

theorem addScalar_eq (d : Draft) (s : Scalar) (arguments : List (List Char)) :
    addScalar d s arguments = some (d.addScalar s arguments) := by
  match arguments with
  | [] => rfl
  | [text] =>
      rw [addScalar, if_pos (show [text].length = 1 from rfl), Draft.addScalar,
        defined_bind (show [text][0]? = some text from rfl)]
      split
      · rfl
      · rfl
  | _ :: _ :: _ => rfl

theorem addMove_eq (d : Draft) (arguments : List (List Char)) :
    addMove d arguments = some (d.addMove arguments) := by
  match arguments with
  | [] => rfl
  | [_] => rfl
  | [_, _] => rfl
  | [source, target, travel] =>
      rw [addMove, if_pos (show [source, target, travel].length = 3 from rfl), Draft.addMove,
        Draft.moveArguments]
      simp only [bind_assoc]
      rw [defined_bind (show [source, target, travel][0]? = some source from rfl)]
      refine bind_eq_some rfl fun a _ => ?_
      rw [defined_bind (show [source, target, travel][1]? = some target from rfl)]
      refine bind_eq_some rfl fun b _ => ?_
      rw [defined_bind (show [source, target, travel][2]? = some travel from rfl)]
      refine bind_eq_some rfl fun t _ => ?_
      by_cases hsame : a = b
      · rw [if_pos hsame, if_pos hsame]
        rfl
      · rw [if_neg hsame, if_neg hsame, pure_bind]
        split
        · rfl
        · rfl
  | _ :: _ :: _ :: _ :: _ => rfl

theorem addWords_eq (d : Draft) (words : List (List Char)) :
    addWords d words = some (d.addWords words) := by
  cases words with
  | nil => rfl
  | cons first arguments =>
      rw [addWords, Draft.addWords]
      cases Directive.ofWord? first with
      | none => rfl
      | some directive =>
          cases directive with
          | scalar s => exact addScalar_eq d s arguments
          | move => exact addMove_eq d arguments

theorem latencies_eq (configuration : List Char) :
    latencies configuration = some (Latencies.read configuration) := by
  have hline : forall d line, addLine d line = some (d.addLine line) := by
    intro d line
    rw [addLine, addWords_eq]
    rfl
  unfold latencies
  rw [defined_bind (lines_eq configuration)]
  exact bind_eq_some (foldlM_eq_some_of_forall hline _ _) (fun _ _ => rfl)

end Machine
end Plectrum

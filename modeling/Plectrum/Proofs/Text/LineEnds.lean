import Mathlib.Data.List.Chain
import Plectrum.Chord.Table
import Plectrum.Latency.Configuration

/-!
# Line ends

Every text is a sequence of lines with their ends, of which only the last one may be
missing.  How each line ends plays no part in what is read, as long as a carriage return
that ends one line does not meet a line feed that ends the next.
-/

namespace Plectrum
namespace Text

/-!
# Lines with their ends
-/

inductive LineEnd where
  | lineFeed
  | carriageReturn
  | both
  | missing
  deriving DecidableEq

def LineEnd.chars : LineEnd -> List Char
  | lineFeed => ['\n']
  | carriageReturn => ['\r']
  | both => ['\r', '\n']
  | missing => []

structure EndedLine where
  text : List Char
  ending : LineEnd
  deriving DecidableEq

namespace EndedLine

def chars (l : EndedLine) : List Char :=
  l.text ++ l.ending.chars

/-- A single line; what has no end is a line only if it is not empty. -/
structure Single (l : EndedLine) : Prop where
  no_feed : '\n' ∉ l.text
  no_return : '\r' ∉ l.text
  nonempty : l.ending = .missing -> l.text ≠ []

def IsFeed (l : EndedLine) : Prop :=
  l.text = [] ∧ l.ending = .lineFeed

/-- Whether the first line ends in front of the second one, and not with it. -/
structure EndsBefore (l next : EndedLine) : Prop where
  ended : l.ending ≠ .missing
  apart : l.ending = .carriageReturn -> ¬ next.IsFeed

instance (l : EndedLine) : Decidable l.Single :=
  decidable_of_iff ('\n' ∉ l.text ∧ '\r' ∉ l.text ∧ (l.ending = .missing -> l.text ≠ []))
    ⟨fun h => ⟨h.left, h.right.left, h.right.right⟩,
      fun h => ⟨h.no_feed, h.no_return, h.nonempty⟩⟩

instance (l : EndedLine) : Decidable l.IsFeed :=
  inferInstanceAs (Decidable (l.text = [] ∧ l.ending = .lineFeed))

instance (l next : EndedLine) : Decidable (l.EndsBefore next) :=
  decidable_of_iff (l.ending ≠ .missing ∧ (l.ending = .carriageReturn -> ¬ next.IsFeed))
    ⟨fun h => ⟨h.left, h.right⟩, fun h => ⟨h.ended, h.apart⟩⟩

end EndedLine

def joined (lines : List EndedLine) : List Char :=
  lines.flatMap EndedLine.chars

structure Separable (lines : List EndedLine) : Prop where
  single : forall l, l ∈ lines -> l.Single
  apart : lines.IsChain EndedLine.EndsBefore

def numberedFrom (first : Nat) (texts : List (List Char)) : List Line :=
  texts.mapIdx (fun i text => ⟨first + i, text⟩)

@[simp] theorem numberedFrom_nil (first : Nat) : numberedFrom first [] = [] := rfl

theorem numberedFrom_cons (first : Nat) (text : List Char) (rest : List (List Char)) :
    numberedFrom first (text :: rest) = ⟨first, text⟩ :: numberedFrom (first + 1) rest := by
  unfold numberedFrom
  rw [List.mapIdx_cons]
  simp only [Nat.add_assoc, Nat.add_comm 1, Nat.add_zero]

theorem numberedFrom_append (first : Nat) (texts more : List (List Char)) :
    numberedFrom first (texts ++ more) =
      numberedFrom first texts ++ numberedFrom (first + texts.length) more := by
  unfold numberedFrom
  rw [List.mapIdx_append]
  simp only [Nat.add_assoc, Nat.add_comm texts.length]

theorem take_numberedFrom (texts : List (List Char)) :
    forall first count : Nat,
      (numberedFrom first texts).take count = numberedFrom first (texts.take count) := by
  induction texts with
  | nil =>
      intro first count
      rw [numberedFrom_nil, List.take_nil, List.take_nil]
      rfl
  | cons text rest ih =>
      intro first count
      cases count with
      | zero => rfl
      | succ count =>
          rw [numberedFrom_cons, List.take_succ_cons, List.take_succ_cons, ih, numberedFrom_cons]

@[simp] theorem map_text_numberedFrom (texts : List (List Char)) :
    forall first : Nat, (numberedFrom first texts).map Line.text = texts := by
  induction texts with
  | nil => exact fun _ => rfl
  | cons text rest ih =>
      intro first
      rw [numberedFrom_cons, List.map_cons, ih]

/-!
# Reading the lines
-/

namespace LineReader

theorem push_of_ne (r : LineReader) {c : Char} (hfeed : c ≠ '\n') (hreturn : c ≠ '\r') :
    r.push c = { r with current := c :: r.current, afterReturn := false } := by
  rw [push, if_neg hfeed, if_neg hreturn]

theorem foldl_push_text {text : List Char} (hfeed : '\n' ∉ text) (hreturn : '\r' ∉ text) :
    forall r : LineReader,
      text.foldl push r =
        { r with current := text.reverse ++ r.current
                 afterReturn := text.isEmpty && r.afterReturn } := by
  induction text with
  | nil => exact fun _ => rfl
  | cons c rest ih =>
      intro r
      rcases List.ne_and_not_mem_of_not_mem_cons hfeed with ⟨hc, hfeed⟩
      rcases List.ne_and_not_mem_of_not_mem_cons hreturn with ⟨hd, hreturn⟩
      rw [List.foldl_cons, push_of_ne r hc.symm hd.symm, ih hfeed hreturn]
      simp

theorem foldl_push_ending {ending : LineEnd} (hended : ending ≠ .missing) {r : LineReader}
    (hafter : r.afterReturn = true -> ending ≠ .lineFeed) :
    ending.chars.foldl push r = r.endLine (ending = .carriageReturn) := by
  cases ending with
  | lineFeed =>
      have hfalse : ¬ r.afterReturn = true := fun h => hafter h rfl
      show r.push '\n' = r.endLine false
      rw [push, if_pos rfl, if_neg hfalse]
  | carriageReturn => rfl
  | both => rfl
  | missing => exact absurd rfl hended

theorem foldl_push_line {l : EndedLine} (h : l.Single) (hended : l.ending ≠ .missing)
    {r : LineReader} (hcurrent : r.current = []) (hafter : r.afterReturn = true -> ¬ l.IsFeed) :
    l.chars.foldl push r =
      { finished := ⟨r.number, l.text⟩ :: r.finished
        number := r.number + 1
        current := []
        afterReturn := l.ending = .carriageReturn } := by
  rw [EndedLine.chars, List.foldl_append, foldl_push_text h.no_feed h.no_return,
    foldl_push_ending hended]
  · simp [endLine, hcurrent]
  · intro hboth hfeed
    rw [Bool.and_eq_true, List.isEmpty_iff] at hboth
    exact hafter hboth.right ⟨hboth.left, hfeed⟩

theorem lines_foldl_push_joined {lines : List EndedLine} (h : Separable lines) :
    forall {r : LineReader}, r.current = [] ->
      (r.afterReturn = true -> forall l, lines.head? = some l -> ¬ l.IsFeed) ->
      ((joined lines).foldl push r).lines =
        r.finished.reverse ++ numberedFrom r.number (lines.map EndedLine.text) := by
  induction lines with
  | nil =>
      intro r hcurrent _
      simp [joined, LineReader.lines, hcurrent]
  | cons l rest ih =>
      intro r hcurrent hafter
      have hsingle := h.single l List.mem_cons_self
      rcases List.isChain_cons.mp h.apart with ⟨hnext, hrest⟩
      have hjoined : joined (l :: rest) = l.chars ++ joined rest := List.flatMap_cons
      rw [hjoined, List.foldl_append, List.map_cons, numberedFrom_cons]
      -- A line without an end is the last one, and the reader has not finished it yet.
      by_cases hended : l.ending = .missing
      · have hnil : rest = [] := by
          cases rest with
          | nil => rfl
          | cons next rest => exact absurd hended (hnext next rfl).ended
        have hchars : l.chars = l.text := by
          rw [EndedLine.chars, hended]
          exact List.append_nil l.text
        have htext := hsingle.nonempty hended
        subst hnil
        rw [hchars, foldl_push_text hsingle.no_feed hsingle.no_return]
        simp [joined, LineReader.lines, endLine, hcurrent, htext]
      · have hlater : Separable rest :=
          ⟨fun next hmem => h.single next (List.mem_cons_of_mem l hmem), hrest⟩
        rw [foldl_push_line hsingle hended hcurrent (fun hreturn => hafter hreturn l rfl),
          ih hlater rfl]
        · simp
        · intro hreturn next hhead
          exact (hnext next hhead).apart (of_decide_eq_true hreturn)

end LineReader

theorem numberedLines_joined {lines : List EndedLine} (h : Separable lines) :
    numberedLines (joined lines) = numberedFrom 1 (lines.map EndedLine.text) := by
  have hlines := LineReader.lines_foldl_push_joined h (r := {}) rfl
  exact hlines (fun hreturn => by cases hreturn)

/-!
# Every text is made of lines
-/

namespace Separable

theorem nil : Separable [] where
  single := by
    intro l hl
    cases hl
  apart := List.IsChain.nil

theorem cons_iff {l : EndedLine} {rest : List EndedLine} :
    Separable (l :: rest) <->
      l.Single ∧ (forall next, rest.head? = some next -> l.EndsBefore next) ∧
        Separable rest := by
  constructor
  · intro h
    rcases List.isChain_cons.mp h.apart with ⟨hnext, hrest⟩
    rcases List.forall_mem_cons.mp h.single with ⟨hl, hsingle⟩
    exact ⟨hl, hnext, hsingle, hrest⟩
  · intro ⟨hl, hnext, hrest⟩
    exact ⟨List.forall_mem_cons.mpr ⟨hl, hrest.single⟩,
      List.isChain_cons.mpr ⟨hnext, hrest.apart⟩⟩

theorem take {lines : List EndedLine} (h : Separable lines) (count : Nat) :
    Separable (lines.take count) where
  single := fun l hl => h.single l (List.mem_of_mem_take hl)
  apart := h.apart.take count

/-- A line end in front of lines makes one line more, or one end out of two. -/
theorem exists_cons_end {lines : List EndedLine} (h : Separable lines) {c : Char}
    (hc : c = '\n' ∨ c = '\r') :
    exists others, Separable others ∧ joined others = c :: joined lines := by
  have hempty : forall ending : LineEnd, ending ≠ .missing -> EndedLine.Single ⟨[], ending⟩ :=
    fun ending hended => ⟨List.not_mem_nil, List.not_mem_nil, fun h => absurd h hended⟩
  rcases hc with rfl | rfl
  · refine ⟨⟨[], .lineFeed⟩ :: lines, cons_iff.mpr ⟨hempty _ (by decide), ?_, h⟩, rfl⟩
    intro next _
    exact ⟨by decide, fun hreturn => by cases hreturn⟩
  · by_cases hfeed : exists l, lines.head? = some l ∧ l.IsFeed
    · rcases hfeed with ⟨l, hhead, htext, hending⟩
      rcases List.head?_eq_some_iff.mp hhead with ⟨rest, rfl⟩
      rcases cons_iff.mp h with ⟨_, _, hrest⟩
      refine ⟨⟨[], .both⟩ :: rest, cons_iff.mpr ⟨hempty _ (by decide), ?_, hrest⟩, ?_⟩
      · intro next _
        exact ⟨by decide, fun hreturn => by cases hreturn⟩
      · simp [joined, EndedLine.chars, LineEnd.chars, htext, hending]
    · refine ⟨⟨[], .carriageReturn⟩ :: lines, cons_iff.mpr ⟨hempty _ (by decide), ?_, h⟩, rfl⟩
      intro next hnext
      exact ⟨by decide, fun _ hisFeed => hfeed ⟨next, hnext, hisFeed⟩⟩

theorem exists_cons_char {lines : List EndedLine} (h : Separable lines) {c : Char}
    (hfeed : c ≠ '\n') (hreturn : c ≠ '\r') :
    exists others, Separable others ∧ joined others = c :: joined lines := by
  have hsingle : forall {text : List Char} {ending : LineEnd}, '\n' ∉ text -> '\r' ∉ text ->
      EndedLine.Single ⟨c :: text, ending⟩ :=
    fun hnofeed hnoreturn => ⟨List.not_mem_cons_of_ne_of_not_mem hfeed.symm hnofeed,
      List.not_mem_cons_of_ne_of_not_mem hreturn.symm hnoreturn, fun _ => List.cons_ne_nil _ _⟩
  cases lines with
  | nil =>
      refine ⟨[⟨[c], .missing⟩], cons_iff.mpr ⟨?_, ?_, nil⟩, rfl⟩
      · exact hsingle List.not_mem_nil List.not_mem_nil
      · intro next hnext
        cases hnext
  | cons l rest =>
      rcases cons_iff.mp h with ⟨hl, hnext, hrest⟩
      refine ⟨⟨c :: l.text, l.ending⟩ :: rest, cons_iff.mpr ⟨?_, ?_, hrest⟩, rfl⟩
      · exact hsingle hl.no_feed hl.no_return
      · exact fun next hhead => ⟨(hnext next hhead).ended, (hnext next hhead).apart⟩

end Separable

theorem exists_joined (text : List Char) :
    exists lines, Separable lines ∧ joined lines = text := by
  induction text with
  | nil => exact ⟨[], Separable.nil, rfl⟩
  | cons c rest ih =>
      rcases ih with ⟨lines, hlines, rfl⟩
      by_cases hc : c = '\n' ∨ c = '\r'
      · exact hlines.exists_cons_end hc
      · rcases not_or.mp hc with ⟨hfeed, hreturn⟩
        exact hlines.exists_cons_char hfeed hreturn

def lineTexts (text : List Char) : List (List Char) :=
  (numberedLines text).map Line.text

theorem numberedLines_eq (text : List Char) :
    numberedLines text = numberedFrom 1 (lineTexts text) := by
  rcases exists_joined text with ⟨lines, hlines, rfl⟩
  rw [lineTexts, numberedLines_joined hlines, map_text_numberedFrom]

theorem number_eq_of_numberedLines {text : List Char} {front back : List Line} {line : Line}
    (h : numberedLines text = front ++ line :: back) : line.number = front.length + 1 := by
  have htexts : lineTexts text =
      front.map Line.text ++ line.text :: back.map Line.text := by
    rw [lineTexts, h, List.map_append, List.map_cons]
  have hnumbered := numberedLines_eq text
  rw [h, htexts, numberedFrom_append, numberedFrom_cons, List.length_map] at hnumbered
  have hlength : front.length = (numberedFrom 1 (front.map Line.text)).length := by
    rw [numberedFrom, List.length_mapIdx, List.length_map]
  rw [(List.cons.inj (List.append_inj_right hnumbered hlength)).left]
  exact Nat.add_comm 1 _

theorem exists_front_lines (text : List Char) (count : Nat) :
    exists front, front <+: text ∧ numberedLines front = (numberedLines text).take count := by
  rcases exists_joined text with ⟨lines, hlines, rfl⟩
  refine ⟨joined (lines.take count), ⟨joined (lines.drop count), ?_⟩, ?_⟩
  · rw [joined, joined, <- List.flatMap_append, List.take_append_drop]
    rfl
  · rw [numberedLines_joined (hlines.take count), numberedLines_joined hlines]
    rw [take_numberedFrom, List.map_take]

/-!
# Tables
-/

/--
The lines of a text are found with their numbers, however each of them ends.  So tables are
read the same, and are refused for the same fault in the same line.
-/
theorem line_ends_do_not_matter {lines : List EndedLine} (h : Separable lines) :
    numberedLines (joined lines) = numberedFrom 1 (lines.map EndedLine.text) ∧
      forall others : List EndedLine, Separable others ->
        others.map EndedLine.text = lines.map EndedLine.text ->
        Latencies.read (joined others) = Latencies.read (joined lines) ∧
          ChordTable.read (joined others) = ChordTable.read (joined lines) := by
  refine ⟨numberedLines_joined h, ?_⟩
  intro others hothers htexts
  have hsame : numberedLines (joined others) = numberedLines (joined lines) := by
    rw [numberedLines_joined hothers, numberedLines_joined h, htexts]
  constructor
  · rw [Latencies.read, Latencies.read, hsame]
  · rw [ChordTable.read, ChordTable.read, hsame]

def fedLines : List EndedLine :=
  [⟨"fret_latency 10".toList, .lineFeed⟩, ⟨[], .lineFeed⟩,
    ⟨"press_latency 5".toList, .lineFeed⟩, ⟨"press_latency 5".toList, .lineFeed⟩]

def mixedLines : List EndedLine :=
  [⟨"fret_latency 10".toList, .carriageReturn⟩, ⟨[], .both⟩,
    ⟨"press_latency 5".toList, .lineFeed⟩, ⟨"press_latency 5".toList, .missing⟩]

theorem mixed_line_ends_do_not_matter :
    joined mixedLines = "fret_latency 10\r\r\npress_latency 5\npress_latency 5".toList ∧
      Separable fedLines ∧ Separable mixedLines ∧
      Latencies.read (joined mixedLines) = .error (.line 4 (.repeatedScalar .press)) ∧
      ChordTable.read (joined mixedLines) =
        .error ⟨3, .invalidPairs "press_latency".toList "5".toList⟩ := by
  have hfed : Separable fedLines := ⟨by decide, by decide⟩
  have hmixed : Separable mixedLines := ⟨by decide, by decide⟩
  have htables := (line_ends_do_not_matter hfed).right mixedLines hmixed rfl
  refine ⟨by decide, hfed, hmixed, htables.left.trans ?_, htables.right.trans ?_⟩
  · decide +kernel
  · decide +kernel

end Text
end Plectrum

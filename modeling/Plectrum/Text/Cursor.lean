/-!
# Cursors in a text

A text is a list of characters.  A cursor stands between two characters of a
text: it holds the characters behind it, nearest first, and the characters ahead
of it.  Its offset counts the bytes behind it in UTF-8, so an offset that a
cursor reports never falls inside a character.
-/

namespace Plectrum
namespace Text

/-!
# Sizes in bytes
-/

/-- The number of bytes that a text takes in UTF-8. -/
def byteSize (text : List Char) : Nat :=
  text.foldl (fun size c => size + c.utf8Size) 0

theorem foldl_utf8Size (text : List Char) :
    forall size : Nat,
      text.foldl (fun size c => size + c.utf8Size) size = size + byteSize text := by
  induction text with
  | nil =>
      intro size
      rfl
  | cons c rest ih =>
      intro size
      simp only [List.foldl_cons, byteSize]
      rw [ih (size + c.utf8Size), ih (0 + c.utf8Size)]
      omega

@[simp] theorem byteSize_nil : byteSize [] = 0 := rfl

theorem byteSize_cons (c : Char) (rest : List Char) :
    byteSize (c :: rest) = c.utf8Size + byteSize rest := by
  simp only [byteSize, List.foldl_cons]
  rw [foldl_utf8Size]
  simp [byteSize]

theorem byteSize_append (front back : List Char) :
    byteSize (front ++ back) = byteSize front + byteSize back := by
  rw [byteSize, List.foldl_append, foldl_utf8Size]
  rfl

theorem byteSize_reverse (text : List Char) :
    byteSize text.reverse = byteSize text := by
  induction text with
  | nil => rfl
  | cons c rest ih =>
      rw [List.reverse_cons, byteSize_append, ih, byteSize_cons, byteSize_cons]
      simp [Nat.add_comm]

/-!
# Cursors
-/

structure Cursor where
  /-- The characters behind the cursor, nearest first. -/
  behind : List Char
  /-- The characters ahead of the cursor, nearest first. -/
  ahead : List Char
  offset : Nat
  offset_eq : offset = byteSize behind
  deriving DecidableEq

namespace Cursor

/-- The cursor between two parts of a text, the first one given nearest first. -/
def between (behind ahead : List Char) : Cursor where
  behind := behind
  ahead := ahead
  offset := byteSize behind
  offset_eq := rfl

def start (text : List Char) : Cursor :=
  between [] text

def text (c : Cursor) : List Char :=
  c.behind.reverse ++ c.ahead

def current? (c : Cursor) : Option Char :=
  c.ahead.head?

def atEnd (c : Cursor) : Bool :=
  c.ahead.isEmpty

/-!
# Moving forward
-/

def pass (c : Cursor) (front rest : List Char) : Cursor where
  behind := front.reverse ++ c.behind
  ahead := rest
  offset := c.offset + byteSize front
  offset_eq := by
    rw [byteSize_append, byteSize_reverse, c.offset_eq, Nat.add_comm]

theorem text_pass {c : Cursor} {front rest : List Char}
    (h : c.ahead = front ++ rest) : (c.pass front rest).text = c.text := by
  simp [text, pass, h]

def next? (c : Cursor) : Option (Char × Cursor) :=
  match c.ahead with
  | [] => none
  | a :: rest => some (a, c.pass [a] rest)

def eat? (expected : Char) (c : Cursor) : Option Cursor :=
  match c.next? with
  | some (a, past) => if a = expected then some past else none
  | none => none

def takeWhile (p : Char -> Bool) (c : Cursor) : List Char × Cursor :=
  let run := c.ahead.takeWhile p
  (run, c.pass run (c.ahead.dropWhile p))

/--
Reads up to and including the next `target`, and tells the offset of it.  If
there is none, everything is read.
-/
def skipPast (target : Char) (c : Cursor) : Option Nat × Cursor :=
  let found := (c.takeWhile (fun a => a != target)).2
  match found.next? with
  | some (_, past) => (some found.offset, past)
  | none => (none, found)

theorem next?_eq_some_iff {c d : Cursor} {a : Char} :
    c.next? = some (a, d) <->
      exists rest, c.ahead = a :: rest ∧ d = c.pass [a] rest := by
  unfold next?
  cases h : c.ahead with
  | nil => simp
  | cons b rest =>
      constructor
      · intro hnext
        simp only [Option.some.injEq, Prod.mk.injEq] at hnext
        exact ⟨rest, by rw [hnext.1], by rw [<- hnext.2, hnext.1]⟩
      · intro ⟨rest', hcons, hd⟩
        injection hcons with ha hrest
        rw [hd, ha, hrest]

theorem next?_eq_none_iff {c : Cursor} : c.next? = none <-> c.ahead = [] := by
  unfold next?
  cases c.ahead <;> simp

theorem takeWhile_append (p : Char -> Bool) (c : Cursor) :
    (c.takeWhile p).1 ++ (c.takeWhile p).2.ahead = c.ahead := by
  simp [takeWhile, pass]

theorem length_ahead_takeWhile (p : Char -> Bool) (c : Cursor) :
    (c.takeWhile p).2.ahead.length <= c.ahead.length := by
  have h := congrArg List.length (takeWhile_append p c)
  rw [List.length_append] at h
  omega

theorem length_ahead_next {c d : Cursor} {a : Char} (h : c.next? = some (a, d)) :
    d.ahead.length < c.ahead.length := by
  obtain ⟨rest, hahead, rfl⟩ := next?_eq_some_iff.mp h
  simp [pass, hahead]

theorem length_ahead_eat {c d : Cursor} {expected : Char}
    (h : c.eat? expected = some d) : d.ahead.length < c.ahead.length := by
  unfold eat? at h
  split at h
  · rename_i a past hnext
    split at h
    · injection h with hd
      exact hd ▸ length_ahead_next hnext
    · cases h
  · cases h

theorem length_ahead_skipPast {c : Cursor} {target : Char} {offset : Nat} {d : Cursor}
    (h : c.skipPast target = (some offset, d)) :
    d.ahead.length < c.ahead.length := by
  unfold skipPast at h
  simp only at h
  split at h
  · rename_i a past hnext
    injection h with _ hd
    have hlt := length_ahead_next hnext
    have hle := length_ahead_takeWhile (fun a => a != target) c
    rw [hd] at hlt
    omega
  · injection h with hnone _
    cases hnone

/-!
# Finding an offset
-/

/--
Splits a text after a number of bytes, the first part nearest first, if that many
bytes end between two characters.
-/
def splitAtByte? (passed : List Char) : Nat -> List Char -> Option (List Char × List Char)
  | 0, rest => some (passed, rest)
  | _ + 1, [] => none
  | n + 1, c :: rest =>
      if c.utf8Size <= n + 1 then
        splitAtByte? (c :: passed) (n + 1 - c.utf8Size) rest
      else
        none

/-- The cursor at an offset of a text, if the offset lies between two characters. -/
def at? (text : List Char) (offset : Nat) : Option Cursor :=
  (splitAtByte? [] offset text).map (fun parts => between parts.1 parts.2)

end Cursor
end Text
end Plectrum

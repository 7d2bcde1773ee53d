import Plectrum.Text.Cursor
import Plectrum.Text.Place

/-!
# Tuples in a score

A score is free text.  A tuple in it is an opening parenthesis, a non-empty even
number of digits, a closing parenthesis and at least one digit more.  The digits in
the parentheses name strings and positions in turn; those behind them are the
duration.  If brushes are looked for, a tuple directly behind the brush marker is a
brush, and the marker belongs to it.  All other text means nothing.
-/

namespace Plectrum

structure Tuple where
  span : Text.Span
  brush : Bool
  /-- The digits between the parentheses. -/
  pairs : List Char
  /-- The digits behind the closing parenthesis. -/
  duration : List Char
  deriving DecidableEq

namespace Tuple

open Text (Cursor)

def marker : Char := '^'

def body? (c : Cursor) : Option ((List Char × List Char) × Cursor) :=
  let pairs := c.takeWhile Char.isDigit
  if pairs.1.isEmpty || pairs.1.length % 2 != 0 then
    none
  else
    match pairs.2.eat? ')' with
    | none => none
    | some closed =>
        let duration := closed.takeWhile Char.isDigit
        if duration.1.isEmpty then none else some ((pairs.1, duration.1), duration.2)

def marked (c : Cursor) : Bool :=
  c.behind[1]? == some marker

def opened (detect : Bool) (offset : Nat) (inner rest : Cursor)
    (digits : List Char × List Char) : Tuple :=
  let brush := detect && marked inner
  { span := ⟨if brush then offset - marker.utf8Size else offset, rest.offset⟩
    brush := brush
    pairs := digits.1
    duration := digits.2 }

def next? (detect : Bool) (c : Cursor) : Option (Tuple × Cursor) :=
  match _h : c.skipPast '(' with
  | (none, _) => none
  | (some offset, inner) =>
      match body? inner with
      | some (digits, rest) => some (opened detect offset inner rest digits, rest)
      | none => next? detect inner
termination_by c.ahead.length
decreasing_by exact Cursor.length_ahead_skipPast _h

theorem length_ahead_body {c d : Cursor} {digits : List Char × List Char}
    (h : body? c = some (digits, d)) : d.ahead.length < c.ahead.length := by
  unfold body? at h
  simp only at h
  split at h
  · cases h
  · split at h
    · cases h
    · rename_i closed hclosed
      split at h
      · cases h
      · injection h with h
        injection h with _ hd
        have hdigits := Cursor.length_ahead_takeWhile Char.isDigit c
        have heat := Cursor.length_ahead_eat hclosed
        have hrest := Cursor.length_ahead_takeWhile Char.isDigit closed
        rw [hd] at hrest
        omega

theorem length_ahead_next {detect : Bool} (c : Cursor) :
    forall {t : Tuple} {d : Cursor},
      next? detect c = some (t, d) -> d.ahead.length < c.ahead.length := by
  induction c using next?.induct with
  | case1 c _ hskip =>
      intro t d h
      rw [next?, hskip] at h
      cases h
  | case2 c offset inner hskip digits rest hbody =>
      intro t d h
      rw [next?, hskip] at h
      simp only [hbody, Option.some.injEq, Prod.mk.injEq] at h
      have hinner := Cursor.length_ahead_skipPast hskip
      have hrest := length_ahead_body hbody
      rw [<- h.right]
      omega
  | case3 c offset inner hskip hbody ih =>
      intro t d h
      rw [next?, hskip] at h
      simp only [hbody] at h
      have hinner := Cursor.length_ahead_skipPast hskip
      have hrest := ih h
      omega

/-- The tuples from a cursor on, behind those found before, given latest first. -/
def allFrom (detect : Bool) (found : List Tuple) (c : Cursor) : List Tuple :=
  match _h : next? detect c with
  | none => found.reverse
  | some (t, rest) => allFrom detect (t :: found) rest
termination_by c.ahead.length
decreasing_by exact length_ahead_next c _h

def all (detect : Bool) (text : List Char) : List Tuple :=
  allFrom detect [] (Cursor.start text)

end Tuple
end Plectrum

/-!
# Strings, positions and commands

The instrument has up to sixteen strings with one finger each.  A finger stands at
a position along its string and presses the string there or not.  Position 0 is
the open string; a finger never moves there.
-/

namespace Plectrum

abbrev Position := Nat

namespace Position

def openString : Position := 0

/-- Where a finger stands before its string is played for the first time. -/
def rest : Position := 1

/--
The largest position.  The codes of larger positions would read as those of other
operations.
-/
def last : Position := 5

end Position

abbrev stringCount : Nat := 16

/-- One of the strings, by its place in the instrument counted from zero. -/
structure StringId where
  index : Fin stringCount
  deriving DecidableEq

namespace StringId

/-- Strings are counted from one on paper. -/
def number (s : StringId) : Nat :=
  s.index.val + 1

def ofNumber? (n : Nat) : Option StringId :=
  if h : 1 <= n ∧ n <= stringCount then
    some ⟨⟨n - 1, by omega⟩⟩
  else
    none

def all : List StringId :=
  (List.finRange stringCount).map StringId.mk

theorem number_pos (s : StringId) : 0 < s.number :=
  Nat.succ_pos s.index.val

theorem number_le (s : StringId) : s.number <= stringCount :=
  s.index.isLt

theorem number_of_ofNumber? {n : Nat} {s : StringId} (h : ofNumber? n = some s) :
    s.number = n := by
  unfold ofNumber? at h
  split at h
  · rename_i hn
    injection h with hs
    subst hs
    simp only [number]
    omega
  · cases h

theorem ofNumber?_number (s : StringId) : ofNumber? s.number = some s := by
  unfold ofNumber?
  rw [dif_pos ⟨s.number_pos, s.number_le⟩]
  rfl

theorem mem_all (s : StringId) : s ∈ all :=
  List.mem_map.mpr ⟨s.index, List.mem_finRange s.index, rfl⟩

end StringId

inductive Operation where
  | press
  | release
  | move (target : Position)
  | attack
  deriving DecidableEq

inductive Command where
  | operate (string : StringId) (operation : Operation)
  | brush (first last : StringId)
  deriving DecidableEq

end Plectrum

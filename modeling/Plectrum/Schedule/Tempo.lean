/-!
# Tempo

A score counts time in divisions of the beat, the instrument in milliseconds.  A
minute has sixty thousand of them; the length of a division is rounded to whole
milliseconds, a half upwards.
-/

namespace Plectrum

structure Tempo where
  beatsPerMinute : Nat
  divisionsPerBeat : Nat
  beats_ne_zero : beatsPerMinute ≠ 0
  divisions_ne_zero : divisionsPerBeat ≠ 0
  deriving DecidableEq

namespace Tempo

def of? (beatsPerMinute divisionsPerBeat : Nat) : Option Tempo :=
  if h : beatsPerMinute ≠ 0 ∧ divisionsPerBeat ≠ 0 then
    some ⟨beatsPerMinute, divisionsPerBeat, h.left, h.right⟩
  else
    none

def standard : Tempo :=
  ⟨60, 1, by decide, by decide⟩

def divisionsPerMinute (t : Tempo) : Nat :=
  t.beatsPerMinute * t.divisionsPerBeat

/-- The length of a division in whole milliseconds. -/
def unit (t : Tempo) : Nat :=
  (2 * 60000 + t.divisionsPerMinute) / (2 * t.divisionsPerMinute)

theorem divisionsPerMinute_pos (t : Tempo) : 0 < t.divisionsPerMinute :=
  Nat.mul_pos (Nat.pos_of_ne_zero t.beats_ne_zero) (Nat.pos_of_ne_zero t.divisions_ne_zero)

/-- The length of a division is at most half a millisecond away from the exact one. -/
theorem unit_bounds (t : Tempo) :
    2 * t.divisionsPerMinute * t.unit <= 2 * 60000 + t.divisionsPerMinute ∧
      2 * 60000 + t.divisionsPerMinute <
        2 * t.divisionsPerMinute * t.unit + 2 * t.divisionsPerMinute := by
  have hpos : 0 < 2 * t.divisionsPerMinute := by
    have h := t.divisionsPerMinute_pos
    omega
  constructor
  · exact Nat.mul_div_le _ _
  · exact Nat.lt_mul_div_succ _ hpos

theorem unit_pos_iff (t : Tempo) : 0 < t.unit <-> t.divisionsPerMinute <= 2 * 60000 := by
  have hpos : 0 < 2 * t.divisionsPerMinute := by
    have h := t.divisionsPerMinute_pos
    omega
  unfold unit
  rw [Nat.div_pos_iff]
  omega

end Tempo
end Plectrum

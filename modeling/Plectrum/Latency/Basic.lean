import Plectrum.Instrument.Command
import Plectrum.Text.Decimal

/-!
# Mechanical latencies

The mechanics need time: for the string to settle after an attack, for a finger to
press or to release, and for a finger to travel between two positions.  Travel
takes the same time in both directions.  Not every pair of positions needs to be
known, and no way over a third position is searched.
-/

namespace Plectrum

def wordMax : Nat := 4294967295

structure Latency where
  ms : Nat
  ms_pos : 0 < ms
  ms_le : ms <= wordMax
  deriving DecidableEq

namespace Latency

theorem eq_of_ms_eq {l k : Latency} (h : l.ms = k.ms) : l = k := by
  cases l with
  | mk ms _ _ =>
      cases k with
      | mk _ _ _ =>
          cases h
          rfl

def ofNumeral? (text : List Char) : Option Latency :=
  match h : Text.Decimal.positive? wordMax text with
  | some n => some ⟨n, Text.Decimal.positive?_pos h, Text.Decimal.positive?_le h⟩
  | none => none

theorem ofNumeral?_eq_some_iff {text : List Char} {l : Latency} :
    ofNumeral? text = some l <->
      Text.Decimal.positive? wordMax text = some l.ms := by
  unfold ofNumeral?
  split
  · rename_i n h
    constructor
    · intro heq
      injection heq with hl
      rw [h, <- hl]
    · intro heq
      have hn := h.symm.trans heq
      injection hn with hn
      subst hn
      rfl
  · rename_i h
    constructor
    · intro heq
      cases heq
    · intro heq
      cases h.symm.trans heq

end Latency

structure Edge where
  low : Position
  high : Position
  travel : Latency
  deriving DecidableEq

namespace Edge

def joins (e : Edge) (a b : Position) : Bool :=
  (e.low == a && e.high == b) || (e.low == b && e.high == a)

theorem joins_iff {e : Edge} {a b : Position} :
    e.joins a b = true <-> (e.low = a ∧ e.high = b) ∨ (e.low = b ∧ e.high = a) := by
  simp only [joins, Bool.or_eq_true, Bool.and_eq_true, beq_iff_eq]

end Edge

structure Latencies where
  /-- The time for a string to settle after an attack. -/
  settle : Latency
  press : Latency
  release : Latency
  /-- The known pairs of positions, in ascending order of their ends. -/
  edges : List Edge
  deriving DecidableEq

structure UnknownTravel where
  source : Position
  target : Position
  deriving DecidableEq

namespace UnknownTravel

def message (e : UnknownTravel) : String :=
  s!"no move latency defined between positions {e.source} and {e.target}"

end UnknownTravel

namespace Latencies

def travel? (l : Latencies) (source target : Position) : Option Latency :=
  (l.edges.find? (fun e => e.joins source target)).map Edge.travel

def travel (l : Latencies) (source target : Position) : Except UnknownTravel Latency :=
  match l.travel? source target with
  | some t => .ok t
  | none => .error ⟨source, target⟩

theorem travel_eq_ok_iff {l : Latencies} {source target : Position} {t : Latency} :
    l.travel source target = .ok t <-> l.travel? source target = some t := by
  unfold travel
  cases l.travel? source target with
  | none => simp
  | some u => simp

end Latencies
end Plectrum

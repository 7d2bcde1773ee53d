import Plectrum.Proofs.Outcome
import Plectrum.Proofs.Text.Place
import Plectrum.Schedule.Performance

/-!
# Partial operations

A machine has operations that are not defined everywhere: it cuts a text between two
offsets, takes an element out of a list, and counts in bytes and in words of 64 bits.
Where one of them is not defined the answer is `none`, and a run that meets it has no
answer at all.
-/

namespace Plectrum
namespace Machine

open Text (byteSize Cursor)

/-- A run that may meet an undefined operation, and otherwise succeeds or fails. -/
abbrev Run (error value : Type) : Type := ExceptT error Option value

section Run

variable {error value result : Type}

def defined (operation : Option value) : Run error value :=
  ExceptT.lift operation

def certain (outcome : Except error value) : Run error value :=
  some outcome

theorem defined_bind {operation : Option value} {a : value} (h : operation = some a)
    (rest : value -> Run error result) : defined operation >>= rest = rest a := by
  rw [h]
  rfl

/-- A run that is defined goes on as what it stands for. -/
theorem bind_eq_some {run : Run error value} {outcome : Except error value}
    {rest : value -> Run error result} {next : value -> Except error result}
    (h : run = some outcome) (hrest : forall a, outcome = .ok a -> rest a = some (next a)) :
    run >>= rest = some (outcome >>= next) := by
  rw [h]
  cases outcome with
  | error e => rfl
  | ok a => exact hrest a rfl

theorem map_eq_some {run : Run error value} {outcome : Except error value}
    (h : run = some outcome) (f : value -> result) :
    (run >>= fun a => certain (.ok (f a))) = some (outcome.map f) := by
  rw [h]
  cases outcome with
  | error e => rfl
  | ok a => rfl

end Run

/-!
# Texts
-/

/-- The text between two offsets, if both lie between characters and in this order. -/
def slice (text : List Char) (start stop : Nat) : Option (List Char) := do
  let c <- Cursor.at? text start
  if start <= stop then
    let d <- Cursor.at? c.ahead (stop - start)
    return d.behind.reverse
  else
    none

theorem slice_eq_some_iff {text part : List Char} {start stop : Nat} :
    slice text start stop = some part <->
      exists front back, text = front ++ (part ++ back) ∧ start = byteSize front ∧
        stop = start + byteSize part := by
  unfold slice
  simp only [Option.bind_eq_bind, Option.bind_eq_some_iff]
  constructor
  · intro ⟨c, hc, h⟩
    rcases Cursor.at?_eq_some_iff.mp hc with ⟨front, ahead, rfl, rfl, rfl⟩
    split at h
    · rename_i hle
      rcases Option.bind_eq_some_iff.mp h with ⟨d, hd, hpart⟩
      rcases Cursor.at?_eq_some_iff.mp hd with ⟨run, back, hahead, hsize, rfl⟩
      change ahead = run ++ back at hahead
      have hrun : part = run := by
        injection hpart with hpart
        rw [<- hpart]
        exact List.reverse_reverse run
      subst hrun
      exact ⟨front, back, by rw [hahead], rfl, by omega⟩
    · cases h
  · intro ⟨front, back, htext, hstart, hstop⟩
    have hdifference : stop - start = byteSize part := by omega
    refine ⟨Cursor.between front.reverse (part ++ back), ?_, ?_⟩
    · rw [htext, hstart]
      exact Cursor.at?_append front (part ++ back)
    · rw [if_pos (by omega), hdifference]
      show (Cursor.at? (part ++ back) (byteSize part)).bind _ = _
      rw [Cursor.at?_append]
      exact congrArg some (List.reverse_reverse part)

theorem slice_append (front part back : List Char) :
    slice (front ++ (part ++ back)) (byteSize front) (byteSize (front ++ part)) = some part :=
  slice_eq_some_iff.mpr ⟨front, back, rfl, rfl, Text.byteSize_append front part⟩

theorem slice_ahead (front back : List Char) {stop : Nat} (h : byteSize front <= stop) :
    slice (front ++ back) (byteSize front) stop =
      (Cursor.at? back (stop - byteSize front)).map (fun d => d.behind.reverse) := by
  unfold slice
  rw [Cursor.at?_append, Option.bind_eq_bind, Option.bind_some, if_pos h]
  exact (Option.map_eq_bind ..).symm

/-!
# Numbers
-/

def sub (a b : Nat) : Option Nat :=
  if b <= a then some (a - b) else none

def byte (n : Nat) : Option Nat :=
  if n < 256 then some n else none

/-- A time that fits in 64 bits with a sign. -/
def word (time : Int) : Option Int :=
  if Representable time then some time else none

/-- A number of things that are counted in 32 bits with a sign. -/
def count (n : Nat) : Option Nat :=
  if n <= 2147483647 then some n else none

theorem sub_of_le {a b : Nat} (h : b <= a) : sub a b = some (a - b) :=
  if_pos h

theorem byte_of_lt {n : Nat} (h : n < 256) : byte n = some n :=
  if_pos h

theorem word_of_representable {time : Int} (h : Representable time) : word time = some time :=
  if_pos h

theorem count_of_le {n : Nat} (h : n <= 2147483647) : count n = some n :=
  if_pos h

theorem count_of_lt {n : Nat} (h : 2147483647 < n) : count n = none :=
  if_neg (Nat.not_le.mpr h)

/-!
# Folds
-/

section Fold

variable {error value result : Type}

theorem foldlM_eq_some {step : result -> value -> Except error result}
    {machine : result -> value -> Run error result} (start : result) (xs : List value)
    (h : forall before x after b, xs = before ++ x :: after ->
      before.foldlM step start = .ok b -> machine b x = some (step b x)) :
    xs.foldlM machine start = some (xs.foldlM step start) := by
  induction xs generalizing start with
  | nil => rfl
  | cons x rest ih =>
      have hfirst : machine start x = some (step start x) := h [] x rest start rfl rfl
      rw [List.foldlM_cons, List.foldlM_cons, hfirst]
      cases hstep : step start x with
      | error e => rfl
      | ok b =>
          show rest.foldlM machine b = some (rest.foldlM step b)
          apply ih
          intro before y after c hrest hbefore
          apply h (x :: before) y after c
          · rw [hrest]
            rfl
          · rw [List.foldlM_cons, hstep]
            exact hbefore

theorem foldlM_eq_some_of_forall {step : result -> value -> Except error result}
    {machine : result -> value -> Run error result}
    (h : forall b x, machine b x = some (step b x)) (start : result) (xs : List value) :
    xs.foldlM machine start = some (xs.foldlM step start) :=
  foldlM_eq_some start xs (fun _ x _ b _ _ => h b x)

theorem mapM_eq_some {operation : value -> Option result} {f : value -> result}
    {xs : List value} (h : forall x, x ∈ xs -> operation x = some (f x)) :
    xs.mapM operation = some (xs.map f) := by
  induction xs with
  | nil => rfl
  | cons x rest ih =>
      rcases List.forall_mem_cons.mp h with ⟨hx, hrest⟩
      rw [List.mapM_cons, hx, ih hrest]
      rfl

end Fold

end Machine
end Plectrum

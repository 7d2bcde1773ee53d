import Plectrum.Proofs.Machine.Operations
import Plectrum.Proofs.Score.Verdict

/-!
# Reading by offsets

Runs of digits are cut out of the text between two offsets, and so is the text in front
of a parenthesis, to see whether the brush marker stands there.  Digits are taken for
bytes, pairs and neighbours are taken out of lists by their numbers, and the clock of the
score is a word.  The tuples that were added are counted in 32 bits, for a message only.
-/

namespace Plectrum
namespace Machine

open Text (byteSize Cursor Span)

/-!
# Scanning
-/

def takeWhile (p : Char -> Bool) (c : Cursor) : Option (List Char × Cursor) := do
  let past := (c.takeWhile p).2
  let run <- slice c.text c.offset past.offset
  return (run, past)

def body (c : Cursor) : Option (Option ((List Char × List Char) × Cursor)) := do
  let pairs <- takeWhile Char.isDigit c
  if pairs.1.isEmpty || pairs.1.length % 2 != 0 then
    return none
  else
    match pairs.2.eat? ')' with
    | none => return none
    | some closed =>
        let duration <- takeWhile Char.isDigit closed
        return if duration.1.isEmpty then none else some ((pairs.1, duration.1), duration.2)

def opened (detect : Bool) (offset : Nat) (inner rest : Cursor)
    (digits : List Char × List Char) : Option Tuple := do
  let brush <-
    if detect then
      (slice inner.text 0 offset).map (fun front => front.getLast? == some Tuple.marker)
    else
      some false
  let start <- if brush then sub offset Tuple.marker.utf8Size else some offset
  return {
    span := ⟨start, rest.offset⟩
    brush := brush
    pairs := digits.1
    duration := digits.2 }

def next (detect : Bool) (c : Cursor) : Option (Option (Tuple × Cursor)) :=
  match _h : c.skipPast '(' with
  | (none, _) => some none
  | (some offset, inner) =>
      match body inner with
      | none => none
      | some none => next detect inner
      | some (some (digits, rest)) =>
          (opened detect offset inner rest digits).map (fun t => some (t, rest))
termination_by c.ahead.length
decreasing_by exact Cursor.length_ahead_skipPast _h

theorem takeWhile_eq (p : Char -> Bool) (c : Cursor) :
    takeWhile p c = some (c.takeWhile p) := by
  rcases Cursor.takeWhile_cases p c with ⟨run, rest, hahead, _, _, htake⟩
  have hslice : slice c.text c.offset (c.pass run rest).offset = some run := by
    refine slice_eq_some_iff.mpr ⟨c.behind.reverse, rest, ?_, ?_, rfl⟩
    · rw [Cursor.text, hahead]
    · rw [Text.byteSize_reverse, c.offset_eq]
  unfold takeWhile
  rw [htake]
  simp only [hslice, Option.bind_eq_bind, Option.bind_some]
  rfl

theorem body_eq (c : Cursor) : body c = some (Tuple.body? c) := by
  unfold body Tuple.body?
  simp only [takeWhile_eq, Option.bind_eq_bind, Option.bind_some]
  split
  · rfl
  · cases (c.takeWhile Char.isDigit).2.eat? ')' with
    | none => rfl
    | some closed => rfl

theorem opened_eq (detect : Bool) (c : Cursor) {ahead : List Char} (h : c.ahead = '(' :: ahead)
    (rest : Cursor) (digits : List Char × List Char) :
    opened detect c.offset (c.pass ['('] ahead) rest digits =
      some (Tuple.opened detect c.offset (c.pass ['('] ahead) rest digits) := by
  have hsize : byteSize c.behind.reverse = c.offset := by
    rw [Text.byteSize_reverse, c.offset_eq]
  have hfront : slice (c.pass ['('] ahead).text 0 c.offset = some c.behind.reverse := by
    refine slice_eq_some_iff.mpr ⟨[], '(' :: ahead, ?_, rfl, ?_⟩
    · rw [Cursor.text_pass (by simpa using h), Cursor.text, h]
      rfl
    · rw [hsize, Nat.zero_add]
  have hmarked : (c.behind.reverse.getLast? == some Tuple.marker) =
      Tuple.marked (c.pass ['('] ahead) := by
    rw [Bool.eq_iff_iff, beq_iff_eq]
    exact Tuple.marked_pass_iff.symm
  unfold opened Tuple.opened
  cases detect with
  | false => rfl
  | true =>
      simp only [if_true, hfront, Option.map_some, Option.bind_eq_bind, Option.bind_some, hmarked,
        Bool.true_and]
      by_cases hbrush : Tuple.marked (c.pass ['('] ahead) = true
      · have hlast := Tuple.marked_pass_iff.mp hbrush
        have hle : Tuple.marker.utf8Size <= c.offset := by
          rw [<- hsize, <- List.dropLast_append_getLast? _ hlast, Text.byteSize_append]
          exact Nat.le_add_left _ _
        simp only [hbrush, if_true, sub_of_le hle, Option.bind_some]
        rfl
      · simp only [hbrush]
        rfl

theorem next_eq (detect : Bool) (c : Cursor) : next detect c = some (Tuple.next? detect c) := by
  induction c using Tuple.next?.induct with
  | case1 c past hskip =>
      rw [next, Tuple.next?, hskip]
  | case2 c offset inner hskip digits rest hbody =>
      rw [next, Tuple.next?, hskip]
      simp only [body_eq, hbody]
      rcases Cursor.skipPast_eq_some hskip with ⟨front, ahead, _, _, rfl, rfl⟩
      rw [opened_eq detect (c.pass front ('(' :: ahead)) rfl]
      rfl
  | case3 c offset inner hskip hbody ih =>
      rw [next, Tuple.next?, hskip]
      simp only [body_eq, hbody]
      exact ih

/-!
# Adding a tuple
-/

def digit (c : Char) : Option Nat := do
  let code <- byte c.toNat
  sub code '0'.toNat

def chunks : List Nat -> List (List Nat)
  | a :: b :: rest => [a, b] :: chunks rest
  | _ => []

def attack (chunk : List Nat) : Option (Nat × Nat) := do
  let number <- chunk[0]?
  let position <- chunk[1]?
  return (number, position)

def attacks (t : Tuple) : Option (List (Nat × Nat)) := do
  let digits <- t.pairs.mapM digit
  (chunks digits).mapM attack

def windows : List StringId -> List (List StringId)
  | a :: b :: rest => [a, b] :: windows (b :: rest)
  | _ => []

def step (window : List StringId) : Run TupleFault Unit := do
  let a <- defined window[0]?
  let b <- defined window[1]?
  certain (if a.number + 1 = b.number ∨ b.number + 1 = a.number then .ok ()
    else .error (.brushSkips a b))

def across (start : Int) (touched : List StringId) : Run TupleFault Brush :=
  if touched.length < 2 then
    certain (.error .brushTooNarrow)
  else do
    (windows touched).foldlM (fun _ window => step window) ()
    let first <- defined touched[0]?
    let back <- defined (sub touched.length 1)
    let last <- defined touched[back]?
    certain (.ok { start := start, first := first, last := last })

def addStroke (score : Score) (t : Tuple) : Run TupleFault Score :=
  if t.brush then do
    let b <- across score.length t.touched
    certain (.ok (score.addBrush b))
  else
    certain (.ok score)

def add (score : Score) (t : Tuple) : Run TupleFault Score := do
  let duration <- certain t.divisions
  let pairs <- defined (attacks t)
  let attacked <- certain (pairs.foldlM (Score.addAttack duration) score)
  let brushed <- addStroke attacked t
  let clock <- defined (word (brushed.length + duration))
  certain (.ok { brushed with length := clock })

theorem digit_eq {c : Char} (h : c.isDigit = true) :
    digit c = some (Text.Decimal.digitValue c) := by
  rw [Char.isDigit, Bool.and_eq_true, decide_eq_true_eq, decide_eq_true_eq] at h
  have hlow : '0'.toNat <= c.toNat := UInt32.le_iff_toNat_le.mp h.left
  have hhigh : c.toNat <= 57 := UInt32.le_iff_toNat_le.mp h.right
  unfold digit
  rw [byte_of_lt (by omega)]
  exact sub_of_le hlow

theorem mapM_attack :
    forall digits : List Char,
      (chunks (digits.map Text.Decimal.digitValue)).mapM attack =
        some (Tuple.pairUpFrom [] digits)
  | [] => rfl
  | [_] => rfl
  | a :: b :: rest => by
      rw [Tuple.pairUpFrom, Tuple.pairUpFrom_found, List.map_cons, List.map_cons, chunks,
        List.mapM_cons, mapM_attack rest]
      rfl

theorem attacks_eq {t : Tuple} (h : forall c, c ∈ t.pairs -> c.isDigit = true) :
    attacks t = some t.attacks := by
  unfold attacks
  rw [mapM_eq_some (fun c hc => digit_eq (h c hc))]
  exact mapM_attack t.pairs

theorem foldlM_step :
    forall touched : List StringId,
      (windows touched).foldlM (fun _ window => step window) () = some (Brush.steps touched)
  | [] => rfl
  | [_] => rfl
  | a :: b :: rest => by
      rw [windows, List.foldlM_cons, Brush.steps]
      by_cases hnext : a.number + 1 = b.number ∨ b.number + 1 = a.number
      · rw [if_pos hnext, <- foldlM_step (b :: rest)]
        have hstep : step [a, b] = some (.ok ()) := by
          show certain (if _ then _ else _) = _
          rw [if_pos hnext]
          rfl
        rw [hstep]
        rfl
      · rw [if_neg hnext]
        have hstep : step [a, b] = some (.error (.brushSkips a b)) := by
          show certain (if _ then _ else _) = _
          rw [if_neg hnext]
          rfl
        rw [hstep]
        rfl

theorem across_eq (start : Int) (touched : List StringId) :
    across start touched = some (Brush.across start touched) := by
  match touched with
  | [] => rfl
  | [_] => rfl
  | first :: second :: rest =>
      have hlong : ¬ (first :: second :: rest).length < 2 := by
        rw [List.length_cons, List.length_cons]
        omega
      have hback : sub (first :: second :: rest).length 1 = some (rest.length + 1) :=
        sub_of_le (Nat.le_add_left _ _)
      have hlast : (first :: second :: rest)[rest.length + 1]? = some (rest.getLastD second) := by
        have hget := List.getLast?_eq_getElem? (l := second :: rest)
        rw [List.getLast?_cons, <- List.getLastD_eq_getLast?] at hget
        exact hget.symm
      have hmap : forall b : Brush, (Brush.steps (first :: second :: rest)).map (fun _ => b) =
          Brush.steps (first :: second :: rest) >>= fun _ => .ok b := by
        intro b
        cases Brush.steps (first :: second :: rest) with
        | error fault => rfl
        | ok _ => rfl
      rw [across, if_neg hlong, Brush.across, hmap]
      refine bind_eq_some (foldlM_step _) fun _ _ => ?_
      rw [defined_bind (show (first :: second :: rest)[0]? = some first from rfl),
        defined_bind hback, defined_bind hlast]
      rfl

theorem addStroke_eq (score : Score) (t : Tuple) :
    addStroke score t = some (score.addStroke t) := by
  unfold addStroke Score.addStroke
  split
  · exact map_eq_some (across_eq score.length t.touched) score.addBrush
  · rfl

theorem length_of_addStroke {score next : Score} {t : Tuple} (h : score.addStroke t = .ok next) :
    next.length = score.length := by
  rcases Score.addStroke_cases h with ⟨_, rfl⟩ | ⟨_, b, _, rfl⟩
  · rfl
  · rfl

theorem add_eq {score : Score} {t : Tuple} (hdigits : forall c, c ∈ t.pairs -> c.isDigit = true)
    (hclock : forall d, t.divisions = .ok d -> Representable (score.length + d)) :
    add score t = some (score.add t) := by
  unfold add Score.add
  refine bind_eq_some rfl fun d hd => ?_
  rw [defined_bind (attacks_eq hdigits)]
  refine bind_eq_some rfl fun attacked hattacked => ?_
  refine bind_eq_some (addStroke_eq attacked t) fun brushed hbrushed => ?_
  have hlength : brushed.length = score.length :=
    (length_of_addStroke hbrushed).trans (Score.frame_of_addAttacks t.attacks hattacked).left
  rw [defined_bind (word_of_representable (hlength ▸ hclock d hd))]
  rfl

/-!
# All tuples
-/

def addTuple (score : Score) (t : Tuple) : Run ScoreError Score :=
  ExceptT.adapt (ScoreError.mk t.span) (add score t)

/-- Adds the tuples from a cursor on, each of them as soon as it was read, and counts them. -/
def readFrom (detect : Bool) (score : Score) (tuples : Nat) (c : Cursor) : Run ScoreError Score :=
  match _h : next detect c with
  | none => none
  | some none => certain (.ok score)
  | some (some (t, rest)) => do
      let added <- addTuple score t
      let counted <- defined (count (tuples + 1))
      readFrom detect added counted rest
termination_by c.ahead.length
decreasing_by
  rw [next_eq] at _h
  injection _h with hnext
  exact Tuple.length_ahead_next c hnext

def read (detect : Bool) (text : List Char) : Run ScoreError Score := do
  let score <- certain (Score.ofTuples [])
  readFrom detect score 0 (Cursor.start text)

/-- The divisions of a tuple that can pass on a clock: no duration beyond a limit is added. -/
def clocked (t : Tuple) : Nat :=
  if t.value <= wordMax then t.value else 0

/-- Whether a text begins with more valid tuples than can be counted. -/
def Crowded (detect : Bool) (text : List Char) : Prop :=
  exists front back, Tuple.all detect text = front ++ back ∧
    (forall t, t ∈ front -> t.Valid) ∧ 2147483647 < front.length

theorem not_crowded_of_length_le {detect : Bool} {text : List Char}
    (h : (Tuple.all detect text).length <= 2147483647) : ¬ Crowded detect text := by
  intro ⟨front, back, hall, _, hmany⟩
  rw [hall, List.length_append] at h
  omega

theorem readFrom_of_next_none {detect : Bool} {c : Cursor} (h : Tuple.next? detect c = none)
    (score : Score) (n : Nat) : readFrom detect score n c = some (.ok score) := by
  rw [readFrom]
  split
  · rename_i hnext
    rw [next_eq] at hnext
    cases hnext
  · rfl
  · rename_i t rest hnext
    rw [next_eq, h] at hnext
    cases hnext

theorem readFrom_of_next_some {detect : Bool} {c rest : Cursor} {t : Tuple}
    (h : Tuple.next? detect c = some (t, rest)) (score : Score) (n : Nat) :
    readFrom detect score n c = addTuple score t >>= fun added =>
      defined (count (n + 1)) >>= fun counted => readFrom detect added counted rest := by
  rw [readFrom]
  split
  · rename_i hnext
    rw [next_eq] at hnext
    cases hnext
  · rename_i hnext
    rw [next_eq, h] at hnext
    cases hnext
  · rename_i u back hnext
    rw [next_eq, h] at hnext
    cases hnext
    rfl

theorem digits_of_next {detect : Bool} {c rest : Cursor} {t : Tuple}
    (h : Tuple.next? detect c = some (t, rest)) : forall a, a ∈ t.pairs -> a.isDigit = true := by
  rcases Tuple.next?_cases c with hnone | ⟨offset, inner, back, digits, hbody, hsome⟩
  · rw [hnone] at h
    cases h
  · rw [hsome] at h
    cases h
    rcases Tuple.body?_eq_some_iff.mp hbody with ⟨_, hinner, _⟩
    exact hinner.pairs_digits

theorem clocked_of_divisions {t : Tuple} {d : Nat} (h : t.divisions = .ok d) : clocked t = d := by
  rcases Tuple.divisions_eq_ok_iff.mp h with ⟨hlasts, rfl⟩
  exact if_pos hlasts.right

theorem digits_in_front {detect : Bool} {text : List Char} {front back : List Tuple}
    (h : Tuple.all detect text = front ++ back) :
    forall t, t ∈ front -> forall pair, pair ∈ t.attacks -> pair.1 <= 9 :=
  fun _ ht => Tuple.number_le_of_mem_attacks (h ▸ List.mem_append_left back ht)

theorem addTuple_eq {score : Score} {t : Tuple}
    (hdigits : forall c, c ∈ t.pairs -> c.isDigit = true) (hpast : 0 <= score.length)
    (hclock : score.length + clocked t <= 9223372036854775807) :
    addTuple score t = some (score.addTuple t) := by
  have hroom : forall d, t.divisions = .ok d -> Representable (score.length + d) := by
    intro d hd
    rw [clocked_of_divisions hd] at hclock
    unfold Representable
    omega
  rw [addTuple, add_eq hdigits hroom]
  rfl

theorem length_of_addTuple {score added : Score} {t : Tuple} (h : score.addTuple t = .ok added) :
    added.length = score.length + clocked t := by
  rcases (Score.adds_of_add (Score.addTuple_eq_ok_iff.mp h)).length with ⟨d, hd, hlength⟩
  rw [hlength, clocked_of_divisions hd]

/--
Behind what was read, the clock has room for what is still to be read, and so has the
counter for the tuples that will be added.
-/
theorem readFrom_eq (detect : Bool) (c : Cursor) :
    forall (score : Score) (n : Nat), 0 <= score.length ->
      score.length + (((Tuple.allFrom detect [] c).map clocked).sum : Nat) <=
        9223372036854775807 ->
      (forall front back last, Tuple.allFrom detect [] c = front ++ back ->
        front.foldlM Score.addTuple score = .ok last -> n + front.length <= 2147483647) ->
      readFrom detect score n c =
        some ((Tuple.allFrom detect [] c).foldlM Score.addTuple score) := by
  induction c using Tuple.allFrom_induction detect with
  | hnone c h =>
      intro score n _ _ _
      rw [readFrom_of_next_none h, Tuple.allFrom_of_next_none h]
      rfl
  | hsome c t rest h ih =>
      intro score n hpast hclock hcount
      rw [Tuple.allFrom_cons h] at hcount
      rw [Tuple.allFrom_cons h, List.map_cons, List.sum_cons] at hclock
      have hadd := addTuple_eq (digits_of_next h) hpast (by omega)
      rw [readFrom_of_next_some h, Tuple.allFrom_cons h, List.foldlM_cons]
      refine bind_eq_some hadd fun added hadded => ?_
      have hlength := length_of_addTuple hadded
      -- The counter has room for every front part that is added, so also for `t` alone.
      have hone : [t].foldlM Score.addTuple score = .ok added := by
        rw [List.foldlM_cons, hadded]
        rfl
      have hroom : n + 1 <= 2147483647 := hcount [t] _ added rfl hone
      rw [defined_bind (count_of_le hroom)]
      apply ih
      · omega
      · omega
      · intro front back last hsplit hlast
        have hmore := hcount (t :: front) back last (congrArg (t :: ·) hsplit)
        rw [List.foldlM_cons, hadded, List.length_cons] at hmore
        have hle := hmore hlast
        omega

/-- Where the counter has no room for tuples that are added, there is no answer. -/
theorem readFrom_eq_none (detect : Bool) (c : Cursor) :
    forall (score last : Score) (n : Nat) (front back : List Tuple), 0 <= score.length ->
      score.length + (((Tuple.allFrom detect [] c).map clocked).sum : Nat) <=
        9223372036854775807 ->
      Tuple.allFrom detect [] c = front ++ back ->
      front.foldlM Score.addTuple score = .ok last -> n <= 2147483647 ->
      2147483647 < n + front.length -> readFrom detect score n c = none := by
  induction c using Tuple.allFrom_induction detect with
  | hnone c h =>
      intro score last n front back _ _ hsplit _ hn hcount
      rw [Tuple.allFrom_of_next_none h] at hsplit
      rw [(List.append_eq_nil_iff.mp hsplit.symm).left, List.length_nil] at hcount
      omega
  | hsome c t rest h ih =>
      intro score last n front back hpast hclock hsplit hlast hn hcount
      rw [Tuple.allFrom_cons h, List.map_cons, List.sum_cons] at hclock
      rw [Tuple.allFrom_cons h] at hsplit
      cases front with
      | nil =>
          rw [List.length_nil] at hcount
          omega
      | cons u front =>
          rw [List.cons_append] at hsplit
          injection hsplit with hfirst hsplit
          subst hfirst
          rw [List.foldlM_cons] at hlast
          rcases Outcome.bind_eq_ok_iff.mp hlast with ⟨added, hadded, hlast⟩
          have hlength := length_of_addTuple hadded
          rw [List.length_cons] at hcount
          rw [readFrom_of_next_some h, addTuple_eq (digits_of_next h) hpast (by omega), hadded]
          show defined (count (n + 1)) >>= _ = _
          by_cases hroom : n + 1 <= 2147483647
          · rw [defined_bind (count_of_le hroom)]
            apply ih added last (n + 1) front back _ _ hsplit hlast hroom
            · omega
            · omega
            · omega
          · rw [count_of_lt (Nat.not_le.mp hroom)]
            rfl

section Text

variable {detect : Bool} {text : List Char}
  (hclock : ((Tuple.all detect text).map clocked).sum <= 9223372036854775807)
include hclock

theorem read_eq (hcount : ¬ Crowded detect text) :
    read detect text = some (Score.read detect text) := by
  apply readFrom_eq detect (Cursor.start text) {} 0 (Int.le_refl 0)
  · show (0 : Int) + (((Tuple.all detect text).map clocked).sum : Nat) <= 9223372036854775807
    omega
  · intro front back last hsplit hlast
    by_contra hmany
    refine hcount ⟨front, back, hsplit, ?_, by omega⟩
    exact (Score.ofTuples_ok_iff (digits_in_front hsplit)).mp ⟨last, hlast⟩

theorem read_eq_none (hcount : Crowded detect text) : read detect text = none := by
  rcases hcount with ⟨front, back, hsplit, hvalid, hmany⟩
  rcases (Score.ofTuples_ok_iff (digits_in_front hsplit)).mpr hvalid with ⟨last, hlast⟩
  apply readFrom_eq_none detect (Cursor.start text) {} last 0 front back (Int.le_refl 0) _ hsplit
    hlast (Nat.zero_le _)
  · omega
  · show (0 : Int) + (((Tuple.all detect text).map clocked).sum : Nat) <= 9223372036854775807
    omega

end Text

end Machine
end Plectrum

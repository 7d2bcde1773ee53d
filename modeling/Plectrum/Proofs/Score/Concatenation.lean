import Plectrum.Proofs.Score.Contents
import Plectrum.Proofs.Text.Replacement

/-!
# Texts one after the other

A line end cuts every tuple, so the tuples of two texts with a line end between them
are those of the first text and then those of the second one, moved behind it.  Hence
the two scores are played one after the other, and a fault of the second text is found
if the first one has none.
-/

namespace Plectrum

/-!
# Moving
-/

namespace Text

def Span.moved (bytes : Nat) (span : Span) : Span where
  start := span.start + bytes
  stop := span.stop + bytes

end Text

def Tuple.moved (bytes : Nat) (t : Tuple) : Tuple :=
  { t with span := t.span.moved bytes }

def Note.later (time : Int) (n : Note) : Note :=
  { n with start := time + n.start }

def Brush.later (time : Int) (b : Brush) : Brush :=
  { b with start := time + b.start }

def TupleFault.later (time : Int) : TupleFault -> TupleFault
  | conflict string start => conflict string (time + start)
  | other => other

def ScoreError.behind (bytes : Nat) (time : Int) (e : ScoreError) : ScoreError where
  span := e.span.moved bytes
  fault := e.fault.later time

theorem Brush.across_later (time start : Int) (strings : List StringId) :
    across (time + start) strings = (across start strings).map (later time) := by
  match strings with
  | [] => rfl
  | [a] => rfl
  | first :: second :: rest =>
      simp only [across]
      cases steps (first :: second :: rest) with
      | error fault => rfl
      | ok done => rfl

namespace Tuple

open Text (Cursor byteSize)

/-!
# Tuples of two texts
-/

theorem opening_moved (bytes : Nat) (t : Tuple) :
    (t.moved bytes).opening = t.opening + bytes := by
  cases hbrush : t.brush with
  | false => simp [opening, moved, Text.Span.moved, hbrush]
  | true =>
      simp only [opening, moved, Text.Span.moved, hbrush, if_true]
      omega

theorem Inner.lineEnd_not_mem {pairs duration ahead rest : List Char}
    (h : Inner pairs duration ahead rest) :
    '\n' ∉ '(' :: (pairs ++ ')' :: duration) := by
  intro hmem
  rcases List.mem_cons.mp hmem with heq | hmem
  · cases heq
  · rcases List.mem_append.mp hmem with hpairs | hback
    · cases h.pairs_digits _ hpairs
    · rcases List.mem_cons.mp hback with heq | hduration
      · cases heq
      · cases h.duration_digits _ hduration

theorem Inner.followed {pairs duration ahead rest other : List Char}
    (h : Inner pairs duration ahead rest)
    (hother : forall a, other.head? = some a -> a.isDigit = false) :
    Inner pairs duration (pairs ++ ')' :: (duration ++ other)) other :=
  { h with text := rfl, duration_ends := hother }

theorem Inner.exists_opens {pairs duration ahead rest : List Char}
    (h : Inner pairs duration ahead rest) (detect : Bool) (before : List Char) :
    exists t, Opens detect before ('(' :: ahead) t ∧ t.pairs = pairs ∧
      t.duration = duration := by
  let c := Cursor.between before.reverse ('(' :: ahead)
  have hbody : body? (c.pass ['('] ahead) = some ((pairs, duration), _) :=
    body?_eq_some_iff.mpr ⟨rest, h, rfl⟩
  have hopens : Opens detect c.behind.reverse ('(' :: ahead) _ := opens_opened hbody
  rw [show c.behind.reverse = before from List.reverse_reverse before] at hopens
  exact ⟨_, hopens, rfl, rfl⟩

theorem Opens.moved {detect : Bool} {before after : List Char} {t : Tuple}
    (h : Opens detect before after t) (front : List Char) :
    Opens detect (front ++ '\n' :: before) after (t.moved (byteSize front + 1)) := by
  have hsize : forall text : List Char,
      byteSize (front ++ '\n' :: text) = byteSize text + (byteSize front + 1) := by
    intro text
    rw [Text.byteSize_append, Text.byteSize_cons, show '\n'.utf8Size = 1 from rfl]
    omega
  refine ⟨h.inner, ?_, ?_, ?_⟩
  · rw [opening_moved, h.opening, hsize]
  · rw [List.append_assoc, List.cons_append, hsize]
    exact congrArg (· + (byteSize front + 1)) h.stop
  · refine h.brush.trans (and_congr_right fun _ => ?_)
    -- The line end is no marker.
    cases before with
    | nil =>
        rw [List.getLast?_append]
        simp [marker]
    | cons a before => simp [List.getLast?_append]

theorem Opens.moved_iff {detect : Bool} {front before after : List Char} {t : Tuple} :
    Opens detect (front ++ '\n' :: before) after t <->
      exists u, Opens detect before after u ∧ t = u.moved (byteSize front + 1) := by
  constructor
  · intro h
    rcases h.inner with ⟨ahead, rest, rfl, hinner⟩
    rcases hinner.exists_opens detect before with ⟨u, hu, hpairs, hduration⟩
    exact ⟨u, hu, h.ext (hu.moved front) hpairs.symm hduration.symm⟩
  · intro ⟨u, hu, ht⟩
    exact ht ▸ hu.moved front

theorem stands_append_iff {detect : Bool} {front back : List Char} {t : Tuple} :
    Stands detect (front ++ '\n' :: back) t <->
      Stands detect front t ∨
        exists u, Stands detect back u ∧ t = u.moved (byteSize front + 1) := by
  constructor
  · intro ⟨before, after, htext, hopens⟩
    rcases hopens.inner with ⟨ahead, rest, rfl, hinner⟩
    have hcore := hinner.lineEnd_not_mem
    have hahead : '(' :: ahead =
        '(' :: (t.pairs ++ ')' :: t.duration) ++ rest := by
      rw [hinner.text]
      simp
    rw [hahead] at htext
    rcases Text.split_at_separator htext hcore with ⟨more, hfront, hrest⟩ | ⟨more, hbefore, hback⟩
    · left
      have hmore : forall a, more.head? = some a -> a.isDigit = false := by
        intro a ha
        apply hinner.duration_ends
        rw [hrest, List.head?_append, ha]
        rfl
      refine ⟨before, _, hfront, ?_, hopens.opening, hopens.stop, hopens.brush⟩
      exact ⟨_, more, by simp, hinner.followed hmore⟩
    · right
      rw [hbefore, Opens.moved_iff] at hopens
      rcases hopens with ⟨u, hu, ht⟩
      rw [<- hahead] at hback
      exact ⟨u, ⟨more, _, hback, hu⟩, ht⟩
  · intro h
    rcases h with ⟨before, after, htext, hopens⟩ | ⟨u, ⟨before, after, htext, hopens⟩, rfl⟩
    · rcases hopens.inner with ⟨ahead, rest, rfl, hinner⟩
      have hends : forall a, (rest ++ '\n' :: back).head? = some a -> a.isDigit = false := by
        intro a ha
        cases rest with
        | nil =>
            injection ha with ha
            rw [<- ha]
            rfl
        | cons b rest => exact hinner.duration_ends a ha
      refine ⟨before, _, ?_, ⟨_, _, rfl, hinner.followed hends⟩, hopens.opening,
        hopens.stop, hopens.brush⟩
      rw [htext, hinner.text]
      simp
    · refine ⟨front ++ '\n' :: before, after, ?_, hopens.moved front⟩
      rw [htext]
      simp

theorem Stands.opening_lt {detect : Bool} {text : List Char} {t : Tuple}
    (h : Stands detect text t) : t.opening < byteSize text := by
  rcases h with ⟨before, after, htext, hopens⟩
  rcases hopens.inner with ⟨ahead, _, rfl, _⟩
  rw [hopens.opening, htext, Text.byteSize_append, Text.byteSize_cons]
  have hpos : 0 < '('.utf8Size := Nat.zero_lt_one
  omega

theorem all_append (detect : Bool) (front back : List Char) :
    all detect (front ++ '\n' :: back) =
      all detect front ++ (all detect back).map (moved (byteSize front + 1)) := by
  have hascending : Ascending (fun t => (t.opening : Int))
      (all detect front ++ (all detect back).map (moved (byteSize front + 1))) := by
    apply List.pairwise_append.mpr
    refine ⟨ascending_all detect front, ?_, ?_⟩
    · apply List.pairwise_map.mpr
      apply (ascending_all detect back).imp
      intro t u hlt
      simp only [opening_moved]
      exact Int.ofNat_lt.mpr (Nat.add_lt_add_right (Int.ofNat_lt.mp hlt) _)
    · intro t ht u hu
      rcases List.mem_map.mp hu with ⟨v, _, rfl⟩
      have hlt := (mem_all_iff.mp ht).opening_lt
      simp only [opening_moved]
      omega
  apply (ascending_all detect _).eq_of_mem_iff hascending
  intro t
  rw [mem_all_iff, stands_append_iff, List.mem_append, mem_all_iff, List.mem_map]
  simp only [mem_all_iff, eq_comm]

/-!
# Moved tuples
-/

theorem Valid.moved {t : Tuple} (h : t.Valid) (bytes : Nat) : (t.moved bytes).Valid :=
  ⟨h.lasts, h.sound, h.brush⟩

theorem PairFault.later {start : Int} {earlier : List (Nat × Nat)} {pair : Nat × Nat}
    {fault : TupleFault} (h : PairFault start earlier pair fault) (time : Int) :
    PairFault (time + start) earlier pair (fault.later time) := by
  cases h with
  | unknownString hnumber => exact PairFault.unknownString hnumber
  | positionTooLarge hnumber hlarge => exact PairFault.positionTooLarge hnumber hlarge
  | conflict hnumber hposition hmem => exact PairFault.conflict hnumber hposition hmem

theorem FirstFault.moved {start : Int} {t : Tuple} {fault : TupleFault}
    (h : t.FirstFault start fault) (bytes : Nat) (time : Int) :
    (t.moved bytes).FirstFault (time + start) (fault.later time) := by
  cases h with
  | noDuration hzero => exact FirstFault.noDuration hzero
  | durationTooLong hlong => exact FirstFault.durationTooLong hlong
  | pair hlasts hsplit hsound hfault =>
      exact FirstFault.pair hlasts hsplit hsound (hfault.later time)
  | brushTooNarrow hlasts hsound hbrush hshort =>
      exact FirstFault.brushTooNarrow hlasts hsound hbrush hshort
  | brushSkips hlasts hsound hbrush hskip =>
      exact FirstFault.brushSkips hlasts hsound hbrush hskip

theorem note?_moved (s : StringId) (bytes : Nat) (time start : Int) (t : Tuple) :
    note? s (time + start, t.moved bytes) =
      (note? s (start, t)).map (Note.later time) := by
  unfold note?
  rw [Option.map_map]
  rfl

theorem stroke?_moved (bytes : Nat) (time start : Int) (t : Tuple) :
    stroke? (time + start, t.moved bytes) =
      (stroke? (start, t)).map (Brush.later time) := by
  show (if t.brush then (Brush.across (time + start) t.touched).toOption else none) =
    (if t.brush then (Brush.across start t.touched).toOption else none).map
      (Brush.later time)
  rw [Brush.across_later]
  cases t.brush with
  | false => rfl
  | true =>
      cases Brush.across start t.touched with
      | error fault => rfl
      | ok b => rfl

theorem timed_moved (bytes : Nat) (time : Int) (tuples : List Tuple) :
    forall start : Int,
      timed (time + start) (tuples.map (moved bytes)) =
        (timed start tuples).map (fun entry => (time + entry.1, entry.2.moved bytes)) := by
  induction tuples with
  | nil =>
      intro start
      rfl
  | cons t rest ih =>
      intro start
      rw [List.map_cons, timed, timed, List.map_cons, Int.add_assoc, <- ih]
      rfl

end Tuple

namespace Score

/-- Whether a score plays a first one and then a second one. -/
structure Joins (first second whole : Score) : Prop where
  length : whole.length = first.length + second.length
  notes : forall s, (whole.timeline s).notes =
    (first.timeline s).notes ++ (second.timeline s).notes.map (Note.later first.length)
  brushes : whole.brushes = first.brushes ++ second.brushes.map (Brush.later first.length)

theorem Holds.joins {front back : List Tuple} {first second whole : Score} {bytes : Nat}
    (hfirst : Holds front first) (hsecond : Holds back second)
    (hwhole : Holds (front ++ back.map (Tuple.moved bytes)) whole) :
    Joins first second whole := by
  have htimed : Tuple.timed 0 (front ++ back.map (Tuple.moved bytes)) =
      Tuple.timed 0 front ++
        (Tuple.timed 0 back).map
          (fun entry => (first.length + entry.1, entry.2.moved bytes)) := by
    rw [Tuple.timed_append, <- Tuple.timed_moved, hfirst.length, Int.zero_add, Int.add_zero]
  constructor
  · rw [hwhole.length, hfirst.length, hsecond.length, List.map_append, List.map_map,
      List.sum_append]
    rfl
  · intro s
    rw [hwhole.notes, htimed, List.filterMap_append, <- hfirst.notes, hsecond.notes,
      List.filterMap_map, List.map_filterMap]
    congr 2
    funext entry
    exact Tuple.note?_moved s bytes first.length entry.1 entry.2
  · rw [hwhole.brushes, htimed, List.filterMap_append, <- hfirst.brushes, hsecond.brushes,
      List.filterMap_map, List.map_filterMap]
    congr 2
    funext entry
    exact Tuple.stroke?_moved bytes first.length entry.1 entry.2

theorem ofTuples_append_eq_error {front : List Tuple} {e : ScoreError}
    (h : ofTuples front = .error e) (back : List Tuple) :
    ofTuples (front ++ back) = .error e := by
  unfold ofTuples at h ⊢
  rw [List.foldlM_append, h]
  rfl

section Joining

variable {front back : List Tuple}
  (hfront : forall t, t ∈ front -> forall pair, pair ∈ t.attacks -> pair.1 <= 9)
  (hback : forall t, t ∈ back -> forall pair, pair ∈ t.attacks -> pair.1 <= 9)
  (bytes : Nat)
include hfront hback

theorem digits_of_mem_joined : forall t, t ∈ front ++ back.map (Tuple.moved bytes) ->
    forall pair, pair ∈ t.attacks -> pair.1 <= 9 := by
  intro t ht
  rcases List.mem_append.mp ht with ht | ht
  · exact hfront t ht
  · rcases List.mem_map.mp ht with ⟨u, hu, rfl⟩
    exact hback u hu

variable {first : Score} (hfirst : ofTuples front = .ok first)
include hfirst

theorem ofTuples_joined_eq_error {e : ScoreError} (h : ofTuples back = .error e) :
    ofTuples (front ++ back.map (Tuple.moved bytes)) =
      .error (e.behind bytes first.length) := by
  have hvalid := (ofTuples_ok_iff hfront).mp ⟨first, hfirst⟩
  rcases (ofTuples_eq_error_iff hback).mp h with
    ⟨earlier, t, later, rfl, hearlier, hinvalid, hspan, hfault⟩
  apply (ofTuples_eq_error_iff (digits_of_mem_joined hfront hback bytes)).mpr
  refine ⟨front ++ earlier.map (Tuple.moved bytes), t.moved bytes,
    later.map (Tuple.moved bytes), by simp, ?_, ?_, ?_, ?_⟩
  · intro u hu
    rcases List.mem_append.mp hu with hu | hu
    · exact hvalid u hu
    · rcases List.mem_map.mp hu with ⟨v, hv, rfl⟩
      exact (hearlier v hv).moved bytes
  · intro hmoved
    exact hinvalid ⟨hmoved.lasts, hmoved.sound, hmoved.brush⟩
  · exact congrArg (Text.Span.moved bytes) hspan
  · have hstart : ((((front ++ earlier.map (Tuple.moved bytes)).map Tuple.value).sum : Nat) :
        Int) = first.length + ((earlier.map Tuple.value).sum : Nat) := by
      rw [(holds_ofTuples hfront hfirst).length, List.map_append, List.map_map,
        List.sum_append]
      rfl
    rw [hstart]
    exact hfault.moved bytes first.length

theorem ofTuples_joined_eq_ok {second : Score} (hsecond : ofTuples back = .ok second) :
    exists whole, ofTuples (front ++ back.map (Tuple.moved bytes)) = .ok whole ∧
      Joins first second whole := by
  have hdigits := digits_of_mem_joined hfront hback bytes
  have hvalid : forall t, t ∈ front ++ back.map (Tuple.moved bytes) -> t.Valid := by
    intro t ht
    rcases List.mem_append.mp ht with ht | ht
    · exact (ofTuples_ok_iff hfront).mp ⟨first, hfirst⟩ t ht
    · rcases List.mem_map.mp ht with ⟨u, hu, rfl⟩
      exact ((ofTuples_ok_iff hback).mp ⟨second, hsecond⟩ u hu).moved bytes
  rcases (ofTuples_ok_iff hdigits).mpr hvalid with ⟨whole, hwhole⟩
  exact ⟨whole, hwhole, (holds_ofTuples hfront hfirst).joins
    (holds_ofTuples hback hsecond) (holds_ofTuples hdigits hwhole)⟩

end Joining

theorem exists_joins_of_read {detect : Bool} {front back : List Char} {whole : Score}
    (h : read detect (front ++ '\n' :: back) = .ok whole) :
    exists first second, read detect front = .ok first ∧ read detect back = .ok second ∧
      Joins first second whole := by
  have hdigits : forall text t, t ∈ Tuple.all detect text ->
      forall pair, pair ∈ t.attacks -> pair.1 <= 9 :=
    fun _ _ ht => Tuple.number_le_of_mem_attacks ht
  rw [read, Tuple.all_append] at h
  cases hfirst : read detect front with
  | error e => cases h.symm.trans (ofTuples_append_eq_error hfirst _)
  | ok first =>
      cases hsecond : read detect back with
      | error e =>
          cases h.symm.trans
            (ofTuples_joined_eq_error (hdigits front) (hdigits back) _ hfirst hsecond)
      | ok second =>
          rcases ofTuples_joined_eq_ok (hdigits front) (hdigits back) _ hfirst hsecond with
            ⟨joined, hjoined, hjoins⟩
          have hsame := h.symm.trans hjoined
          injection hsame with hsame
          exact ⟨first, second, rfl, rfl, hsame ▸ hjoins⟩

/--
A text in front of a line end and one behind it are read one after the other.  An error
of the first text stays, and one of the second text is found behind the first; if there
is none, the notes and brushes of the second score follow those of the first.
-/
theorem reading_is_compositional (detect : Bool) (front back : List Char) :
    (forall e, read detect front = .error e ->
      read detect (front ++ '\n' :: back) = .error e) ∧
    forall first, read detect front = .ok first ->
      (forall e, read detect back = .error e ->
        read detect (front ++ '\n' :: back) =
          .error (e.behind (Text.byteSize front + 1) first.length)) ∧
      forall second, read detect back = .ok second ->
        exists whole, read detect (front ++ '\n' :: back) = .ok whole ∧
          Joins first second whole := by
  have hwhole : read detect (front ++ '\n' :: back) =
      ofTuples (Tuple.all detect front ++
        (Tuple.all detect back).map (Tuple.moved (Text.byteSize front + 1))) := by
    rw [read, Tuple.all_append]
  have hdigits : forall text t, t ∈ Tuple.all detect text ->
      forall pair, pair ∈ t.attacks -> pair.1 <= 9 :=
    fun _ _ ht => Tuple.number_le_of_mem_attacks ht
  rw [hwhole]
  constructor
  · intro e he
    exact ofTuples_append_eq_error he _
  · intro first hfirst
    constructor
    · intro e he
      exact ofTuples_joined_eq_error (hdigits front) (hdigits back) _ hfirst he
    · intro second hsecond
      exact ofTuples_joined_eq_ok (hdigits front) (hdigits back) _ hfirst hsecond

/-- The time of the conflict counts the divisions of the text in front. -/
example :
    read false "(11)2\n(12)1 (1012)1".toList = .error ⟨⟨12, 19⟩, .conflict ⟨0⟩ 3⟩ := by
  decide +kernel

example :
    (read true "(11)2\n^(1222)1".toList).toOption.map
        (fun score => ((score.timeline ⟨0⟩).notes, score.brushes, score.length)) =
      some ([⟨0, 1, 2⟩, ⟨2, 2, 1⟩], [⟨2, ⟨0⟩, ⟨1⟩⟩], 3) := by
  decide +kernel

end Score
end Plectrum

import Plectrum.Proofs.Ascending
import Plectrum.Proofs.Score.Tuple

/-!
# The grammar of tuples

Where a tuple opens depends on the text around it only: behind its parenthesis stand
the digits of its pairs, a closing parenthesis and the digits of its duration.  Reading
leaves no tuple out and takes none twice, since none opens inside another one.
-/

namespace Plectrum

namespace Text
namespace Cursor

/-!
# What a cursor reads
-/

theorem pass_pass (c : Cursor) (front mid next rest : List Char) :
    (c.pass front mid).pass next rest = c.pass (front ++ next) rest := by
  simp [pass, byteSize_append, Nat.add_assoc]

theorem eat?_eq_some_iff {c d : Cursor} {expected : Char} :
    c.eat? expected = some d <->
      exists rest, c.ahead = expected :: rest ∧ d = c.pass [expected] rest := by
  unfold eat?
  cases hnext : c.next? with
  | none =>
      rw [next?_eq_none_iff.mp hnext]
      simp
  | some found =>
      cases found with
      | mk a past =>
          rcases next?_eq_some_iff.mp hnext with ⟨rest, hahead, rfl⟩
          rw [hahead]
          by_cases ha : a = expected
          · subst ha
            simp [eq_comm]
          · simp [ha]

theorem takeWhile_of_append {p : Char -> Bool} {c : Cursor} {run rest : List Char}
    (hahead : c.ahead = run ++ rest) (hrun : forall a, a ∈ run -> p a = true)
    (hrest : forall a, rest.head? = some a -> p a = false) :
    c.takeWhile p = (run, c.pass run rest) := by
  have htake : c.ahead.takeWhile p = run := by
    rw [hahead, List.takeWhile_append_of_pos hrun]
    cases rest with
    | nil => simp
    | cons a back => simp [hrest a rfl]
  have hdrop : c.ahead.dropWhile p = rest := by
    rw [hahead, List.dropWhile_append_of_pos hrun]
    cases rest with
    | nil => rfl
    | cons a back => simp [hrest a rfl]
  rw [takeWhile, htake, hdrop]

theorem takeWhile_cases (p : Char -> Bool) (c : Cursor) :
    exists run rest, c.ahead = run ++ rest ∧ (forall a, a ∈ run -> p a = true) ∧
      (forall a, rest.head? = some a -> p a = false) ∧
        c.takeWhile p = (run, c.pass run rest) := by
  refine ⟨c.ahead.takeWhile p, c.ahead.dropWhile p, ?_, ?_, ?_, rfl⟩
  · exact List.takeWhile_append_dropWhile.symm
  · intro a ha
    exact List.all_eq_true.mp List.all_takeWhile a ha
  · intro a ha
    have hstop := List.head?_dropWhile_not p c.ahead
    rw [ha] at hstop
    exact hstop

theorem not_mem_of_skipPast {c d : Cursor} {target : Char}
    (h : c.skipPast target = (none, d)) : target ∉ c.ahead := by
  rcases takeWhile_cases (fun a => a != target) c with
    ⟨front, rest, hahead, hrun, _, htake⟩
  unfold skipPast at h
  rw [htake] at h
  cases rest with
  | nil =>
      rw [hahead, List.append_nil]
      intro hmem
      simpa using hrun target hmem
  | cons a back => cases h

theorem skipPast_eq_some {c d : Cursor} {target : Char} {offset : Nat}
    (h : c.skipPast target = (some offset, d)) :
    exists front rest, c.ahead = front ++ target :: rest ∧ target ∉ front ∧
      offset = (c.pass front (target :: rest)).offset ∧
        d = (c.pass front (target :: rest)).pass [target] rest := by
  rcases takeWhile_cases (fun a => a != target) c with
    ⟨front, rest, hahead, hrun, hstop, htake⟩
  unfold skipPast at h
  rw [htake] at h
  cases rest with
  | nil => cases h
  | cons a back =>
      have ha : a = target := by simpa using hstop a rfl
      subst ha
      injection h with hoffset hd
      injection hoffset with hoffset
      refine ⟨front, back, hahead, ?_, hoffset.symm, hd.symm⟩
      intro hmem
      simpa using hrun a hmem

end Cursor
end Text

namespace Tuple

open Text (Cursor byteSize)

/-!
# The grammar
-/

/-- Whether a text begins with the digits of a tuple, from behind its parenthesis on. -/
structure Inner (pairs duration ahead rest : List Char) : Prop where
  text : ahead = pairs ++ ')' :: (duration ++ rest)
  pairs_digits : forall a, a ∈ pairs -> a.isDigit = true
  pairs_ne_nil : pairs ≠ []
  pairs_even : pairs.length % 2 = 0
  duration_digits : forall a, a ∈ duration -> a.isDigit = true
  duration_ne_nil : duration ≠ []
  /-- The run of digits ends here. -/
  duration_ends : forall a, rest.head? = some a -> a.isDigit = false

def opening (t : Tuple) : Nat :=
  if t.brush then t.span.start + marker.utf8Size else t.span.start

structure Opens (detect : Bool) (before after : List Char) (t : Tuple) : Prop where
  inner : exists ahead rest, after = '(' :: ahead ∧ Inner t.pairs t.duration ahead rest
  opening : t.opening = byteSize before
  stop : t.span.stop = byteSize (before ++ '(' :: (t.pairs ++ ')' :: t.duration))
  brush : t.brush = true <-> detect = true ∧ before.getLast? = some marker

def Stands (detect : Bool) (text : List Char) (t : Tuple) : Prop :=
  exists before after, text = before ++ after ∧ Opens detect before after t

/-- The tuples that are read from a cursor on, until there is no further one. -/
inductive Reads (detect : Bool) : Cursor -> List Tuple -> Prop where
  | done {c : Cursor} : next? detect c = none -> Reads detect c []
  | read {c rest : Cursor} {t : Tuple} {ts : List Tuple} :
      next? detect c = some (t, rest) -> Reads detect rest ts -> Reads detect c (t :: ts)

theorem body?_eq_some_iff {c d : Cursor} {digits : List Char × List Char} :
    body? c = some (digits, d) <->
      exists rest, Inner digits.1 digits.2 c.ahead rest ∧
        d = c.pass (digits.1 ++ ')' :: digits.2) rest := by
  constructor
  · intro h
    rcases Cursor.takeWhile_cases Char.isDigit c with ⟨pairs, mid, hahead, hpairs, _, htake⟩
    unfold body? at h
    rw [htake] at h
    simp only at h
    split at h
    · cases h
    · rename_i hshape
      simp only [Bool.or_eq_true, List.isEmpty_iff, bne_iff_ne, not_or, Decidable.not_not]
        at hshape
      split at h
      · cases h
      · rename_i closed heat
        rcases Cursor.eat?_eq_some_iff.mp heat with ⟨behind, hmid, rfl⟩
        rcases Cursor.takeWhile_cases Char.isDigit ((c.pass pairs mid).pass [')'] behind) with
          ⟨duration, rest, hbehind, hduration, hends, hlast⟩
        rw [hlast] at h
        simp only at h
        split at h
        · cases h
        · rename_i hne
          injection h with h
          injection h with hdigits hd
          subst hdigits
          change mid = _ at hmid
          change behind = _ at hbehind
          refine ⟨rest, ⟨?_, hpairs, hshape.left, hshape.right, hduration, ?_, hends⟩, ?_⟩
          · rw [hahead, hmid, hbehind]
          · exact mt List.isEmpty_iff.mpr hne
          · rw [<- hd, Cursor.pass_pass, Cursor.pass_pass]
            simp
  · intro ⟨rest, h, hd⟩
    have hends : forall a, (')' :: (digits.2 ++ rest)).head? = some a ->
        a.isDigit = false := by
      intro a ha
      injection ha with ha
      rw [<- ha]
      rfl
    have hpairs := Cursor.takeWhile_of_append h.text h.pairs_digits hends
    have hclose : (c.pass digits.1 (')' :: (digits.2 ++ rest))).eat? ')' =
        some ((c.pass digits.1 (')' :: (digits.2 ++ rest))).pass [')'] (digits.2 ++ rest)) :=
      Cursor.eat?_eq_some_iff.mpr ⟨_, rfl, rfl⟩
    have hduration := Cursor.takeWhile_of_append
      (c := (c.pass digits.1 (')' :: (digits.2 ++ rest))).pass [')'] (digits.2 ++ rest))
      rfl h.duration_digits h.duration_ends
    have hshape : (digits.1.isEmpty || digits.1.length % 2 != 0) = false := by
      simp [h.pairs_ne_nil, h.pairs_even]
    have hne : digits.2.isEmpty = false := by
      simp [h.duration_ne_nil]
    unfold body?
    rw [hpairs]
    simp only [hshape, hclose, hduration, hne, Bool.false_eq_true, if_false]
    rw [hd, Cursor.pass_pass, Cursor.pass_pass]
    simp

/-!
# Tuples that open ahead of a cursor
-/

/-- No tuple opens among the digits of another one. -/
theorem Inner.not_mem {pairs duration ahead rest : List Char}
    (h : Inner pairs duration ahead rest) : '(' ∉ pairs ++ ')' :: duration := by
  have hdigits : forall run : List Char, (forall a, a ∈ run -> a.isDigit = true) ->
      '(' ∉ run := by
    intro run hrun hmem
    cases hrun '(' hmem
  intro hmem
  rcases List.mem_append.mp hmem with hpairs | hback
  · exact hdigits pairs h.pairs_digits hpairs
  · rcases List.mem_cons.mp hback with hclose | hduration
    · cases hclose
    · exact hdigits duration h.duration_digits hduration

def OpensAhead (detect : Bool) (c : Cursor) (t : Tuple) : Prop :=
  exists between after, c.ahead = between ++ after ∧
    Opens detect (c.behind.reverse ++ between) after t

theorem opensAhead_start {detect : Bool} {text : List Char} {t : Tuple} :
    OpensAhead detect (Cursor.start text) t <-> Stands detect text t :=
  Iff.rfl

theorem OpensAhead.offset_le {detect : Bool} {c : Cursor} {t : Tuple}
    (h : OpensAhead detect c t) : c.offset <= t.opening := by
  rcases h with ⟨between, after, _, hopens⟩
  rw [hopens.opening, c.offset_eq, Text.byteSize_append, Text.byteSize_reverse]
  exact Nat.le_add_right _ _

theorem opensAhead_pass_iff {detect : Bool} {c : Cursor} {front rest : List Char}
    (hahead : c.ahead = front ++ rest) (hfront : '(' ∉ front) {t : Tuple} :
    OpensAhead detect c t <-> OpensAhead detect (c.pass front rest) t := by
  constructor
  · rintro ⟨between, after, hsplit, hopens⟩
    rcases hopens.inner with ⟨inside, _, hafter, _⟩
    rw [hahead] at hsplit
    rcases List.append_eq_append_iff.mp hsplit with
      ⟨more, hbetween, hrest⟩ | ⟨more, hmore, hrest⟩
    · refine ⟨more, after, hrest, ?_⟩
      rw [hbetween] at hopens
      simpa [Cursor.pass] using hopens
    · cases more with
      | nil =>
          refine ⟨[], after, hrest.symm, ?_⟩
          rw [List.append_nil] at hmore
          simpa [Cursor.pass, hmore] using hopens
      | cons a back =>
          rw [hafter, List.cons_append] at hrest
          injection hrest with ha _
          rw [hmore, <- ha] at hfront
          exact absurd (List.mem_append_right between List.mem_cons_self) hfront
  · rintro ⟨between, after, hsplit, hopens⟩
    change rest = _ at hsplit
    refine ⟨front ++ between, after, ?_, ?_⟩
    · rw [hahead, hsplit, List.append_assoc]
    · simpa [Cursor.pass] using hopens

theorem opensAhead_cons_iff {detect : Bool} {c : Cursor} {rest : List Char}
    (hahead : c.ahead = '(' :: rest) {t : Tuple} :
    OpensAhead detect c t <->
      Opens detect c.behind.reverse ('(' :: rest) t ∨
        OpensAhead detect (c.pass ['('] rest) t := by
  constructor
  · intro ⟨between, after, hsplit, hopens⟩
    rw [hahead] at hsplit
    cases between with
    | nil =>
        apply Or.inl
        rw [List.append_nil] at hopens
        rw [hsplit]
        exact hopens
    | cons a between =>
        injection hsplit with ha hrest
        refine Or.inr ⟨between, after, hrest, ?_⟩
        subst ha
        simpa [Cursor.pass] using hopens
  · intro h
    rcases h with hhere | ⟨between, after, hsplit, hopens⟩
    · refine ⟨[], '(' :: rest, hahead, ?_⟩
      rw [List.append_nil]
      exact hhere
    · change rest = _ at hsplit
      refine ⟨'(' :: between, after, ?_, ?_⟩
      · rw [hahead, hsplit]
        rfl
      · simpa [Cursor.pass] using hopens

/-!
# One parenthesis
-/

theorem marked_pass_iff {c : Cursor} {rest : List Char} :
    marked (c.pass ['('] rest) = true <-> c.behind.reverse.getLast? = some marker := by
  unfold marked
  rw [List.getLast?_reverse]
  simp [Cursor.pass, List.head?_eq_getElem?]

theorem opens_opened {detect : Bool} {c d : Cursor} {rest : List Char}
    {digits : List Char × List Char} (h : body? (c.pass ['('] rest) = some (digits, d)) :
    Opens detect c.behind.reverse ('(' :: rest)
      (opened detect c.offset (c.pass ['('] rest) d digits) := by
  rcases body?_eq_some_iff.mp h with ⟨behind, hinner, rfl⟩
  have hbefore : byteSize c.behind.reverse = c.offset := by
    rw [Text.byteSize_reverse, c.offset_eq]
  have hbrush : (detect && marked (c.pass ['('] rest)) = true <->
      detect = true ∧ c.behind.reverse.getLast? = some marker := by
    rw [Bool.and_eq_true, marked_pass_iff]
  refine ⟨⟨rest, behind, rfl, hinner⟩, ?_, ?_, hbrush⟩
  · rw [hbefore]
    unfold opening opened
    by_cases hmarked : (detect && marked (c.pass ['('] rest)) = true
    · -- The marker stands before the parenthesis, so its size can be taken off.
      have hsize : marker.utf8Size <= c.offset := by
        rw [<- hbefore, <- List.dropLast_append_getLast? _ (hbrush.mp hmarked).right,
          Text.byteSize_append]
        exact Nat.le_add_left _ _
      simp only [if_pos hmarked]
      exact Nat.sub_add_cancel hsize
    · simp only [if_neg hmarked]
  · rw [Text.byteSize_append, hbefore]
    show c.offset + byteSize ['('] + byteSize (digits.1 ++ ')' :: digits.2) = _
    rw [Nat.add_assoc, <- Text.byteSize_append]
    rfl

theorem Opens.ext {detect : Bool} {before after : List Char} {t u : Tuple}
    (ht : Opens detect before after t) (hu : Opens detect before after u)
    (hpairs : t.pairs = u.pairs) (hduration : t.duration = u.duration) : t = u := by
  have hbrush : t.brush = u.brush := Bool.eq_iff_iff.mpr (ht.brush.trans hu.brush.symm)
  have hopening := ht.opening.trans hu.opening.symm
  have hstop : t.span.stop = u.span.stop := by
    rw [ht.stop, hu.stop, hpairs, hduration]
  have hstart : t.span.start = u.span.start := by
    unfold Tuple.opening at hopening
    rw [hbrush] at hopening
    split at hopening
    · exact Nat.add_right_cancel hopening
    · exact hopening
  cases t with
  | mk span brush pairs duration =>
      cases u with
      | mk span' brush' pairs' duration' =>
          cases span
          cases span'
          simp only at hpairs hduration hbrush hstart hstop
          rw [hpairs, hduration, hbrush, hstart, hstop]

/-- The tuple that opens at a parenthesis is the one that is read there. -/
theorem opens_iff {detect : Bool} {c : Cursor} {rest : List Char} {t : Tuple} :
    Opens detect c.behind.reverse ('(' :: rest) t <->
      exists digits d, body? (c.pass ['('] rest) = some (digits, d) ∧
        t = opened detect c.offset (c.pass ['('] rest) d digits := by
  constructor
  · intro h
    rcases h.inner with ⟨ahead, behind, hrest, hinner⟩
    injection hrest with _ hrest
    subst hrest
    have hbody : body? (c.pass ['('] rest) = some ((t.pairs, t.duration), _) :=
      body?_eq_some_iff.mpr ⟨behind, hinner, rfl⟩
    exact ⟨_, _, hbody, h.ext (opens_opened hbody) rfl rfl⟩
  · intro ⟨digits, d, hbody, ht⟩
    rw [ht]
    exact opens_opened hbody

/-!
# The next tuple
-/

theorem not_opensAhead {detect : Bool} {c : Cursor} (h : '(' ∉ c.ahead) (t : Tuple) :
    ¬ OpensAhead detect c t := by
  intro ⟨between, after, hsplit, hopens⟩
  rcases hopens.inner with ⟨inside, _, hafter, _⟩
  apply h
  rw [hsplit, hafter]
  exact List.mem_append_right between List.mem_cons_self

theorem opensAhead_body_iff {detect : Bool} {c d : Cursor}
    {digits : List Char × List Char} (h : body? c = some (digits, d)) {t : Tuple} :
    OpensAhead detect c t <-> OpensAhead detect d t := by
  rcases body?_eq_some_iff.mp h with ⟨rest, hinner, rfl⟩
  apply opensAhead_pass_iff _ hinner.not_mem
  rw [hinner.text]
  simp

theorem opening_lt_of_body {detect : Bool} {c d : Cursor} {rest : List Char}
    {digits : List Char × List Char} (h : body? (c.pass ['('] rest) = some (digits, d)) :
    (opened detect c.offset (c.pass ['('] rest) d digits).opening < d.offset := by
  rw [(opens_opened h).opening, Text.byteSize_reverse, <- c.offset_eq]
  rcases body?_eq_some_iff.mp h with ⟨behind, _, rfl⟩
  have hparenthesis : c.offset < (c.pass ['('] rest).offset := Nat.lt_succ_self c.offset
  exact Nat.lt_of_lt_of_le hparenthesis (Nat.le_add_right _ _)

theorem next?_spec (detect : Bool) (c : Cursor) :
    match next? detect c with
    | none => forall t, ¬ OpensAhead detect c t
    | some (u, d) => u.opening < d.offset ∧
        forall t, OpensAhead detect c t <-> t = u ∨ OpensAhead detect d t := by
  induction c using next?.induct with
  | case1 c past hskip =>
      rw [next?, hskip]
      exact not_opensAhead (Cursor.not_mem_of_skipPast hskip)
  | case2 c offset inner hskip digits d hbody =>
      rw [next?, hskip]
      simp only [hbody]
      rcases Cursor.skipPast_eq_some hskip with ⟨front, rest, hahead, hfront, rfl, rfl⟩
      refine ⟨opening_lt_of_body hbody, ?_⟩
      intro t
      rw [opensAhead_pass_iff hahead hfront, opensAhead_cons_iff rfl, opens_iff, hbody,
        opensAhead_body_iff hbody]
      simp
  | case3 c offset inner hskip hbody ih =>
      rw [next?, hskip]
      simp only [hbody]
      rcases Cursor.skipPast_eq_some hskip with ⟨front, rest, hahead, hfront, rfl, rfl⟩
      -- Nothing opens at this parenthesis, so what opens ahead opens behind it.
      have hsame : forall t, OpensAhead detect c t <->
          OpensAhead detect ((c.pass front ('(' :: rest)).pass ['('] rest) t := by
        intro t
        rw [opensAhead_pass_iff hahead hfront, opensAhead_cons_iff rfl, opens_iff, hbody]
        simp
      simp only [hsame]
      exact ih

/-!
# All tuples
-/

theorem reads_allFrom (detect : Bool) (c : Cursor) :
    Reads detect c (allFrom detect [] c) := by
  induction c using allFrom_induction detect with
  | hnone c h =>
      rw [allFrom_of_next_none h]
      exact Reads.done h
  | hsome c t rest h ih =>
      rw [allFrom_cons h]
      exact Reads.read h ih

theorem Reads.spec {detect : Bool} {c : Cursor} {ts : List Tuple} (h : Reads detect c ts) :
    (forall t, t ∈ ts <-> OpensAhead detect c t) ∧
      ts.Pairwise (fun t u => t.opening < u.opening) := by
  induction h with
  | @done c hnext =>
      have hspec := next?_spec detect c
      rw [hnext] at hspec
      refine ⟨?_, List.Pairwise.nil⟩
      intro t
      simp [hspec t]
  | @read c rest t ts hnext _ ih =>
      rcases ih with ⟨hmem, hordered⟩
      have hspec := next?_spec detect c
      rw [hnext] at hspec
      rcases hspec with ⟨hlt, hopens⟩
      constructor
      · intro u
        rw [List.mem_cons, hmem, hopens]
      · apply List.pairwise_cons.mpr
        refine ⟨?_, hordered⟩
        intro u hu
        exact Nat.lt_of_lt_of_le hlt ((hmem u).mp hu).offset_le

theorem mem_all_iff {detect : Bool} {text : List Char} {t : Tuple} :
    t ∈ all detect text <-> Stands detect text t :=
  (reads_allFrom detect (Cursor.start text)).spec.left t

theorem pairwise_all (detect : Bool) (text : List Char) :
    (all detect text).Pairwise (fun t u => t.opening < u.opening) :=
  (reads_allFrom detect (Cursor.start text)).spec.right

theorem ascending_all (detect : Bool) (text : List Char) :
    Ascending (fun t => (t.opening : Int)) (all detect text) :=
  (pairwise_all detect text).imp Int.ofNat_lt.mpr

/-- Whether these are the tuples in front of one that stands in a text, in their order. -/
structure StandsBehind (detect : Bool) (text : List Char) (earlier : List Tuple) (t : Tuple) :
    Prop where
  stands : Stands detect text t
  ordered : earlier.Pairwise (fun u v => u.opening < v.opening)
  mem_iff : forall u, u ∈ earlier <-> Stands detect text u ∧ u.opening < t.opening

theorem mem_front_iff {detect : Bool} {text : List Char} {front later : List Tuple} {t : Tuple}
    (h : all detect text = front ++ t :: later) {u : Tuple} :
    u ∈ front <-> Stands detect text u ∧ u.opening < t.opening := by
  have hascending := pairwise_all detect text
  rw [h] at hascending
  rcases List.pairwise_append.mp hascending with ⟨_, hback, hless⟩
  rw [<- mem_all_iff, h, List.mem_append, List.mem_cons]
  constructor
  · intro hu
    exact ⟨Or.inl hu, hless u hu t List.mem_cons_self⟩
  · intro ⟨hmem, hlt⟩
    rcases hmem with hu | rfl | hu
    · exact hu
    · exact absurd hlt (Nat.lt_irrefl _)
    · exact absurd hlt (Nat.lt_asymm ((List.pairwise_cons.mp hback).left u hu))

theorem standsBehind_iff {detect : Bool} {text : List Char} {earlier : List Tuple} {t : Tuple} :
    StandsBehind detect text earlier t <->
      exists later, all detect text = earlier ++ t :: later := by
  have hordered : forall {front later}, all detect text = front ++ t :: later ->
      front.Pairwise (fun u v => u.opening < v.opening) := by
    intro front later h
    exact (List.pairwise_append.mp (h ▸ pairwise_all detect text)).left
  constructor
  · intro h
    rcases List.append_of_mem (mem_all_iff.mpr h.stands) with ⟨front, later, hall⟩
    have hsame : front = earlier := by
      apply Ascending.eq_of_mem_iff ((hordered hall).imp Int.ofNat_lt.mpr)
        (h.ordered.imp Int.ofNat_lt.mpr)
      intro u
      rw [h.mem_iff, mem_front_iff hall]
    exact ⟨later, hsame ▸ hall⟩
  · intro ⟨later, hall⟩
    have ht : t ∈ all detect text := hall ▸ List.mem_append_right earlier List.mem_cons_self
    exact ⟨mem_all_iff.mp ht, hordered hall, fun _ => mem_front_iff hall⟩

theorem pairs_digits_of_mem_all {detect : Bool} {text : List Char} {t : Tuple}
    (h : t ∈ all detect text) : forall a, a ∈ t.pairs -> a.isDigit = true := by
  rcases mem_all_iff.mp h with ⟨_, _, _, hopens⟩
  rcases hopens.inner with ⟨_, _, _, hinner⟩
  exact hinner.pairs_digits

/--
Reading a text tuple by tuple gives exactly the tuples that stand in it, in the order
of their parentheses and no two at the same one, and then there is no further one.
-/
theorem reading_finds_the_grammar (detect : Bool) (text : List Char) :
    Reads detect (Cursor.start text) (all detect text) ∧
      (forall t, t ∈ all detect text <-> Stands detect text t) ∧
        (all detect text).Pairwise (fun t u => t.opening < u.opening) := by
  have hreads := reads_allFrom detect (Cursor.start text)
  rcases hreads.spec with ⟨hmem, hordered⟩
  refine ⟨hreads, ?_, hordered⟩
  intro t
  exact (hmem t).trans opensAhead_start

end Tuple
end Plectrum

import Plectrum.Proofs.Machine.Places
import Plectrum.Proofs.Text.Excerpt

/-!
# Places in the order of their offsets

The line of an offset is looked up among the offsets of the line breaks, and a search may
answer with where the offset is or with where it would be put in.  Either way the place
counts what is in front of the offset.  So a later offset has a later place.
-/

namespace Plectrum

/-!
# Places
-/

namespace Text

/-- Whether an offset lies between two characters of a text, or at one of its ends. -/
def Boundary (text : List Char) (offset : Nat) : Prop :=
  exists front back, text = front ++ back ∧ offset = byteSize front

namespace Place

structure Counts (p : Place) (front : List Char) : Prop where
  line : p.line = front.count '\n' + 1
  column : exists earlier rest, front = earlier ++ rest ∧
    (earlier = [] ∨ earlier.getLast? = some '\n') ∧ '\n' ∉ rest ∧ p.column = rest.length + 1

def Before (p q : Place) : Prop :=
  p.line < q.line ∨ p.line = q.line ∧ p.column < q.column

theorem Before.ne {p q : Place} (h : p.Before q) : p ≠ q := by
  intro heq
  rw [heq] at h
  rcases h with hline | ⟨_, hcolumn⟩
  · exact Nat.lt_irrefl _ hline
  · exact Nat.lt_irrefl _ hcolumn

end Place

theorem place?_eq_some_iff {text : List Char} {offset : Nat} {p : Place} :
    place? text offset = some p <->
      exists front back, text = front ++ back ∧ offset = byteSize front ∧
        (Cursor.between front.reverse back).place = p := by
  rw [place?, Option.map_eq_some_iff]
  constructor
  · rintro ⟨c, hc, hp⟩
    rcases Cursor.at?_eq_some_iff.mp hc with ⟨front, back, htext, hoffset, rfl⟩
    exact ⟨front, back, htext, hoffset, hp⟩
  · rintro ⟨front, back, htext, hoffset, hp⟩
    exact ⟨_, Cursor.at?_eq_some_iff.mpr ⟨front, back, htext, hoffset, rfl⟩, hp⟩

theorem Boundary.le {text : List Char} {offset : Nat} (h : Boundary text offset) :
    offset <= byteSize text := by
  rcases h with ⟨front, back, rfl, rfl⟩
  rw [byteSize_append]
  exact Nat.le_add_right _ _

theorem place?_eq_none_iff {text : List Char} {offset : Nat} :
    place? text offset = none <-> byteSize text < offset ∨ ¬ Boundary text offset := by
  have hboundary : (exists p, place? text offset = some p) <-> Boundary text offset := by
    constructor
    · intro ⟨p, hp⟩
      rcases place?_eq_some_iff.mp hp with ⟨front, back, htext, hoffset, _⟩
      exact ⟨front, back, htext, hoffset⟩
    · intro ⟨front, back, htext, hoffset⟩
      exact ⟨_, place?_eq_some_iff.mpr ⟨front, back, htext, hoffset, rfl⟩⟩
  rw [<- Option.not_isSome_iff_eq_none, Option.isSome_iff_exists, hboundary]
  constructor
  · exact Or.inr
  · intro h hinside
    rcases h with hbeyond | hinner
    · exact absurd hinside.le (Nat.not_le.mpr hbeyond)
    · exact hinner hinside

theorem counts_place (front back : List Char) :
    (Cursor.between front.reverse back).place.Counts front := by
  obtain ⟨c, hc⟩ : exists c, Cursor.between front.reverse back = c := ⟨_, rfl⟩
  have hbehind : c.behind.reverse = front := by
    rw [<- hc]
    exact List.reverse_reverse front
  have hbreak := c.lineBreak_not_mem_lineBehind
  rw [hc]
  constructor
  · rw [<- hbehind]
    exact congrArg (· + 1) List.countP_reverse.symm
  · rcases c.lineBehind_cases with hwhole | ⟨earlier, hsplit⟩
    · refine ⟨[], c.lineBehind.reverse, ?_, Or.inl rfl, hbreak, ?_⟩
      · rw [<- hbehind, hwhole]
        rfl
      · rw [List.length_reverse]
        rfl
    · refine ⟨earlier ++ ['\n'], c.lineBehind.reverse, ?_, ?_, hbreak, ?_⟩
      · rw [<- hbehind, hsplit, List.append_assoc]
        rfl
      · exact Or.inr List.getLast?_concat
      · rw [List.length_reverse]
        rfl

theorem line_place (front back : List Char) :
    (Cursor.between front.reverse back).place.line = front.countP isLineBreak + 1 :=
  congrArg (· + 1) List.countP_reverse

theorem lineBehind_append (front : List Char) {more : List Char} (h : '\n' ∉ more)
    (back : List Char) :
    (Cursor.between (front ++ more).reverse back).lineBehind =
      more.reverse ++ front.reverse.takeWhile (fun a => !isLineBreak a) := by
  have hsolid : forall a, a ∈ more.reverse -> (!isLineBreak a) = true := by
    intro a ha
    rw [Bool.not_eq_true', isLineBreak, beq_eq_false_iff_ne]
    exact fun hbreak => h (hbreak ▸ List.mem_reverse.mp ha)
  show (front ++ more).reverse.takeWhile (fun a => !isLineBreak a) = _
  rw [List.reverse_append, List.takeWhile_append_of_pos hsolid]

theorem before_place (front back : List Char) {more : List Char} (hne : more ≠ []) :
    (Cursor.between front.reverse (more ++ back)).place.Before
      (Cursor.between (front ++ more).reverse back).place := by
  rw [Place.Before, line_place, line_place, List.countP_append]
  by_cases hbreak : '\n' ∈ more
  · have hpos : 0 < more.countP isLineBreak := List.countP_pos_iff.mpr ⟨'\n', hbreak, rfl⟩
    exact Or.inl (Nat.succ_lt_succ (Nat.lt_add_of_pos_right hpos))
  · refine Or.inr ⟨?_, Nat.succ_lt_succ ?_⟩
    · rw [countP_isLineBreak_eq_zero hbreak]
    · rw [lineBehind_append front hbreak back, List.length_append, List.length_reverse]
      exact Nat.lt_add_of_pos_left (List.length_pos_iff.mpr hne)

theorem before_of_lt {text : List Char} {a b : Nat} {p q : Place} (ha : place? text a = some p)
    (hb : place? text b = some q) (h : a < b) : p.Before q := by
  rcases place?_eq_some_iff.mp ha with ⟨front, back, htext, rfl, rfl⟩
  rcases place?_eq_some_iff.mp hb with ⟨other, rest, rfl, rfl, rfl⟩
  rcases prefix_of_byteSize_le ⟨back, htext.symm⟩ (List.prefix_append other rest)
    (Nat.le_of_lt h) with ⟨more, rfl⟩
  have hne : more ≠ [] := by
    rintro rfl
    rw [List.append_nil] at h
    exact Nat.lt_irrefl _ h
  have hback : back = more ++ rest := by
    rw [List.append_assoc] at htext
    exact (List.append_cancel_left htext).symm
  rw [hback]
  exact before_place front rest hne

theorem place_ne {text : List Char} {a b : Nat} {p q : Place} (ha : place? text a = some p)
    (hb : place? text b = some q) (h : a ≠ b) : p ≠ q := by
  rcases Nat.lt_or_gt_of_ne h with hlt | hgt
  · exact (before_of_lt ha hb hlt).ne
  · exact (before_of_lt hb ha hgt).ne.symm

end Text

namespace Machine

open Text (byteSize Place)

/-!
# Searching
-/

/--
What a search in ascending numbers may answer: an index at which the number is, or else the
index at which it can be put in.
-/
inductive Found (n : Nat) : List Nat -> Except Nat Nat -> Prop where
  | hit (front back : List Nat) : Found n (front ++ n :: back) (.ok front.length)
  | miss {front back : List Nat} (below : forall m, m ∈ front -> m < n)
      (above : forall m, m ∈ back -> n < m) : Found n (front ++ back) (.error front.length)

def merged : Except Nat Nat -> Nat
  | .ok i => i
  | .error i => i

theorem pairwise_lineBreaks (text : List Char) :
    forall offset : Nat, (lineBreaks offset text).Pairwise (fun m n => m < n) := by
  induction text with
  | nil => exact fun _ => List.Pairwise.nil
  | cons c rest ih =>
      intro offset
      rw [lineBreaks_cons]
      split
      · refine List.Pairwise.cons ?_ (ih _)
        intro b hb
        exact Nat.lt_of_lt_of_le (Nat.lt_add_of_pos_right (Char.utf8Size_pos c))
          (bounds_of_mem_lineBreaks rest hb).1
      · exact ih _

theorem Found.merged_eq {n : Nat} {ascending : List Nat} {answer : Except Nat Nat}
    (h : Found n ascending answer) (hascending : ascending.Pairwise (fun m n => m < n)) :
    merged answer = (ascending.takeWhile (fun m => m < n)).length := by
  cases h with
  | hit front back =>
      have hbelow := (List.pairwise_append.mp hascending).2.2
      rw [length_takeWhile_lt]
      · rfl
      · exact fun m hm => hbelow m hm n List.mem_cons_self
      · rintro m ⟨⟩
        exact Nat.le_refl n
  | miss below above =>
      rw [length_takeWhile_lt below]
      · rfl
      · exact fun m hm => Nat.le_of_lt (above m (List.mem_of_head? hm))

theorem found_search (n : Nat) {ascending : List Nat}
    (hascending : ascending.Pairwise (fun m n => m < n)) :
    Found n ascending (search n ascending) := by
  have hbelow : forall m, m ∈ ascending.takeWhile (fun m => m < n) -> m < n :=
    fun m hm => of_decide_eq_true (List.all_eq_true.mp List.all_takeWhile m hm)
  have hstop := List.head?_dropWhile_not (fun m => decide (m < n)) ascending
  have hsplit := List.takeWhile_append_dropWhile (p := fun m => decide (m < n)) (l := ascending)
  -- The list is cut where the numbers cease to be smaller, and only the next one decides.
  unfold search
  generalize ascending.takeWhile (fun m => m < n) = front at hbelow hsplit ⊢
  generalize ascending.dropWhile (fun m => m < n) = back at hstop hsplit
  subst hsplit
  have hnext : (front ++ back)[front.length]? = back.head? := by
    rw [List.getElem?_append_right (Nat.le_refl _), Nat.sub_self, List.head?_eq_getElem?]
  simp only [hnext]
  cases back with
  | nil => exact Found.miss hbelow (fun m hm => absurd hm List.not_mem_nil)
  | cons m back =>
      have hle : n <= m := by simpa using hstop
      rcases Nat.eq_or_lt_of_le hle with rfl | hlt
      · rw [if_pos List.head?_cons]
        exact Found.hit front back
      · rw [if_neg]
        · refine Found.miss hbelow (fun k hk => ?_)
          rcases List.mem_cons.mp hk with rfl | hmem
          · exact hlt
          · have habove := (List.pairwise_append.mp hascending).2.1
            exact Nat.lt_trans hlt (List.rel_of_pairwise_cons habove hmem)
        · rintro ⟨⟩
          exact Nat.lt_irrefl _ hlt

def placeInLine (text : List Char) (offset line : Nat) : Option Place := do
  let start <- lineStart (lineBreaks 0 text) line
  let front <- slice text start offset
  return ⟨line + 1, front.length + 1⟩

theorem placeInLine_merged {text : List Char} {offset : Nat} {answer : Except Nat Nat}
    (h : Found offset (lineBreaks 0 text) answer) :
    placeInLine text offset (merged answer) = Text.place? text offset := by
  rw [h.merged_eq (pairwise_lineBreaks text 0), <- lineOf_eq, <- place_eq]
  rfl

/-!
# Offsets and places
-/

/--
A search among the line breaks leads to the place of an offset, whichever of its answers it
gives.  Every offset between two characters has a place, which counts what is in front of it,
and the places come in the order of the offsets.
-/
theorem offsets_have_places_in_order (text : List Char) :
    (forall offset,
      (exists answer, Found offset (lineBreaks 0 text) answer) ∧
      forall answer, Found offset (lineBreaks 0 text) answer ->
        placeInLine text offset (merged answer) = Text.place? text offset) ∧
    (forall offset, Text.place? text offset = none <->
      byteSize text < offset ∨ ¬ Text.Boundary text offset) ∧
    (forall front back, text = front ++ back ->
      exists p, Text.place? text (byteSize front) = some p ∧ p.Counts front) ∧
    (forall a b p q, Text.place? text a = some p -> Text.place? text b = some q ->
      (a < b -> p.Before q) ∧ (a ≠ b -> p ≠ q)) := by
  refine ⟨?search, fun _ => Text.place?_eq_none_iff, ?counts, ?order⟩
  case search =>
    intro offset
    exact ⟨⟨_, found_search offset (pairwise_lineBreaks text 0)⟩, fun _ => placeInLine_merged⟩
  case counts =>
    intro front back htext
    have hplace := Text.place?_eq_some_iff.mpr ⟨front, back, htext, rfl, rfl⟩
    exact ⟨_, hplace, Text.counts_place front back⟩
  case order =>
    intro a b p q ha hb
    exact ⟨Text.before_of_lt ha hb, Text.place_ne ha hb⟩

def threeLines : List Char := "(12)4\n  ^(34)2\naä(5)".toList

/-- The offset of a line break is in the line that it ends, and none is inside an `ä`. -/
theorem offsets_in_three_lines_have_places_in_order :
    placeInLine threeLines 5 (merged (.ok 0)) = some ⟨1, 6⟩ ∧
    placeInLine threeLines 18 (merged (.error 2)) = some ⟨3, 3⟩ ∧
    ¬ Text.Boundary threeLines 17 ∧ (⟨1, 6⟩ : Place).Before ⟨3, 3⟩ := by
  rcases offsets_have_places_in_order threeLines with ⟨hsearch, hnone, _, horder⟩
  have hbreaks : lineBreaks 0 threeLines = [5, 14] := by decide
  have hhit : Found 5 [5, 14] (.ok 0) := Found.hit [] [14]
  have hmiss : Found 18 ([5, 14] ++ []) (.error 2) := Found.miss (by decide) (by decide)
  have hfirst : Text.place? threeLines 5 = some ⟨1, 6⟩ := by decide
  have hthird : Text.place? threeLines 18 = some ⟨3, 3⟩ := by decide
  have hsize : byteSize threeLines = 21 := by decide
  have hinner : byteSize threeLines < 17 ∨ ¬ Text.Boundary threeLines 17 :=
    (hnone 17).mp (by decide)
  refine ⟨?_, ?_, ?_, ?_⟩
  · exact ((hsearch 5).2 _ (hbreaks ▸ hhit)).trans hfirst
  · exact ((hsearch 18).2 _ (hbreaks ▸ hmiss)).trans hthird
  · rcases hinner with hbeyond | hinner
    · rw [hsize] at hbeyond
      exact absurd hbeyond (by decide)
    · exact hinner
  · exact (horder 5 18 _ _ hfirst hthird).1 (by decide)

end Machine
end Plectrum

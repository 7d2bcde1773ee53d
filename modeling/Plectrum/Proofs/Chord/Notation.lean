import Plectrum.Proofs.Chord.Substitution
import Plectrum.Proofs.Score.Concatenation

/-!
# Chord names as notation

A chord table extends the grammar of tuples: between the parentheses of a tuple the name
of a chord may stand for its digits.  The tuples of a text in which the chords were put in
are those of the extended grammar in the text as it was written, one for each of them and
in the same order.
-/

namespace Plectrum
namespace Chord

/-!
# The pass, parenthesis by parenthesis
-/

theorem putIn_nil (chords : List Chord) : putIn chords [] = [] := by
  rw [putIn]

theorem putIn_append_open {chords : List Chord} (h : Separate chords) (back : List Char)
    (front : List Char) :
    putIn chords (front ++ '(' :: back) = putIn chords front ++ putIn chords ('(' :: back) := by
  induction front using putIn_induction chords with
  | hnil =>
      rw [putIn_nil]
      rfl
  | hcalled c rest hc ih =>
      rw [List.append_assoc, putIn_called h hc, putIn_called h hc, ih, List.append_assoc]
  | hcons a rest hnone ih =>
      have hwhole : forall c, c ∈ chords ->
          ¬ parenthesized c.name <+: a :: (rest ++ '(' :: back) := by
        intro c hc hprefix
        rcases List.cons_prefix_cons.mp hprefix with ⟨ha, hname⟩
        have hopen := open_not_mem_called (h.valid c hc)
        have hrest := (Text.prefix_append_separator_iff hopen).mp hname
        exact hnone c hc (List.cons_prefix_cons.mpr ⟨ha, hrest⟩)
      rw [List.cons_append, putIn_cons hwhole, putIn_cons hnone, ih]
      rfl

theorem exists_open_of_putIn {chords : List Chord} (h : Separate chords) {back : List Char}
    (text : List Char) :
    forall {front : List Char}, putIn chords text = front ++ '(' :: back ->
      exists before ahead, text = before ++ '(' :: ahead ∧ putIn chords before = front ∧
        putIn chords ('(' :: ahead) = '(' :: back := by
  induction text using putIn_induction chords with
  | hnil =>
      intro front htext
      rw [putIn] at htext
      cases (List.append_eq_nil_iff.mp htext.symm).right
  | hcalled c rest hc ih =>
      intro front htext
      have hcalled := putIn_called h hc rest
      rw [hcalled] at htext
      cases front with
      | nil => exact ⟨[], c.name ++ [')'] ++ rest, rfl, putIn_nil chords, hcalled.trans htext⟩
      | cons a front =>
          injection htext with ha htext
          have hopen := open_not_mem_pairs (h.valid c hc)
          have hcut : front ++ '(' :: back = [] ++ ((c.pairs ++ [')']) ++ putIn chords rest) :=
            htext.symm
          rcases Text.split_at_separator hcut hopen with
            ⟨more, hfront, hrest⟩ | ⟨more, hnil, _⟩
          · rcases ih hrest with ⟨before, ahead, htext, hbefore, hahead⟩
            refine ⟨parenthesized c.name ++ before, ahead, ?_, ?_, hahead⟩
            · rw [htext, List.append_assoc]
            · rw [putIn_called h hc, hbefore, hfront, <- ha]
              rfl
          · cases (List.append_eq_nil_iff.mp hnil.symm).right
  | hcons a rest hnone ih =>
      intro front htext
      have hcons := putIn_cons hnone
      rw [hcons] at htext
      cases front with
      | nil =>
          have ha : a = '(' := (List.cons_eq_cons.mp htext).left
          subst ha
          exact ⟨[], rest, rfl, putIn_nil chords, hcons.trans htext⟩
      | cons b front =>
          injection htext with hab htext
          rcases ih htext with ⟨before, ahead, hrest, hbefore, hahead⟩
          refine ⟨a :: before, ahead, by rw [hrest]; rfl, ?_, hahead⟩
          have hshorter : forall c, c ∈ chords -> ¬ parenthesized c.name <+: a :: before := by
            intro c hc hprefix
            apply hnone c hc
            rw [hrest]
            exact hprefix.trans (List.prefix_append (a :: before) _)
          rw [putIn_cons hshorter, hbefore, hab]

theorem head?_putIn (chords : List Chord) (text : List Char) :
    (putIn chords text).head? = text.head? := by
  cases text with
  | nil => rw [putIn]
  | cons a rest =>
      rw [putIn]
      split
      · rename_i c hcalled
        have hprefix := (called?_eq_some hcalled).right
        rw [<- (List.cons_prefix_cons.mp hprefix).left]
        rfl
      · rfl

theorem getLast?_putIn {chords : List Chord} (h : Separate chords) (text : List Char) :
    (putIn chords text).getLast? = text.getLast? := by
  have hlast : forall inside : List Char, (parenthesized inside).getLast? = some ')' :=
    fun inside => List.getLast?_append_of_ne_nil ('(' :: inside) (List.cons_ne_nil ')' [])
  induction text using putIn_induction chords with
  | hnil => rw [putIn]
  | hcalled c rest hc ih =>
      rw [putIn_called h hc, List.getLast?_append, List.getLast?_append, ih, hlast, hlast]
  | hcons a rest hnone ih => rw [putIn_cons hnone, List.getLast?_cons, List.getLast?_cons, ih]

end Chord

namespace ChordTable

open Text (byteSize)
open Chord (putIn)

/-!
# The extended grammar
-/

/-- The digits that a text between the parentheses of a tuple stands for. -/
def pairsOf? (table : ChordTable) (content : List Char) : Option (List Char) :=
  if Chord.validPairs content then some content else table.get? content

/-- A parenthesis of a text, with what stands between it and its closing one, and the digits
behind that. -/
structure Writing where
  before : List Char
  content : List Char
  duration : List Char

structure Writing.StandsIn (w : Writing) (table : ChordTable) (text : List Char) : Prop where
  content : (table.pairsOf? w.content).isSome = true
  duration_digits : forall a, a ∈ w.duration -> a.isDigit = true
  duration_ne_nil : w.duration ≠ []
  /-- The run of digits ends here. -/
  text : exists behind,
    text = w.before ++ '(' :: (w.content ++ ')' :: (w.duration ++ behind)) ∧
      forall a, behind.head? = some a -> a.isDigit = false

structure Writing.Becomes (w : Writing) (table : ChordTable) (detect : Bool) (t : Tuple) :
    Prop where
  opening : t.opening = byteSize (table.substitute w.before)
  pairs : table.pairsOf? w.content = some t.pairs
  duration : t.duration = w.duration
  brush : t.brush = true <-> detect = true ∧ w.before.getLast? = some Tuple.marker

theorem pairsOf?_eq_some {table : ChordTable} {content pairs : List Char}
    (h : table.pairsOf? content = some pairs) :
    (Chord.validPairs content = true ∧ pairs = content) ∨
      exists c, c ∈ table.chords ∧ c.name = content ∧ c.pairs = pairs := by
  unfold pairsOf? at h
  split at h
  · rename_i hvalid
    injection h with h
    exact Or.inl ⟨hvalid, h.symm⟩
  · exact Or.inr (get?_eq_some h)

section Substituting

variable {table : ChordTable} (htable : table.WellFormed)
include htable

theorem substitute_eq_putIn (text : List Char) :
    table.substitute text = putIn table.chords text :=
  Chord.foldl_substitute htable.separate text

theorem pairsOf?_name {c : Chord} (hc : c ∈ table.chords) :
    table.pairsOf? c.name = some c.pairs := by
  have hname : ¬ Chord.validPairs c.name = true := by
    intro hpairs
    rcases validPairs_iff.mp hpairs with ⟨hdigits, _, _⟩
    have hvalid := (htable.valid c hc).name
    unfold Chord.validName at hvalid
    split at hvalid
    · cases hvalid
    · rename_i first rest hcons
      have hfirst := hdigits first (hcons ▸ List.mem_cons_self)
      rw [Bool.and_eq_true] at hvalid
      exact Chord.not_isDigit_of_isAlpha hvalid.left hfirst
  unfold pairsOf?
  rw [if_neg hname]
  cases hget : table.get? c.name with
  | none => exact absurd rfl (get?_eq_none_iff.mp hget c hc)
  | some pairs =>
      rcases get?_eq_some hget with ⟨d, hd, hdc, rfl⟩
      rw [htable.separate.eq_of_name_eq hd hc hdc]

theorem validPairs_of_pairsOf? {content pairs : List Char}
    (h : table.pairsOf? content = some pairs) : Chord.validPairs pairs = true := by
  rcases pairsOf?_eq_some h with ⟨hvalid, rfl⟩ | ⟨c, hc, _, rfl⟩
  · exact hvalid
  · exact (htable.valid c hc).pairs

theorem parenthesis_not_mem_content {content pairs : List Char}
    (h : table.pairsOf? content = some pairs) : '(' ∉ content ∧ ')' ∉ content := by
  rcases pairsOf?_eq_some h with ⟨hvalid, _⟩ | ⟨c, hc, rfl, _⟩
  · have hdigits := (validPairs_iff.mp hvalid).left
    constructor
    · intro hmem
      cases hdigits _ hmem
    · intro hmem
      cases hdigits _ hmem
  · have hc := htable.valid c hc
    constructor
    · intro hmem
      exact (Chord.not_mem_name hc hmem).left rfl
    · intro hmem
      exact (Chord.not_mem_name hc hmem).right rfl

/-!
# One parenthesis
-/

theorem putIn_content {content pairs : List Char} (h : table.pairsOf? content = some pairs)
    (rest : List Char) :
    putIn table.chords ('(' :: (content ++ ')' :: rest)) =
      '(' :: (pairs ++ ')' :: putIn table.chords rest) := by
  rcases pairsOf?_eq_some h with ⟨hvalid, rfl⟩ | ⟨c, hc, rfl, rfl⟩
  · have hopen : '(' ∉ pairs ++ [')'] := by
      intro hmem
      rcases List.mem_append.mp hmem with hmem | hmem
      · exact (parenthesis_not_mem_content htable h).left hmem
      · cases List.mem_singleton.mp hmem
    have hnone : forall c, c ∈ table.chords ->
        ¬ parenthesized c.name <+: '(' :: (pairs ++ [')'] ++ rest) := by
      intro c hc
      -- The digits could be those of this chord.
      have hdigits : Chord.Valid { c with pairs := pairs } := ⟨(htable.valid c hc).name, hvalid⟩
      exact Chord.not_prefix_pairs (htable.valid c hc) hdigits rest
    have hput := Chord.putIn_append table.chords rest hopen
    rw [List.append_cons, Chord.putIn_cons hnone, hput]
    simp
  · have hput := Chord.putIn_called htable.separate hc rest
    simpa [parenthesized] using hput

theorem exists_content_of_inner {ahead inside pairs duration rest : List Char}
    (hahead : putIn table.chords ('(' :: ahead) = '(' :: inside)
    (h : Tuple.Inner pairs duration inside rest) :
    exists content behind, ahead = content ++ ')' :: (duration ++ behind) ∧
      table.pairsOf? content = some pairs ∧
        forall a, behind.head? = some a -> a.isDigit = false := by
  have hopen := h.not_mem
  have hends : forall behind, putIn table.chords behind = rest ->
      forall a, behind.head? = some a -> a.isDigit = false := by
    intro behind hbehind a ha
    apply h.duration_ends
    rw [<- hbehind, Chord.head?_putIn, ha]
  by_cases hnone : forall c, c ∈ table.chords -> ¬ parenthesized c.name <+: '(' :: ahead
  · rw [Chord.putIn_cons hnone, h.text] at hahead
    injection hahead with _ hput
    have hthere : pairs ++ ')' :: duration <+: putIn table.chords ahead :=
      ⟨rest, by rw [hput]; simp⟩
    rcases Chord.prefix_of_prefix_putIn table.chords ahead hopen hthere with ⟨behind, rfl⟩
    rw [Chord.putIn_append table.chords behind hopen] at hput
    have hvalid : Chord.validPairs pairs = true :=
      validPairs_iff.mpr ⟨h.pairs_digits, h.pairs_ne_nil, h.pairs_even⟩
    refine ⟨pairs, behind, by simp, if_pos hvalid, hends behind ?_⟩
    exact List.append_cancel_left (hput.trans (by simp))
  · simp only [not_forall, Decidable.not_not] at hnone
    rcases hnone with ⟨c, hc, back, hback⟩
    rw [<- hback, Chord.putIn_called htable.separate hc, h.text] at hahead
    have hput : c.pairs ++ ')' :: putIn table.chords back =
        pairs ++ ')' :: (duration ++ rest) := by
      simpa [parenthesized] using hahead
    have hclose : forall run : List Char, (forall a, a ∈ run -> a.isDigit = true) ->
        ')' ∉ run := by
      intro run hrun hmem
      cases hrun ')' hmem
    rcases Text.append_separator_inj
      (hclose c.pairs (Chord.pairs_digits (htable.valid c hc)).right)
      (hclose pairs h.pairs_digits) hput with ⟨hpairs, hduration⟩
    have hopen : '(' ∉ duration := by
      intro hmem
      cases h.duration_digits _ hmem
    rcases Chord.prefix_of_prefix_putIn table.chords back hopen ⟨rest, hduration.symm⟩ with
      ⟨behind, rfl⟩
    rw [Chord.putIn_append table.chords behind hopen] at hduration
    refine ⟨c.name, behind, ?_, ?_, hends behind (List.append_cancel_left hduration)⟩
    · injection hback with _ hback
      rw [<- hback]
      simp
    · rw [pairsOf?_name htable hc, hpairs]

/-!
# Places in both texts
-/

theorem byteSize_substitute_lt {before ahead before' ahead' : List Char}
    (h : before ++ '(' :: ahead = before' ++ '(' :: ahead')
    (hlength : before.length < before'.length) :
    byteSize (table.substitute before) < byteSize (table.substitute before') := by
  rcases List.append_eq_append_iff.mp h with ⟨more, hmore, hahead⟩ | ⟨more, hmore, _⟩
  · cases more with
    | nil =>
        rw [hmore, List.append_nil] at hlength
        exact absurd hlength (Nat.lt_irrefl _)
    | cons a more =>
        have ha : a = '(' := (List.cons_eq_cons.mp hahead).left.symm
        have hpos : 0 < byteSize (putIn table.chords ('(' :: more)) := by
          have hhead := Chord.head?_putIn table.chords ('(' :: more)
          rcases List.head?_eq_some_iff.mp hhead with ⟨rest, hrest⟩
          rw [hrest, Text.byteSize_cons]
          exact Nat.lt_of_lt_of_le Nat.zero_lt_one (Nat.le_add_right 1 _)
        rw [hmore, ha, substitute_eq_putIn htable, substitute_eq_putIn htable,
          Chord.putIn_append_open htable.separate, Text.byteSize_append]
        exact Nat.lt_add_of_pos_right hpos
  · rw [hmore, List.length_append] at hlength
    exact absurd hlength (by omega)

theorem before_eq_of_byteSize_eq {before ahead before' ahead' : List Char}
    (h : before ++ '(' :: ahead = before' ++ '(' :: ahead')
    (hsize : byteSize (table.substitute before) = byteSize (table.substitute before')) :
    before = before' := by
  apply List.append_inj_left h
  rcases Nat.lt_trichotomy before.length before'.length with hlt | heq | hgt
  · exact absurd hsize (Nat.ne_of_lt (byteSize_substitute_lt htable h hlt))
  · exact heq
  · exact absurd hsize.symm (Nat.ne_of_lt (byteSize_substitute_lt htable h.symm hgt))

theorem Writing.StandsIn.ext {text : List Char} {v w : Writing} (hv : v.StandsIn table text)
    (hw : w.StandsIn table text) (hbefore : v.before = w.before) : v = w := by
  rcases hv.text with ⟨behind, htext, hends⟩
  rcases hw.text with ⟨behind', htext', hends'⟩
  rw [htext, hbefore] at htext'
  injection List.append_cancel_left htext' with _ hinside
  rcases Option.isSome_iff_exists.mp hv.content with ⟨pairs, hpairs⟩
  rcases Option.isSome_iff_exists.mp hw.content with ⟨pairs', hpairs'⟩
  rcases Text.append_separator_inj (parenthesis_not_mem_content htable hpairs).right
    (parenthesis_not_mem_content htable hpairs').right hinside with ⟨hcontent, hdigits⟩
  have hrun : forall {duration behind : List Char},
      (forall a, a ∈ duration -> a.isDigit = true) ->
      (forall a, behind.head? = some a -> a.isDigit = false) ->
      (Text.Cursor.start (duration ++ behind)).takeWhile Char.isDigit = (duration, _) :=
    fun hduration hbehind => Text.Cursor.takeWhile_of_append rfl hduration hbehind
  have hsame := hrun hv.duration_digits hends
  rw [hdigits, hrun hw.duration_digits hends'] at hsame
  injection hsame with hduration _
  cases v
  cases w
  simp only at hbefore hcontent hduration
  rw [hbefore, hcontent, hduration]

/-!
# Tuples and what is written
-/

theorem Writing.StandsIn.exists_tuple {text : List Char} {w : Writing}
    (h : w.StandsIn table text) (detect : Bool) :
    exists t, Tuple.Stands detect (table.substitute text) t ∧ w.Becomes table detect t := by
  rcases Option.isSome_iff_exists.mp h.content with ⟨pairs, hpairs⟩
  rcases h.text with ⟨behind, htext, hends⟩
  have hvalid := validPairs_iff.mp (validPairs_of_pairsOf? htable hpairs)
  have hopen : '(' ∉ w.duration := by
    intro hmem
    cases h.duration_digits _ hmem
  have hinner : Tuple.Inner pairs w.duration
      (pairs ++ ')' :: (w.duration ++ putIn table.chords behind)) (putIn table.chords behind) := by
    refine ⟨rfl, hvalid.left, hvalid.right.left, hvalid.right.right, h.duration_digits,
      h.duration_ne_nil, ?_⟩
    intro a ha
    rw [Chord.head?_putIn] at ha
    exact hends a ha
  have hput : table.substitute text = table.substitute w.before ++
      '(' :: (pairs ++ ')' :: (w.duration ++ putIn table.chords behind)) := by
    rw [htext, substitute_eq_putIn htable, substitute_eq_putIn htable,
      Chord.putIn_append_open htable.separate, putIn_content htable hpairs,
      Chord.putIn_append table.chords behind hopen]
  rcases hinner.exists_opens detect (table.substitute w.before) with
    ⟨t, hopens, rfl, hduration⟩
  refine ⟨t, ⟨_, _, hput, hopens⟩, hopens.opening, hpairs, hduration, ?_⟩
  rw [hopens.brush, substitute_eq_putIn htable, Chord.getLast?_putIn htable.separate]

theorem exists_writing_of_stands {text : List Char} {detect : Bool} {t : Tuple}
    (h : Tuple.Stands detect (table.substitute text) t) :
    exists w : Writing, w.StandsIn table text ∧ w.Becomes table detect t := by
  rcases h with ⟨front, after, htext, hopens⟩
  rcases hopens.inner with ⟨inside, rest, rfl, hinner⟩
  rw [substitute_eq_putIn htable] at htext
  rcases Chord.exists_open_of_putIn htable.separate text htext with
    ⟨before, ahead, rfl, hbefore, hahead⟩
  rcases exists_content_of_inner htable hahead hinner with
    ⟨content, behind, rfl, hcontent, hends⟩
  rw [<- hbefore] at hopens
  have hstands : Writing.StandsIn ⟨before, content, t.duration⟩ table _ :=
    ⟨Option.isSome_iff_exists.mpr ⟨_, hcontent⟩, hinner.duration_digits,
      hinner.duration_ne_nil, behind, rfl, hends⟩
  refine ⟨_, hstands, ?_, hcontent, rfl, ?_⟩
  · rw [hopens.opening, substitute_eq_putIn htable]
  · rw [hopens.brush, Chord.getLast?_putIn htable.separate]

theorem Writing.Becomes.length_lt {text : List Char} {detect : Bool} {v w : Writing}
    {t u : Tuple} (hvt : v.Becomes table detect t) (hwu : w.Becomes table detect u)
    (hv : v.StandsIn table text) (hw : w.StandsIn table text) (hlt : t.opening < u.opening) :
    v.before.length < w.before.length := by
  rcases hv.text with ⟨behind, htext, _⟩
  rcases hw.text with ⟨behind', htext', _⟩
  have hsame := htext.symm.trans htext'
  rw [hvt.opening, hwu.opening] at hlt
  rcases Nat.lt_trichotomy v.before.length w.before.length with hless | heq | hmore
  · exact hless
  · rw [List.append_inj_left hsame heq] at hlt
    exact absurd hlt (Nat.lt_irrefl _)
  · exact absurd (byteSize_substitute_lt htable hsame.symm hmore) (Nat.lt_asymm hlt)

theorem Writing.Becomes.unique {text : List Char} {detect : Bool} {v w : Writing} {t : Tuple}
    (hvt : v.Becomes table detect t) (hwt : w.Becomes table detect t)
    (hv : v.StandsIn table text) (hw : w.StandsIn table text) : v = w := by
  rcases hv.text with ⟨behind, htext, _⟩
  rcases hw.text with ⟨behind', htext', _⟩
  have hsize := hvt.opening.symm.trans hwt.opening
  have hbefore := before_eq_of_byteSize_eq htable (htext.symm.trans htext') hsize
  exact hv.ext htable hw hbefore

structure WritingsOf (table : ChordTable) (text : List Char) (writings : List Writing) : Prop where
  mem_iff : forall w, w ∈ writings <-> w.StandsIn table text
  ordered : writings.Pairwise (fun v w => v.before.length < w.before.length)

theorem exists_writingsOf (text : List Char) (detect : Bool) :
    exists writings, WritingsOf table text writings ∧
      List.Forall₂ (fun w t => w.Becomes table detect t) writings
        (Tuple.all detect (table.substitute text)) := by
  have hwritten : forall t, t ∈ Tuple.all detect (table.substitute text) ->
      exists w : Writing, w.StandsIn table text ∧ w.Becomes table detect t :=
    fun t ht => exists_writing_of_stands htable (Tuple.mem_all_iff.mp ht)
  have hnonempty : Nonempty Writing := ⟨⟨[], [], []⟩⟩
  choose! written hstands hbecomes using hwritten
  refine ⟨(Tuple.all detect (table.substitute text)).map written, ⟨?_, ?_⟩, ?_⟩
  · intro w
    rw [List.mem_map]
    constructor
    · intro ⟨t, ht, hw⟩
      exact hw ▸ hstands t ht
    · intro hw
      rcases hw.exists_tuple htable detect with ⟨t, ht, hwt⟩
      have ht := Tuple.mem_all_iff.mpr ht
      exact ⟨t, ht, (hbecomes t ht).unique htable hwt (hstands t ht) hw⟩
  · apply List.pairwise_map.mpr
    apply (Tuple.pairwise_all detect _).imp_of_mem
    intro t u ht hu hlt
    exact (hbecomes t ht).length_lt htable (hbecomes u hu) (hstands t ht) (hstands u hu) hlt
  · rw [List.forall₂_map_left_iff, List.forall₂_same]
    exact hbecomes

theorem not_opens_of_inert {text before content behind : List Char} {detect : Bool}
    (htext : text = before ++ '(' :: (content ++ ')' :: behind)) (hclose : ')' ∉ content)
    (hinert : table.pairsOf? content = none ∨
      forall a, behind.head? = some a -> a.isDigit = false) {t : Tuple}
    (ht : t ∈ Tuple.all detect (table.substitute text)) :
    t.opening ≠ byteSize (table.substitute before) := by
  intro hopening
  rcases exists_writing_of_stands htable (Tuple.mem_all_iff.mp ht) with ⟨w, hw, hwt⟩
  rcases hw.text with ⟨behind', htext', _⟩
  have hsame := htext'.symm.trans htext
  have hbefore := before_eq_of_byteSize_eq htable hsame (hwt.opening.symm.trans hopening)
  rw [hbefore] at hsame
  injection List.append_cancel_left hsame with _ hinside
  rcases Text.append_separator_inj (parenthesis_not_mem_content htable hwt.pairs).right hclose
    hinside with ⟨hcontent, hbehind⟩
  rcases hinert with hnone | hends
  · have hpairs := hwt.pairs
    rw [hcontent, hnone] at hpairs
    cases hpairs
  · cases hduration : w.duration with
    | nil => exact hw.duration_ne_nil hduration
    | cons digit digits =>
        have hdigit := hw.duration_digits digit (hduration ▸ List.mem_cons_self)
        have hhead : behind.head? = some digit := by
          rw [<- hbehind, hduration]
          rfl
        rw [hends digit hhead] at hdigit
        cases hdigit

end Substituting

/--
The tuples of a text in which the chords of a table were put in are, one for each and in
order, what is written in the text itself, where the name of a chord stands for its digits.
No tuple opens at a name that the table lacks, nor at one without a duration.
-/
theorem names_extend_the_grammar {lines : List Char} {table : ChordTable}
    (h : read lines = .ok table) (text : List Char) (detect : Bool) :
    (exists writings, WritingsOf table text writings ∧
      List.Forall₂ (fun w t => w.Becomes table detect t) writings
        (Tuple.all detect (table.substitute text))) ∧
    forall before content behind, text = before ++ '(' :: (content ++ ')' :: behind) ->
      ')' ∉ content ->
      (table.pairsOf? content = none ∨ forall a, behind.head? = some a -> a.isDigit = false) ->
      forall t, t ∈ Tuple.all detect (table.substitute text) ->
        t.opening ≠ byteSize (table.substitute before) := by
  have htable := wellFormed_read h
  refine ⟨exists_writingsOf htable text detect, ?_⟩
  intro before content behind htext hclose hinert t ht
  exact not_opens_of_inert htable htext hclose hinert ht

/-!
# A sample

The first chord is marked as a brush, the second one stands in an open parenthesis.  The
third name has no duration, and the table lacks the fourth one.
-/

def sampleNotation : List Char :=
  "^(C#)1 ((C)24 (C) (D)1".toList

theorem sample_names_extend_the_grammar :
    read sampleLines = .ok sample ∧
      (exists writings, WritingsOf sample sampleNotation writings ∧
        List.Forall₂ (fun w t => w.Becomes sample true t) writings
          (Tuple.all true (sample.substitute sampleNotation))) ∧
      (Tuple.all true (sample.substitute sampleNotation)).map
          (fun t => (t.brush, t.pairs, t.duration)) =
        [(true, "2131".toList, "1".toList), (false, "11".toList, "24".toList)] := by
  have hread : read sampleLines = .ok sample :=
    Outcome.toOption_eq_some_iff.mp (by decide +kernel)
  exact ⟨hread, (names_extend_the_grammar hread sampleNotation true).left, by decide +kernel⟩

end ChordTable
end Plectrum

import Mathlib.Data.List.Nodup
import Plectrum.Chord.Substitution
import Plectrum.Proofs.Chord.Table
import Plectrum.Proofs.Text.Replacement

/-!
# All chords at once

A name in parentheses begins with its only opening parenthesis and ends with its only
closing one, so no two of them overlap.  Digits are no name, so what is put in for one
chord never stands for another one.  Hence replacing the chords of a table one after
the other, in whatever order, is one pass over the text.
-/

namespace Plectrum
namespace Chord

/-!
# One pass
-/

/-- The first chord whose name stands in parentheses at the beginning of a text. -/
def called? (chords : List Chord) (text : List Char) : Option Chord :=
  chords.find? (fun c => (parenthesized c.name).isPrefixOf text)

/-- Puts in chords wherever they are called by their names, in one pass. -/
def putIn (chords : List Chord) : List Char -> List Char
  | [] => []
  | a :: rest =>
      match called? chords (a :: rest) with
      | some c => parenthesized c.pairs ++ putIn chords (rest.drop (c.name.length + 1))
      | none => a :: putIn chords rest
termination_by text => text.length
decreasing_by
  · simp only [List.length_drop, List.length_cons]
    omega
  · exact Nat.lt_succ_self _

structure Separate (chords : List Chord) : Prop where
  valid : forall c, c ∈ chords -> c.Valid
  distinct : (chords.map Chord.name).Nodup

theorem Separate.eq_of_name_eq {chords : List Chord} (h : Separate chords) {c d : Chord}
    (hc : c ∈ chords) (hd : d ∈ chords) (hname : c.name = d.name) : c = d :=
  List.inj_on_of_nodup_map h.distinct hc hd hname

theorem Separate.of_perm {chords others : List Chord} (h : Separate chords)
    (hperm : others.Perm chords) : Separate others where
  valid := fun c hc => h.valid c (hperm.mem_iff.mp hc)
  distinct := (hperm.map Chord.name).nodup_iff.mpr h.distinct

theorem Separate.of_concat {chords : List Chord} {c : Chord}
    (h : Separate (chords ++ [c])) :
    Separate chords ∧ c.Valid ∧ forall d, d ∈ chords -> d.name ≠ c.name := by
  have hdistinct := h.distinct
  rw [List.map_append, List.nodup_append] at hdistinct
  refine ⟨⟨fun d hd => h.valid d (List.mem_append_left [c] hd), hdistinct.left⟩, ?_, ?_⟩
  · exact h.valid c (List.mem_append_right chords List.mem_cons_self)
  · intro d hd
    exact hdistinct.right.right d.name (List.mem_map_of_mem hd) c.name List.mem_cons_self

/-!
# Parentheses
-/

theorem nameCharacter_of_mem {c : Chord} (h : c.Valid) {a : Char} (ha : a ∈ c.name) :
    (a.isAlphanum || a == '#' || a == '_') = true := by
  have hname := h.name
  unfold validName at hname
  split at hname
  · rename_i hnil
    rw [hnil] at ha
    cases ha
  · rename_i first rest hcons
    rw [hcons] at ha
    rw [Bool.and_eq_true, List.all_eq_true] at hname
    rcases List.mem_cons.mp ha with rfl | hrest
    · simp [Char.isAlphanum, hname.left]
    · exact hname.right a hrest

theorem not_mem_name {c : Chord} (h : c.Valid) {a : Char} (ha : a ∈ c.name) :
    a ≠ '(' ∧ a ≠ ')' := by
  constructor
  · rintro rfl
    cases nameCharacter_of_mem h ha
  · rintro rfl
    cases nameCharacter_of_mem h ha

theorem not_mem_called {c : Chord} (h : c.Valid) {a : Char}
    (hname : (a.isAlphanum || a == '#' || a == '_') = false) (hopen : a ≠ '(')
    (hclose : a ≠ ')') : a ∉ parenthesized c.name := by
  intro hmem
  rcases List.mem_cons.mp hmem with heq | hmem
  · exact hopen heq
  · rcases List.mem_append.mp hmem with hmem | hend
    · exact Bool.false_ne_true (hname.symm.trans (nameCharacter_of_mem h hmem))
    · exact hclose (List.mem_singleton.mp hend)

theorem pairs_digits {c : Chord} (h : c.Valid) :
    c.pairs ≠ [] ∧ forall a, a ∈ c.pairs -> a.isDigit = true := by
  have hpairs := h.pairs
  simp only [validPairs, Text.Decimal.isNumeral, Bool.and_eq_true, Bool.not_eq_true',
    List.isEmpty_eq_false_iff, List.all_eq_true] at hpairs
  exact hpairs.left

theorem open_not_mem_called {c : Chord} (h : c.Valid) : '(' ∉ c.name ++ [')'] := by
  intro hmem
  rcases List.mem_append.mp hmem with hname | hclose
  · exact (not_mem_name h hname).left rfl
  · cases List.mem_singleton.mp hclose

theorem open_not_mem_pairs {c : Chord} (h : c.Valid) : '(' ∉ c.pairs ++ [')'] := by
  intro hmem
  rcases List.mem_append.mp hmem with hpairs | hclose
  · cases (pairs_digits h).right '(' hpairs
  · cases List.mem_singleton.mp hclose

theorem takeWhile_called {c : Chord} (h : c.Valid) (rest : List Char) :
    (c.name ++ ')' :: rest).takeWhile (fun a => a != ')') = c.name := by
  rw [List.takeWhile_append_of_pos]
  · simp
  · intro a ha
    simpa using (not_mem_name h ha).right

/-- Only its own name is called where a chord is called. -/
theorem name_eq_of_begins {c d : Chord} (hc : c.Valid) (hd : d.Valid) {rest : List Char}
    (h : parenthesized c.name <+: parenthesized d.name ++ rest) : c.name = d.name := by
  rcases h with ⟨back, h⟩
  have hnames : c.name ++ ')' :: back = d.name ++ ')' :: rest := by
    simpa [parenthesized] using h
  have hruns := congrArg (List.takeWhile (fun a => a != ')')) hnames
  rw [takeWhile_called hc, takeWhile_called hd] at hruns
  exact hruns

theorem not_isDigit_of_isAlpha {a : Char} (h : a.isAlpha = true) :
    ¬ a.isDigit = true := by
  intro hdigit
  have hnine : a.val <= 57 := of_decide_eq_true (Bool.and_eq_true_iff.mp hdigit).right
  rcases Bool.or_eq_true_iff.mp h with hupper | hlower
  · have hle : 65 <= a.val := (of_decide_eq_true hupper).left
    exact absurd (UInt32.le_trans hle hnine) (by decide)
  · have hle : 97 <= a.val := of_decide_eq_true (Bool.and_eq_true_iff.mp hlower).left
    exact absurd (UInt32.le_trans hle hnine) (by decide)

theorem not_prefix_pairs {c d : Chord} (hc : c.Valid) (hd : d.Valid) (rest : List Char) :
    ¬ parenthesized c.name <+: parenthesized d.pairs ++ rest := by
  intro h
  have hname := hc.name
  rcases pairs_digits hd with ⟨hne, hdigits⟩
  cases hpairs : d.pairs with
  | nil => exact hne hpairs
  | cons digit more =>
      have hdigit := hdigits digit (hpairs ▸ List.mem_cons_self)
      unfold validName at hname
      split at hname
      · cases hname
      · rename_i first back hcons
        rw [parenthesized, parenthesized, hcons, hpairs] at h
        have hfirst := (List.cons_prefix_cons.mp (List.cons_prefix_cons.mp h).right).left
        rw [Bool.and_eq_true, hfirst] at hname
        exact not_isDigit_of_isAlpha hname.left hdigit

/-!
# What the pass does
-/

theorem called?_eq_none_iff {chords : List Chord} {text : List Char} :
    called? chords text = none <->
      forall c, c ∈ chords -> ¬ parenthesized c.name <+: text := by
  unfold called?
  rw [List.find?_eq_none]
  simp only [List.isPrefixOf_iff_prefix]

theorem called?_eq_some {chords : List Chord} {text : List Char} {c : Chord}
    (h : called? chords text = some c) : c ∈ chords ∧ parenthesized c.name <+: text := by
  unfold called? at h
  have hprefix := List.find?_some h
  exact ⟨List.mem_of_find?_eq_some h, List.isPrefixOf_iff_prefix.mp hprefix⟩

theorem Separate.called?_eq {chords : List Chord} (h : Separate chords) {c : Chord}
    (hc : c ∈ chords) (rest : List Char) :
    called? chords (parenthesized c.name ++ rest) = some c := by
  cases hfound : called? chords (parenthesized c.name ++ rest) with
  | none => exact absurd (List.prefix_append _ rest) (called?_eq_none_iff.mp hfound c hc)
  | some d =>
      rcases called?_eq_some hfound with ⟨hd, hprefix⟩
      rw [h.eq_of_name_eq hd hc (name_eq_of_begins (h.valid d hd) (h.valid c hc) hprefix)]

theorem putIn_cons {chords : List Chord} {a : Char} {rest : List Char}
    (h : forall c, c ∈ chords -> ¬ parenthesized c.name <+: a :: rest) :
    putIn chords (a :: rest) = a :: putIn chords rest := by
  rw [putIn, called?_eq_none_iff.mpr h]

theorem putIn_called {chords : List Chord} (h : Separate chords) {c : Chord}
    (hc : c ∈ chords) (rest : List Char) :
    putIn chords (parenthesized c.name ++ rest) =
      parenthesized c.pairs ++ putIn chords rest := by
  have hcalled : called? chords ('(' :: (c.name ++ [')'] ++ rest)) = some c :=
    h.called?_eq hc rest
  have hlength : (c.name ++ [')']).length = c.name.length + 1 := List.length_append
  show putIn chords ('(' :: (c.name ++ [')'] ++ rest)) = _
  rw [putIn, hcalled]
  simp only [<- hlength, List.drop_left]

theorem putIn_induction (chords : List Chord) {P : List Char -> Prop} (hnil : P [])
    (hcalled : forall c rest, c ∈ chords -> P rest -> P (parenthesized c.name ++ rest))
    (hcons : forall a rest, (forall c, c ∈ chords -> ¬ parenthesized c.name <+: a :: rest) ->
      P rest -> P (a :: rest)) (text : List Char) : P text := by
  match text with
  | [] => exact hnil
  | a :: rest =>
      by_cases h : forall c, c ∈ chords -> ¬ parenthesized c.name <+: a :: rest
      · exact hcons a rest h (putIn_induction chords hnil hcalled hcons rest)
      · simp only [not_forall, Decidable.not_not] at h
        rcases h with ⟨c, hc, back, hback⟩
        rw [<- hback]
        exact hcalled c back hc (putIn_induction chords hnil hcalled hcons back)
termination_by text.length
decreasing_by
  · exact Nat.lt_succ_self _
  · have hlength := congrArg List.length hback
    simp only [parenthesized, List.length_append, List.length_cons] at hlength
    simp only [List.length_cons]
    omega

theorem putIn_append (chords : List Chord) (rest : List Char) :
    forall {front : List Char}, '(' ∉ front ->
      putIn chords (front ++ rest) = front ++ putIn chords rest
  | [], _ => rfl
  | a :: front, h => by
      rcases not_or.mp (mt List.mem_cons.mpr h) with ⟨ha, hfront⟩
      have hnone : forall c, c ∈ chords -> ¬ parenthesized c.name <+: a :: (front ++ rest) :=
        fun c _ hprefix => ha (List.cons_prefix_cons.mp hprefix).left
      rw [List.cons_append, putIn_cons hnone, putIn_append chords rest hfront]
      rfl

/-- The pass makes no text without an opening parenthesis that was not there before. -/
theorem prefix_of_prefix_putIn (chords : List Chord) (text : List Char) :
    forall {front : List Char}, '(' ∉ front -> front <+: putIn chords text ->
      front <+: text := by
  induction text with
  | nil =>
      intro front _ h
      rwa [putIn] at h
  | cons a rest ih =>
      intro front hfront h
      cases front with
      | nil => exact List.nil_prefix
      | cons b front =>
          rcases not_or.mp (mt List.mem_cons.mpr hfront) with ⟨hb, hfront⟩
          rw [putIn] at h
          split at h
          · exact absurd (List.cons_prefix_cons.mp h).left.symm hb
          · rcases List.cons_prefix_cons.mp h with ⟨hba, hrest⟩
            exact List.cons_prefix_cons.mpr ⟨hba, ih hfront hrest⟩

/-- The pass brings no name behind a character that was not there before. -/
theorem not_called_putIn {c : Chord} (hc : c.Valid) (chords : List Chord) {a : Char}
    {rest : List Char} (h : ¬ parenthesized c.name <+: a :: rest) :
    ¬ parenthesized c.name <+: a :: putIn chords rest := by
  intro hprefix
  rcases List.cons_prefix_cons.mp hprefix with ⟨ha, hback⟩
  have hthere := prefix_of_prefix_putIn chords rest (open_not_mem_called hc) hback
  exact h (List.cons_prefix_cons.mpr ⟨ha, hthere⟩)

/-!
# One chord after the pass
-/

theorem substitute_cons {c : Chord} {a : Char} {rest : List Char}
    (h : ¬ parenthesized c.name <+: a :: rest) :
    substitute (a :: rest) c = a :: substitute rest c :=
  Text.replace_cons _ _ h

theorem substitute_called (c : Chord) (rest : List Char) :
    substitute (parenthesized c.name ++ rest) c =
      parenthesized c.pairs ++ substitute rest c :=
  Text.replace_append (List.cons_ne_nil _ _) _ rest

theorem substitute_append (c : Chord) (rest : List Char) :
    forall {front : List Char}, '(' ∉ front ->
      substitute (front ++ rest) c = front ++ substitute rest c
  | [], _ => rfl
  | a :: front, h => by
      rcases not_or.mp (mt List.mem_cons.mpr h) with ⟨ha, hfront⟩
      have hnone : ¬ parenthesized c.name <+: a :: (front ++ rest) :=
        fun hprefix => ha (List.cons_prefix_cons.mp hprefix).left
      rw [List.cons_append, substitute_cons hnone, substitute_append c rest hfront]
      rfl

theorem substitute_pairs {c d : Chord} (hc : c.Valid) (hd : d.Valid) (rest : List Char) :
    substitute (parenthesized d.pairs ++ rest) c =
      parenthesized d.pairs ++ substitute rest c := by
  have hnone : ¬ parenthesized c.name <+: '(' :: (d.pairs ++ [')'] ++ rest) :=
    not_prefix_pairs hc hd rest
  show substitute ('(' :: (d.pairs ++ [')'] ++ rest)) c = _
  rw [substitute_cons hnone, substitute_append c rest (open_not_mem_pairs hd)]
  rfl

theorem putIn_name {chords : List Chord} {c : Chord}
    (hchords : forall d, d ∈ chords -> d.Valid) (hc : c.Valid)
    (hnew : forall d, d ∈ chords -> d.name ≠ c.name) (rest : List Char) :
    putIn chords (parenthesized c.name ++ rest) =
      parenthesized c.name ++ putIn chords rest := by
  have hnone : forall d, d ∈ chords ->
      ¬ parenthesized d.name <+: '(' :: (c.name ++ [')'] ++ rest) :=
    fun d hd hprefix => hnew d hd (name_eq_of_begins (hchords d hd) hc hprefix)
  show putIn chords ('(' :: (c.name ++ [')'] ++ rest)) = _
  rw [putIn_cons hnone, putIn_append chords rest (open_not_mem_called hc)]
  rfl

theorem substitute_putIn {chords : List Chord} {c : Chord}
    (h : Separate (chords ++ [c])) (text : List Char) :
    substitute (putIn chords text) c = putIn (chords ++ [c]) text := by
  rcases h.of_concat with ⟨hchords, hc, hnew⟩
  induction text using putIn_induction (chords ++ [c]) with
  | hnil => rw [putIn, putIn, substitute, Text.replace_nil]
  | hcalled d rest hd ih =>
      rw [putIn_called h hd]
      cases List.mem_append.mp hd with
      | inl hd =>
          rw [putIn_called hchords hd, substitute_pairs hc (hchords.valid d hd), ih]
      | inr hd =>
          have hdc := List.mem_singleton.mp hd
          subst hdc
          rw [putIn_name hchords.valid hc hnew, substitute_called, ih]
  | hcons a rest hnone ih =>
      have hold : forall d, d ∈ chords -> ¬ parenthesized d.name <+: a :: rest :=
        fun d hd => hnone d (List.mem_append_left [c] hd)
      have hlast := hnone c (List.mem_append_right chords List.mem_cons_self)
      rw [putIn_cons hnone, putIn_cons hold,
        substitute_cons (not_called_putIn hc chords hlast), ih]

theorem foldl_substitute {chords : List Chord} (h : Separate chords) (text : List Char) :
    chords.foldl substitute text = putIn chords text := by
  induction chords using List.reverseRecOn with
  | nil =>
      induction text with
      | nil => rw [putIn, List.foldl_nil]
      | cons a rest ih =>
          rw [putIn_cons (fun c hc => by cases hc), <- ih]
          rfl
  | append_singleton chords c ih =>
      rw [List.foldl_append, ih h.of_concat.left]
      exact substitute_putIn h text

/-!
# What the pass leaves
-/

theorem putIn_eq_of_perm {chords others : List Chord} (h : Separate chords)
    (hperm : others.Perm chords) (text : List Char) :
    putIn others text = putIn chords text := by
  induction text using putIn_induction chords with
  | hnil => rw [putIn, putIn]
  | hcalled c rest hc ih =>
      rw [putIn_called h hc, putIn_called (h.of_perm hperm) (hperm.mem_iff.mpr hc), ih]
  | hcons a rest hnone ih =>
      rw [putIn_cons hnone, putIn_cons (fun c hc => hnone c (hperm.mem_iff.mp hc)), ih]

theorem putIn_of_not_infix {chords : List Chord} (text : List Char)
    (h : forall c, c ∈ chords -> ¬ parenthesized c.name <:+: text) :
    putIn chords text = text := by
  induction text with
  | nil => rw [putIn]
  | cons a rest ih =>
      rw [putIn_cons (fun c hc hprefix => h c hc hprefix.isInfix),
        ih (fun c hc hinfix => h c hc (List.infix_cons hinfix))]

theorem infix_append_iff {name front : List Char} (hfront : '(' ∉ front)
    (rest : List Char) :
    parenthesized name <:+: front ++ rest <-> parenthesized name <:+: rest := by
  induction front with
  | nil => rfl
  | cons a front ih =>
      rcases not_or.mp (mt List.mem_cons.mpr hfront) with ⟨ha, hfront⟩
      rw [List.cons_append, List.infix_cons_iff, ih hfront]
      apply or_iff_right
      intro hprefix
      exact ha (List.cons_prefix_cons.mp hprefix).left

theorem not_infix_putIn {chords : List Chord} (h : Separate chords) {c : Chord}
    (hc : c ∈ chords) (text : List Char) :
    ¬ parenthesized c.name <:+: putIn chords text := by
  have hvalid := h.valid c hc
  induction text using putIn_induction chords with
  | hnil =>
      rw [putIn]
      intro hinfix
      cases List.eq_nil_of_infix_nil hinfix
  | hcalled d rest hd ih =>
      have hd' := h.valid d hd
      rw [putIn_called h hd]
      show ¬ _ <:+: '(' :: (d.pairs ++ [')'] ++ putIn chords rest)
      rw [List.infix_cons_iff, infix_append_iff (open_not_mem_pairs hd')]
      exact not_or.mpr ⟨not_prefix_pairs hvalid hd' (putIn chords rest), ih⟩
  | hcons a rest hnone ih =>
      rw [putIn_cons hnone, List.infix_cons_iff]
      exact not_or.mpr ⟨not_called_putIn hvalid chords (hnone c hc), ih⟩

/-!
# Separators
-/

theorem foldl_substitute_append_separator (chords : List Chord) {separator : Char}
    (h : forall c, c ∈ chords -> separator ∉ parenthesized c.name) :
    forall front back : List Char,
      chords.foldl substitute (front ++ separator :: back) =
        chords.foldl substitute front ++ separator :: chords.foldl substitute back := by
  induction chords with
  | nil =>
      intro front back
      rfl
  | cons c rest ih =>
      intro front back
      rcases List.forall_mem_cons.mp h with ⟨hc, hrest⟩
      have hcut : substitute (front ++ separator :: back) c =
          substitute front c ++ separator :: substitute back c :=
        Text.replace_append_separator (List.cons_ne_nil _ _) hc _ back front
      rw [List.foldl_cons, hcut]
      exact ih hrest _ _

end Chord

namespace ChordTable

theorem WellFormed.separate {table : ChordTable} (h : table.WellFormed) :
    Chord.Separate table.chords where
  valid := h.valid
  distinct := List.pairwise_map.mpr (h.ascending.imp ne_of_lt)

theorem WellFormed.substitute_append_lineEnd {table : ChordTable} (h : table.WellFormed)
    (front back : List Char) :
    table.substitute (front ++ '\n' :: back) =
      table.substitute front ++ '\n' :: table.substitute back :=
  Chord.foldl_substitute_append_separator table.chords
    (fun c hc => Chord.not_mem_called (h.valid c hc) rfl (by decide) (by decide)) front back

/--
Replacing the chords of a table in the order of their names is one pass that puts in
all of them at once.  Any other order gives the same text.  None of the chords is
called in it, so it stays as it is when the chords are replaced again.
-/
theorem substitution_is_simultaneous {lines : List Char} {table : ChordTable}
    (h : read lines = .ok table) (text : List Char) :
    table.chords.Pairwise (fun c d => c.name < d.name) ∧
      table.substitute text = Chord.putIn table.chords text ∧
      (forall chords : List Chord, chords.Perm table.chords ->
        chords.foldl Chord.substitute text = table.substitute text) ∧
      (forall c, c ∈ table.chords ->
        ¬ parenthesized c.name <:+: table.substitute text) ∧
      table.substitute (table.substitute text) = table.substitute text := by
  have htable := wellFormed_read h
  have hseparate := htable.separate
  have hpass : forall score, table.substitute score = Chord.putIn table.chords score :=
    Chord.foldl_substitute hseparate
  have hnone : forall c, c ∈ table.chords ->
      ¬ parenthesized c.name <:+: table.substitute text := by
    intro c hc
    rw [hpass]
    exact Chord.not_infix_putIn hseparate hc text
  refine ⟨htable.ascending, hpass text, ?_, hnone, ?_⟩
  · intro chords hperm
    rw [hpass, Chord.foldl_substitute (hseparate.of_perm hperm)]
    exact Chord.putIn_eq_of_perm hseparate hperm text
  · rw [hpass (table.substitute text)]
    exact Chord.putIn_of_not_infix _ hnone

/-!
# A sample

The name of the first chord begins the name of the second one.
-/

def sampleLines : List Char :=
  "C# 2131\nC 11\n".toList

def sample : ChordTable where
  chords := [⟨"C".toList, "11".toList⟩, ⟨"C#".toList, "2131".toList⟩]

def sampleScore : List Char :=
  "(C#)1 ((C)2 (D)1".toList

theorem sample_substitution :
    read sampleLines = .ok sample ∧
      sample.substitute sampleScore = "(2131)1 ((11)2 (D)1".toList ∧
      Chord.putIn sample.chords sampleScore = sample.substitute sampleScore ∧
      sample.chords.reverse.foldl Chord.substitute sampleScore =
        sample.substitute sampleScore := by
  have hread : read sampleLines = .ok sample :=
    Outcome.toOption_eq_some_iff.mp (by decide +kernel)
  rcases substitution_is_simultaneous hread sampleScore with ⟨_, hpass, horders, _⟩
  exact ⟨hread, by decide +kernel, hpass.symm, horders _ sample.chords.reverse_perm⟩

end ChordTable
end Plectrum

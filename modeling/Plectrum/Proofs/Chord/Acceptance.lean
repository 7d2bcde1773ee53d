import Plectrum.Proofs.Chord.Substitution
import Plectrum.Proofs.Text.LineEnds
import Plectrum.Proofs.Text.Words

/-!
# Which chord tables are read

A line defines a chord if it is a name and its digits.  A table is read if and only if all
its lines do that, the ones that are passed over apart, and no two of them define the same
name.  It then holds what the lines define.  Otherwise it is refused for what is first found
wrong with the first line that does not fit.
-/

namespace Plectrum

namespace Chord

def IsName (name : List Char) : Prop :=
  exists first rest, name = first :: rest ∧ first.isAlpha = true ∧
    forall c, c ∈ rest -> c.isAlphanum = true ∨ c = '#' ∨ c = '_'

structure IsPairs (pairs : List Char) : Prop where
  digits : forall c, c ∈ pairs -> c.isDigit = true
  ne_nil : pairs ≠ []
  even : pairs.length % 2 = 0

theorem validName_iff_isName {name : List Char} : validName name = true <-> IsName name := by
  cases name with
  | nil => simp [validName, IsName]
  | cons first rest =>
      simp [validName, IsName, or_assoc]

theorem validPairs_iff_isPairs {pairs : List Char} :
    validPairs pairs = true <-> IsPairs pairs := by
  rw [ChordTable.validPairs_iff]
  constructor
  · intro ⟨hdigits, hne, heven⟩
    exact ⟨hdigits, hne, heven⟩
  · intro h
    exact ⟨h.digits, h.ne_nil, h.even⟩

structure DefinedBy (line : List Char) (c : Chord) : Prop where
  words : Text.TwoWords line c.name c.pairs
  name : IsName c.name
  pairs : IsPairs c.pairs

theorem ofWords_eq_ok_iff {line : List Char} {c : Chord} :
    ofWords (Text.words line) = .ok c <-> DefinedBy line c := by
  constructor
  · intro h
    have hvalid := valid_of_ofWords h
    have hname := validName_iff_isName.mp hvalid.name
    have hpairs := validPairs_iff_isPairs.mp hvalid.pairs
    unfold ofWords at h
    split at h
    · rename_i name pairs hwords
      split at h
      · cases h
      · split at h
        · cases h
        · injection h with h
          subst h
          exact ⟨Text.words_eq_pair_iff.mp hwords, hname, hpairs⟩
    · cases h
  · intro h
    have hname := validName_iff_isName.mpr h.name
    have hpairs := validPairs_iff_isPairs.mpr h.pairs
    simp [Text.words_eq_pair_iff.mpr h.words, ofWords, hname, hpairs]

theorem ofWords_eq_error_iff {line : List Char} {fault : ChordFault} :
    ofWords (Text.words line) = .error fault <->
      ((forall name pairs, ¬ Text.TwoWords line name pairs) ∧ fault = .malformed) ∨
        exists name pairs, Text.TwoWords line name pairs ∧
          ((¬ IsName name ∧ fault = .invalidName name) ∨
            (IsName name ∧ ¬ IsPairs pairs ∧ fault = .invalidPairs name pairs)) := by
  simp only [<- Text.words_eq_pair_iff, <- validName_iff_isName, <- validPairs_iff_isPairs]
  constructor
  · intro h
    unfold ofWords at h
    split at h
    · rename_i name pairs hwords
      refine Or.inr ⟨name, pairs, hwords, ?_⟩
      split at h
      · rename_i hname
        injection h with hfault
        exact Or.inl ⟨by simpa using hname, hfault.symm⟩
      · rename_i hname
        split at h
        · rename_i hpairs
          injection h with hfault
          exact Or.inr ⟨by simpa using hname, by simpa using hpairs, hfault.symm⟩
        · cases h
    · rename_i hwords
      injection h with hfault
      exact Or.inl ⟨hwords, hfault.symm⟩
  · intro h
    rcases h with ⟨hwords, rfl⟩ | ⟨name, pairs, hwords, ⟨hname, rfl⟩ | ⟨hname, hpairs, rfl⟩⟩
    · unfold ofWords
      split
      · rename_i name pairs hpair
        exact absurd hpair (hwords name pairs)
      · rfl
    · simp [hwords, ofWords, hname]
    · simp [hwords, ofWords, hname, hpairs]

theorem DefinedBy.eq {line : List Char} {c d : Chord} (hc : DefinedBy line c)
    (hd : DefinedBy line d) : c = d := by
  have hsame := (ofWords_eq_ok_iff.mpr hc).symm.trans (ofWords_eq_ok_iff.mpr hd)
  injection hsame

end Chord

namespace ChordTable

open Chord (DefinedBy IsName IsPairs)

/-!
# What is wrong with a line
-/

/-- Whether a line, once it is trimmed, is neither empty nor a remark. -/
def Counts (line : List Char) : Prop :=
  exists c rest, Text.trim line = c :: rest ∧ c ≠ '#'

/-- What is first found wrong with a line behind the earlier ones. -/
inductive Fault (earlier : List (List Char)) (line : List Char) : ChordFault -> Prop where
  | malformed :
      Counts line -> (forall name pairs, ¬ Text.TwoWords line name pairs) ->
        Fault earlier line .malformed
  | invalidName {name pairs : List Char} :
      Counts line -> Text.TwoWords line name pairs -> ¬ IsName name ->
        Fault earlier line (.invalidName name)
  | invalidPairs {name pairs : List Char} :
      Counts line -> Text.TwoWords line name pairs -> IsName name -> ¬ IsPairs pairs ->
        Fault earlier line (.invalidPairs name pairs)
  | repeated {c d : Chord} {other : List Char} :
      DefinedBy line c -> other ∈ earlier -> DefinedBy other d -> d.name = c.name ->
        Fault earlier line (.repeated c.name)

/-- Whether all lines that count define chords, and no two of them the same name. -/
structure Acceptable (lines : List (List Char)) : Prop where
  defined : forall line, line ∈ lines -> Counts line -> exists c, DefinedBy line c
  distinct : lines.Pairwise (fun earlier later =>
    forall c d, DefinedBy earlier c -> DefinedBy later d -> c.name ≠ d.name)

structure Fits (earlier : List (List Char)) (line : List Char) : Prop where
  defined : Counts line -> exists c, DefinedBy line c
  distinct : forall other, other ∈ earlier -> forall c d,
    DefinedBy other c -> DefinedBy line d -> c.name ≠ d.name

namespace Acceptable

theorem nil : Acceptable [] where
  defined := fun _ h => absurd h List.not_mem_nil
  distinct := List.Pairwise.nil

theorem concat_iff {lines : List (List Char)} {line : List Char} :
    Acceptable (lines ++ [line]) <-> Acceptable lines ∧ Fits lines line := by
  constructor
  · intro h
    rcases List.pairwise_append.mp h.distinct with ⟨hlines, _, hlast⟩
    constructor
    · exact ⟨fun other hother => h.defined other (List.mem_append_left _ hother), hlines⟩
    · exact ⟨h.defined line List.mem_concat_self,
        fun other hother => hlast other hother line List.mem_cons_self⟩
  · intro ⟨h, hfits⟩
    constructor
    · intro other hother
      rcases List.mem_append.mp hother with hother | hother
      · exact h.defined other hother
      · rw [List.mem_singleton.mp hother]
        exact hfits.defined
    · apply List.pairwise_append.mpr
      refine ⟨h.distinct, List.pairwise_singleton _ _, ?_⟩
      intro other hother last hlast
      rw [List.mem_singleton.mp hlast]
      exact hfits.distinct other hother

theorem perm {lines others : List (List Char)} (hperm : lines.Perm others)
    (h : Acceptable lines) : Acceptable others where
  defined := fun line hline => h.defined line (hperm.mem_iff.mpr hline)
  distinct := hperm.pairwise h.distinct (fun hne c d hc hd => (hne d c hd hc).symm)

end Acceptable

theorem counts_iff_not_passedOver {line : List Char} :
    Counts line <-> passedOver (Text.words line) = false := by
  unfold Counts
  cases hwords : Text.words line with
  | nil =>
      rw [Text.trim_eq_nil_iff.mpr hwords]
      simp [passedOver]
  | cons word more =>
      rcases Text.exists_trim_of_words_eq_cons hwords with ⟨rest, htrim, hword, _, _⟩
      rcases hword.exists_cons with ⟨c, letters, rfl, _⟩
      rw [htrim]
      simp [passedOver]

theorem counts_of_definedBy {line : List Char} {c : Chord} (h : DefinedBy line c) :
    Counts line := by
  rcases h.name with ⟨first, rest, hname, halpha, _⟩
  rw [counts_iff_not_passedOver, Text.words_eq_pair_iff.mpr h.words, hname]
  show (first == '#') = false
  rw [beq_eq_false_iff_ne]
  intro hfirst
  rw [hfirst] at halpha
  cases halpha

theorem Fault.counts {earlier : List (List Char)} {line : List Char} {fault : ChordFault}
    (h : Fault earlier line fault) : Counts line := by
  cases h with
  | malformed hcounts _ => exact hcounts
  | invalidName hcounts _ _ => exact hcounts
  | invalidPairs hcounts _ _ _ => exact hcounts
  | repeated hc _ _ _ => exact counts_of_definedBy hc

/-!
# Reading one line
-/

theorem add_eq_error_iff {table : ChordTable} {c : Chord} {fault : ChordFault} :
    table.add c = .error fault <->
      (exists d, d ∈ table.chords ∧ d.name = c.name) ∧ fault = .repeated c.name := by
  have hfree : table.get? c.name = none <-> ¬ exists d, d ∈ table.chords ∧ d.name = c.name := by
    rw [get?_eq_none_iff]
    simp
  unfold add
  cases hget : table.get? c.name with
  | none => simp [hfree.mp hget]
  | some pairs =>
      have htaken := mt hfree.mpr (by rw [hget]; exact Option.some_ne_none pairs)
      rw [and_iff_right (not_not.mp htaken)]
      simp [eq_comm]

theorem addWords_of_not_counts {table : ChordTable} {line : List Char} (h : ¬ Counts line) :
    table.addWords (Text.words line) = .ok table := by
  rw [counts_iff_not_passedOver, Bool.not_eq_false] at h
  rw [addWords, if_pos h]

theorem addWords_of_counts {table : ChordTable} {line : List Char} (h : Counts line) :
    table.addWords (Text.words line) = Chord.ofWords (Text.words line) >>= table.add := by
  rw [counts_iff_not_passedOver] at h
  rw [addWords, if_neg (Bool.eq_false_iff.mp h)]

theorem addWords_eq_ok_iff {table next : ChordTable} {line : List Char} (h : Counts line) :
    table.addWords (Text.words line) = .ok next <->
      exists c, DefinedBy line c ∧ table.get? c.name = none ∧
        next = { chords := place c table.chords } := by
  rw [addWords_of_counts h, Outcome.bind_eq_ok_iff]
  simp only [Chord.ofWords_eq_ok_iff, add_eq_ok_iff]

structure Holds (lines : List (List Char)) (table : ChordTable) : Prop where
  wellFormed : table.WellFormed
  mem_iff : forall c, c ∈ table.chords <-> exists line, line ∈ lines ∧ DefinedBy line c

namespace Holds

theorem nil : Holds [] {} where
  wellFormed := wellFormed_default
  mem_iff := by simp

theorem concat {lines : List Text.Line} {table next : ChordTable}
    (h : Holds (lines.map Text.Line.text) table) {line : Text.Line}
    (hline : table.addLine line = .ok next) :
    Holds ((lines ++ [line]).map Text.Line.text) next where
  wellFormed := h.wellFormed.addLine hline
  mem_iff := by
    intro c
    have hwords : table.addWords (Text.words line.text) = .ok next :=
      Outcome.mapError_eq_ok_iff.mp hline
    rw [List.map_append, List.map_singleton]
    simp only [List.mem_append, List.mem_singleton, or_and_right, exists_or, exists_eq_left,
      <- h.mem_iff]
    by_cases hcounts : Counts line.text
    · rcases (addWords_eq_ok_iff hcounts).mp hwords with ⟨d, hd, _, rfl⟩
      rw [(perm_place d table.chords).mem_iff, List.mem_cons, or_comm]
      exact or_congr_right ⟨fun hcd => hcd ▸ hd, fun hc => hc.eq hd⟩
    · injection (addWords_of_not_counts hcounts).symm.trans hwords with hnext
      rw [<- hnext, or_iff_left]
      exact fun hc => hcounts (counts_of_definedBy hc)

theorem get?_eq_none_iff {lines : List (List Char)} {table : ChordTable} (h : Holds lines table)
    {name : List Char} :
    table.get? name = none <->
      forall other, other ∈ lines -> forall d, DefinedBy other d -> d.name ≠ name := by
  rw [ChordTable.get?_eq_none_iff]
  constructor
  · intro hfree other hother d hd
    exact hfree d ((h.mem_iff d).mpr ⟨other, hother, hd⟩)
  · intro hfree d hd
    rcases (h.mem_iff d).mp hd with ⟨other, hother, hd⟩
    exact hfree other hother d hd

theorem addLine_ok_iff {lines : List (List Char)} {table : ChordTable} (h : Holds lines table)
    {line : Text.Line} :
    (exists next, table.addLine line = .ok next) <-> Fits lines line.text := by
  have hwords : forall next, table.addLine line = .ok next <->
      table.addWords (Text.words line.text) = .ok next :=
    fun _ => Outcome.mapError_eq_ok_iff
  simp only [hwords]
  by_cases hcounts : Counts line.text
  · simp only [addWords_eq_ok_iff hcounts, h.get?_eq_none_iff]
    constructor
    · intro ⟨_, c, hc, hfree, _⟩
      refine ⟨fun _ => ⟨c, hc⟩, ?_⟩
      intro other hother d e hd he
      rw [he.eq hc]
      exact hfree other hother d hd
    · intro hfits
      rcases hfits.defined hcounts with ⟨c, hc⟩
      exact ⟨_, c, hc, fun other hother d hd => hfits.distinct other hother d c hd hc, rfl⟩
  · constructor
    · intro _
      refine ⟨fun hline => absurd hline hcounts, ?_⟩
      intro other _ c d _ hd
      exact absurd (counts_of_definedBy hd) hcounts
    · intro _
      exact ⟨table, addWords_of_not_counts hcounts⟩

theorem addWords_eq_error_iff {lines : List (List Char)} {table : ChordTable}
    (h : Holds lines table) {line : List Char} {fault : ChordFault} :
    table.addWords (Text.words line) = .error fault <-> Fault lines line fault := by
  constructor
  · intro herror
    by_cases hcounts : Counts line
    · rw [addWords_of_counts hcounts, Outcome.bind_eq_error_iff] at herror
      rcases herror with hwords | ⟨c, hc, hadd⟩
      · rcases Chord.ofWords_eq_error_iff.mp hwords with
          ⟨hnone, rfl⟩ | ⟨name, pairs, htwo, ⟨hname, rfl⟩ | ⟨hname, hpairs, rfl⟩⟩
        · exact Fault.malformed hcounts hnone
        · exact Fault.invalidName hcounts htwo hname
        · exact Fault.invalidPairs hcounts htwo hname hpairs
      · rcases add_eq_error_iff.mp hadd with ⟨⟨d, hd, hname⟩, rfl⟩
        rcases (h.mem_iff d).mp hd with ⟨other, hother, hd⟩
        exact Fault.repeated (Chord.ofWords_eq_ok_iff.mp hc) hother hd hname
    · cases (addWords_of_not_counts hcounts).symm.trans herror
  · intro hfault
    rw [addWords_of_counts hfault.counts, Outcome.bind_eq_error_iff, Chord.ofWords_eq_error_iff]
    cases hfault with
    | malformed _ hwords => exact Or.inl (Or.inl ⟨hwords, rfl⟩)
    | invalidName _ hwords hname => exact Or.inl (Or.inr ⟨_, _, hwords, Or.inl ⟨hname, rfl⟩⟩)
    | invalidPairs _ hwords hname hpairs =>
        exact Or.inl (Or.inr ⟨_, _, hwords, Or.inr ⟨hname, hpairs, rfl⟩⟩)
    | repeated hc hother hd hname =>
        refine Or.inr ⟨_, Chord.ofWords_eq_ok_iff.mpr hc, add_eq_error_iff.mpr ⟨?_, rfl⟩⟩
        exact ⟨_, (h.mem_iff _).mpr ⟨_, hother, hd⟩, hname⟩

theorem addLine_eq_error_iff {lines : List (List Char)} {table : ChordTable}
    (h : Holds lines table) {line : Text.Line} {e : ChordError} :
    table.addLine line = .error e <->
      e.line = line.number ∧ Fault lines line.text e.fault := by
  rw [addLine, Outcome.mapError_eq_error_iff]
  simp only [h.addWords_eq_error_iff]
  constructor
  · intro ⟨fault, hfault, he⟩
    rw [<- he]
    exact ⟨rfl, hfault⟩
  · intro ⟨hline, hfault⟩
    refine ⟨e.fault, hfault, ?_⟩
    rw [<- hline]

end Holds

/-!
# Reading all lines
-/

theorem foldlM_addLine_ok_iff {lines : List Text.Line} :
    (exists table, lines.foldlM addLine {} = .ok table) <->
      Acceptable (lines.map Text.Line.text) :=
  Outcome.foldlM_ok_iff (fun passed => Holds (passed.map Text.Line.text)) Holds.nil
    (fun _ _ _ _ _ hpassed hline => hpassed.concat hline)
    (fun passed => Acceptable (passed.map Text.Line.text))
    (fun passed line => Fits (passed.map Text.Line.text) line.text)
    Acceptable.nil
    (fun passed line => by
      rw [List.map_append, List.map_singleton]
      exact Acceptable.concat_iff)
    (fun _ _ _ _ hpassed => hpassed.addLine_ok_iff) (fun _ hline => hline)

section Reading

variable {text : List Char} {table : ChordTable}

theorem read_ok_iff : (exists table, read text = .ok table) <-> Acceptable (Text.lineTexts text) :=
  foldlM_addLine_ok_iff

theorem holds_of_read (h : read text = .ok table) : Holds (Text.lineTexts text) table :=
  Outcome.foldlM_known (fun passed => Holds (passed.map Text.Line.text)) Holds.nil
    (fun _ _ _ _ _ hpassed hline => hpassed.concat hline) (fun _ hline => hline) h

theorem read_eq_error_iff {e : ChordError} :
    read text = .error e <->
      exists front line back, Text.lineTexts text = front ++ line :: back ∧
        e.line = front.length + 1 ∧ Acceptable front ∧ Fault front line e.fault := by
  have hfold : read text = .error e <->
      exists front line back, Text.numberedLines text = front ++ line :: back ∧
        Acceptable (front.map Text.Line.text) ∧
        e.line = line.number ∧ Fault (front.map Text.Line.text) line.text e.fault :=
    Outcome.foldlM_fault_iff (fun passed => Holds (passed.map Text.Line.text)) Holds.nil
      (fun _ _ _ _ _ hpassed hline => hpassed.concat hline)
      (fun passed => Acceptable (passed.map Text.Line.text))
      (fun passed line (e : ChordError) => e.line = line.number ∧
        Fault (passed.map Text.Line.text) line.text e.fault)
      (fun _ _ => foldlM_addLine_ok_iff)
      (fun _ _ _ _ _ hpassed => hpassed.addLine_eq_error_iff) (fun _ hline => hline)
  rw [hfold]
  constructor
  · rintro ⟨front, line, back, hlines, hfront, hnumber, hfault⟩
    refine ⟨front.map Text.Line.text, line.text, back.map Text.Line.text, ?_, ?_, hfront, hfault⟩
    · rw [Text.lineTexts, hlines, List.map_append, List.map_cons]
    · rw [hnumber, Text.number_eq_of_numberedLines hlines, List.length_map]
  · rintro ⟨front, line, back, htexts, hnumber, hfront, hfault⟩
    rcases List.map_eq_append_iff.mp htexts with ⟨before, rest, hlines, rfl, hrest⟩
    rcases List.map_eq_cons_iff.mp hrest with ⟨last, after, rfl, rfl, rfl⟩
    refine ⟨before, last, after, hlines, hfront, ?_, hfault⟩
    rw [hnumber, Text.number_eq_of_numberedLines hlines, List.length_map]

theorem WellFormed.get?_eq_some_iff (h : table.WellFormed) {name pairs : List Char} :
    table.get? name = some pairs <-> Chord.mk name pairs ∈ table.chords := by
  constructor
  · intro hget
    rcases get?_eq_some hget with ⟨c, hc, rfl, rfl⟩
    exact hc
  · intro hmem
    cases hget : table.get? name with
    | none => exact absurd rfl (ChordTable.get?_eq_none_iff.mp hget _ hmem)
    | some others =>
        rcases get?_eq_some hget with ⟨c, hc, hname, rfl⟩
        rw [h.separate.eq_of_name_eq hc hmem hname]

theorem WellFormed.eq_of_mem_iff {other : ChordTable} (h : table.WellFormed)
    (hother : other.WellFormed) (hmem : forall c, c ∈ table.chords <-> c ∈ other.chords) :
    table = other := by
  have hne : forall {c d : Chord}, c.name < d.name -> c ≠ d :=
    fun hlt heq => absurd (heq ▸ hlt) (lt_irrefl _)
  have hperm : table.chords.Perm other.chords :=
    (List.perm_ext_iff_of_nodup (h.ascending.imp hne) (hother.ascending.imp hne)).mpr hmem
  have hchords : table.chords = other.chords := by
    apply hperm.eq_of_pairwise _ h.ascending hother.ascending
    intro c d _ _ hcd hdc
    exact absurd hcd (lt_asymm hdc)
  cases table
  cases other
  exact congrArg ChordTable.mk hchords

theorem read_of_perm {other : List Char} (h : read text = .ok table)
    (hperm : (Text.lineTexts other).Perm (Text.lineTexts text)) : read other = .ok table := by
  rcases read_ok_iff.mpr ((read_ok_iff.mp ⟨table, h⟩).perm hperm.symm) with ⟨same, hsame⟩
  have hholds := holds_of_read h
  have hothers := holds_of_read hsame
  rw [hsame, hothers.wellFormed.eq_of_mem_iff hholds.wellFormed]
  intro c
  rw [hothers.mem_iff, hholds.mem_iff]
  simp only [hperm.mem_iff]

end Reading

/--
A table is read if and only if its lines are acceptable.  It then holds the digits that a
line gives to a name, and nothing else, in whatever order the lines come.  Otherwise the
error tells the first line that does not fit behind the lines before it, and what is first
found wrong with it.
-/
theorem reading_defines_chords (text : List Char) :
    ((exists table, read text = .ok table) <-> Acceptable (Text.lineTexts text)) ∧
      (forall table, read text = .ok table ->
        (forall name pairs, table.get? name = some pairs <->
          exists line, line ∈ Text.lineTexts text ∧ DefinedBy line ⟨name, pairs⟩) ∧
        forall other, (Text.lineTexts other).Perm (Text.lineTexts text) ->
          read other = .ok table) ∧
      forall n fault, read text = .error ⟨n, fault⟩ <->
        exists front line back, Text.lineTexts text = front ++ line :: back ∧
          n = front.length + 1 ∧ Acceptable front ∧ Fault front line fault := by
  refine ⟨read_ok_iff, ?_, fun _ _ => read_eq_error_iff⟩
  intro table h
  have hholds := holds_of_read h
  refine ⟨?_, fun other hperm => read_of_perm h hperm⟩
  intro name pairs
  rw [hholds.wellFormed.get?_eq_some_iff, hholds.mem_iff]

/-!
# Samples

The second table has the lines of the first one in another order.  In the third one a line
has too many words, and its name was already defined.
-/

def remarkedLines : List Char :=
  "# remarks\n C\t11 \n\nC#_ 2131\n".toList

def turnedLines : List Char :=
  "C#_ 2131\r\n\r# remarks\n C\t11 ".toList

def overfullLines : List Char :=
  "C 11\nC 12 13\n7 1\n".toList

theorem remarked_lines_define_chords :
    Acceptable (Text.lineTexts remarkedLines) ∧
      (exists table, read turnedLines = .ok table ∧ table.get? "C".toList = some "11".toList ∧
        exists line, line ∈ Text.lineTexts remarkedLines ∧
          DefinedBy line ⟨"C".toList, "11".toList⟩) ∧
      exists front line back, Text.lineTexts overfullLines = front ++ line :: back ∧
        2 = front.length + 1 ∧ Acceptable front ∧ Fault front line .malformed := by
  have hsome : ((read remarkedLines).toOption.map (fun table => table.get? "C".toList)) =
      some (some "11".toList) := by
    decide +kernel
  rcases Option.map_eq_some_iff.mp hsome with ⟨table, htable, hget⟩
  have hread := Outcome.toOption_eq_some_iff.mp htable
  rcases reading_defines_chords remarkedLines with ⟨haccepts, hdefines, _⟩
  rcases hdefines table hread with ⟨hchords, horders⟩
  have hturned := horders turnedLines (by decide +kernel)
  have hoverfull : read overfullLines = .error ⟨2, .malformed⟩ := by
    decide +kernel
  exact ⟨haccepts.mp ⟨table, hread⟩, ⟨table, hturned, hget, (hchords _ _).mp hget⟩,
    ((reading_defines_chords overfullLines).right.right 2 .malformed).mp hoverfull⟩

end ChordTable
end Plectrum

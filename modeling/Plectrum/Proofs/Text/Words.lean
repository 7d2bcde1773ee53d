import Mathlib.Data.List.DropRight
import Plectrum.Text.Words

/-!
# Words between blanks

The words of a text are what the blanks leave when it is split at each of them.  So they
do not depend on how many blanks stand between two words, in front of them or behind.
-/

namespace Plectrum
namespace Text

def Blank (text : List Char) : Prop :=
  forall c, c ∈ text -> isBlank c = true

structure IsWord (word : List Char) : Prop where
  ne_nil : word ≠ []
  solid : forall c, c ∈ word -> isBlank c = false

/-!
# Splitting at blanks
-/

theorem wordsFrom_eq_splitOnP (text : List Char) :
    forall {current : List Char}, (forall c, c ∈ current -> isBlank c = false) ->
      wordsFrom [] current text =
        ((current.reverse ++ text).splitOnP isBlank).filter (fun word => !word.isEmpty) := by
  induction text with
  | nil =>
      intro current hsolid
      have hwhole : forall c, c ∈ current.reverse -> isBlank c = false :=
        fun c hc => hsolid c (List.mem_reverse.mp hc)
      rw [List.append_nil, List.splitOnP_eq_singleton hwhole, wordsFrom, endWord]
      cases current with
      | nil => rfl
      | cons c current => simp
  | cons c rest ih =>
      intro current hsolid
      by_cases hblank : isBlank c = true
      · have hcurrent : forall a, a ∈ current.reverse -> isBlank a = false :=
          fun a ha => hsolid a (List.mem_reverse.mp ha)
        rw [wordsFrom, if_pos hblank, wordsFrom_found, ih (fun _ h => absurd h List.not_mem_nil),
          List.splitOnP_append_cons _ _ hblank, List.filter_append,
          List.splitOnP_eq_singleton hcurrent, endWord]
        cases current with
        | nil => rfl
        | cons a current => simp
      · have hmore : forall a, a ∈ c :: current -> isBlank a = false :=
          List.forall_mem_cons.mpr ⟨Bool.eq_false_iff.mpr hblank, hsolid⟩
        rw [wordsFrom, if_neg hblank, ih hmore, List.reverse_cons, List.append_assoc]
        rfl

theorem words_eq_splitOnP (text : List Char) :
    words text = (text.splitOnP isBlank).filter (fun word => !word.isEmpty) :=
  wordsFrom_eq_splitOnP text (fun _ h => absurd h List.not_mem_nil)

theorem words_append_blank {c : Char} (h : isBlank c = true) (front back : List Char) :
    words (front ++ c :: back) = words front ++ words back := by
  simp only [words_eq_splitOnP]
  rw [List.splitOnP_append_cons _ _ h, List.filter_append]

theorem words_of_isWord {word : List Char} (h : IsWord word) : words word = [word] := by
  rw [words_eq_splitOnP, List.splitOnP_eq_singleton h.solid]
  simp [h.ne_nil]

theorem words_of_blank {text : List Char} (h : Blank text) : words text = [] := by
  induction text with
  | nil => rfl
  | cons c rest ih =>
      rcases List.forall_mem_cons.mp h with ⟨hc, hrest⟩
      rw [<- List.nil_append (c :: rest), words_append_blank hc, ih hrest]
      rfl

theorem words_blank_append {gap : List Char} (h : Blank gap) (text : List Char) :
    words (gap ++ text) = words text := by
  induction gap with
  | nil => rfl
  | cons c gap ih =>
      rcases List.forall_mem_cons.mp h with ⟨hc, hgap⟩
      rw [List.cons_append, <- List.nil_append (c :: _), words_append_blank hc, ih hgap]
      rfl

theorem words_append_of_blank {gap : List Char} (h : Blank gap) (text : List Char) :
    words (text ++ gap) = words text := by
  cases gap with
  | nil => rw [List.append_nil]
  | cons c gap =>
      rcases List.forall_mem_cons.mp h with ⟨hc, hgap⟩
      rw [words_append_blank hc, words_of_blank hgap, List.append_nil]

theorem words_append {word rest : List Char} (h : IsWord word)
    (hrest : forall c, rest.head? = some c -> isBlank c = true) :
    words (word ++ rest) = word :: words rest := by
  cases rest with
  | nil =>
      rw [List.append_nil, words_of_isWord h]
      rfl
  | cons c rest =>
      have hc := hrest c rfl
      have hskip : words (c :: rest) = words rest := by
        rw [<- List.nil_append (c :: rest), words_append_blank hc]
        rfl
      rw [words_append_blank hc, words_of_isWord h, hskip]
      rfl

/-!
# The first word
-/

theorem blank_or_word (text : List Char) :
    Blank text ∨
      exists gap word rest, text = gap ++ (word ++ rest) ∧ Blank gap ∧ IsWord word ∧
        forall c, rest.head? = some c -> isBlank c = true := by
  have hsplit : text.takeWhile isBlank ++ text.dropWhile isBlank = text :=
    List.takeWhile_append_dropWhile
  have hgap : Blank (text.takeWhile isBlank) := List.all_eq_true.mp List.all_takeWhile
  have hstart := List.head?_dropWhile_not isBlank text
  cases hdrop : text.dropWhile isBlank with
  | nil => exact Or.inl (List.dropWhile_eq_nil_iff.mp hdrop)
  | cons a more =>
      rw [hdrop] at hsplit hstart
      have ha : isBlank a = false := hstart
      have hend := List.head?_dropWhile_not (fun c => !isBlank c) (a :: more)
      refine Or.inr ⟨text.takeWhile isBlank, (a :: more).takeWhile (fun c => !isBlank c),
        (a :: more).dropWhile (fun c => !isBlank c), ?_, hgap, ⟨?_, ?_⟩, ?_⟩
      · rw [List.takeWhile_append_dropWhile, hsplit]
      · rw [List.takeWhile_cons_of_pos (by rw [ha]; rfl)]
        exact List.cons_ne_nil _ _
      · intro c hc
        simpa using List.all_eq_true.mp List.all_takeWhile c hc
      · intro c hc
        rw [hc] at hend
        simpa using hend

theorem words_eq_nil_iff {text : List Char} : words text = [] <-> Blank text := by
  constructor
  · intro h
    rcases blank_or_word text with hblank | ⟨gap, word, rest, rfl, hgap, hword, hrest⟩
    · exact hblank
    · rw [words_blank_append hgap, words_append hword hrest] at h
      cases h
  · exact words_of_blank

theorem words_eq_cons_iff {text word : List Char} {more : List (List Char)} :
    words text = word :: more <->
      exists gap rest, text = gap ++ (word ++ rest) ∧ Blank gap ∧ IsWord word ∧
        (forall c, rest.head? = some c -> isBlank c = true) ∧ words rest = more := by
  constructor
  · intro h
    rcases blank_or_word text with hblank | ⟨gap, first, rest, rfl, hgap, hfirst, hrest⟩
    · rw [words_of_blank hblank] at h
      cases h
    · rw [words_blank_append hgap, words_append hfirst hrest] at h
      injection h with hword hmore
      subst hword
      exact ⟨gap, rest, rfl, hgap, hfirst, hrest, hmore⟩
  · intro ⟨gap, rest, htext, hgap, hword, hrest, hmore⟩
    rw [htext, words_blank_append hgap, words_append hword hrest, hmore]

/-!
# Trimming
-/

def trim (text : List Char) : List Char :=
  (text.dropWhile isBlank).rdropWhile isBlank

theorem words_trim (text : List Char) : words (trim text) = words text := by
  have hfront : Blank (text.takeWhile isBlank) := List.all_eq_true.mp List.all_takeWhile
  have hback : Blank ((text.dropWhile isBlank).rtakeWhile isBlank) :=
    fun c hc => List.mem_rtakeWhile_imp hc
  calc
    words (trim text) = words (trim text ++ (text.dropWhile isBlank).rtakeWhile isBlank) :=
        (words_append_of_blank hback _).symm
    _ = words (text.dropWhile isBlank) := by
        rw [trim, List.rdropWhile_append_rtakeWhile]
    _ = words (text.takeWhile isBlank ++ text.dropWhile isBlank) :=
        (words_blank_append hfront _).symm
    _ = words text := by rw [List.takeWhile_append_dropWhile]

theorem isBlank_head_trim {text : List Char} {c : Char} (h : (trim text).head? = some c) :
    isBlank c = false := by
  rcases List.head?_eq_some_iff.mp h with ⟨rest, hrest⟩
  rcases List.rdropWhile_prefix isBlank (text.dropWhile isBlank) with ⟨after, hafter⟩
  have hstart := List.head?_dropWhile_not isBlank text
  rw [<- hafter, show (text.dropWhile isBlank).rdropWhile isBlank = c :: rest from hrest] at hstart
  exact hstart

theorem isBlank_getLast_trim {text front : List Char} {c : Char}
    (h : trim text = front ++ [c]) : isBlank c = false := by
  have hne : trim text ≠ [] := by
    rw [h]
    exact List.append_ne_nil_of_right_ne_nil front (List.cons_ne_nil c [])
  have hlast := List.rdropWhile_last_not isBlank (text.dropWhile isBlank) hne
  have hc : (trim text).getLast hne = c := by
    simp only [h, List.getLast_append_singleton]
  rw [show ((text.dropWhile isBlank).rdropWhile isBlank).getLast hne = c from hc] at hlast
  exact Bool.eq_false_iff.mpr hlast

theorem trim_eq_nil_iff {text : List Char} : trim text = [] <-> words text = [] := by
  rw [<- words_trim, words_eq_nil_iff]
  constructor
  · intro h c hc
    rw [h] at hc
    cases hc
  · intro h
    cases htrim : trim text with
    | nil => rfl
    | cons c rest =>
        have hblank := h c (htrim ▸ List.mem_cons_self)
        have hsolid : isBlank c = false := isBlank_head_trim (congrArg List.head? htrim)
        cases hblank.symm.trans hsolid

theorem exists_trim_of_words_eq_cons {text word : List Char} {more : List (List Char)}
    (h : words text = word :: more) :
    exists rest, trim text = word ++ rest ∧ IsWord word ∧
      (forall c, rest.head? = some c -> isBlank c = true) ∧ words rest = more := by
  rw [<- words_trim] at h
  rcases words_eq_cons_iff.mp h with ⟨gap, rest, htext, hgap, hword, hrest, hmore⟩
  cases gap with
  | nil => exact ⟨rest, htext, hword, hrest, hmore⟩
  | cons c gap =>
      have hblank := hgap c List.mem_cons_self
      have hsolid : isBlank c = false := isBlank_head_trim (congrArg List.head? htext)
      cases hblank.symm.trans hsolid

structure TwoWords (text first second : List Char) : Prop where
  first_word : IsWord first
  second_word : IsWord second
  apart : exists gap, gap ≠ [] ∧ Blank gap ∧ trim text = first ++ (gap ++ second)

theorem IsWord.exists_cons {word : List Char} (h : IsWord word) :
    exists c rest, word = c :: rest ∧ isBlank c = false := by
  cases word with
  | nil => exact absurd rfl h.ne_nil
  | cons c rest => exact ⟨c, rest, rfl, h.solid c List.mem_cons_self⟩

theorem words_eq_pair_iff {text first second : List Char} :
    words text = [first, second] <-> TwoWords text first second := by
  constructor
  · intro h
    rcases exists_trim_of_words_eq_cons h with ⟨rest, htrim, hfirst, hrest, hmore⟩
    rcases words_eq_cons_iff.mp hmore with ⟨gap, after, rfl, hgap, hsecond, _, hnil⟩
    -- The text is trimmed, so no blank is left behind the second word.
    have hnone : after = [] := by
      rcases List.eq_nil_or_concat' after with hnone | ⟨front, c, hafter⟩
      · exact hnone
      · have hblank := words_eq_nil_iff.mp hnil c (hafter ▸ List.mem_concat_self)
        have hsolid : isBlank c = false := by
          apply isBlank_getLast_trim
          rw [htrim, hafter, <- List.append_assoc, <- List.append_assoc, <- List.append_assoc]
        cases hblank.symm.trans hsolid
    rw [hnone, List.append_nil] at htrim
    refine ⟨hfirst, hsecond, gap, ?_, hgap, htrim⟩
    intro hempty
    rcases hsecond.exists_cons with ⟨c, more, rfl, hsolid⟩
    rw [hempty] at hrest
    cases (hrest c rfl).symm.trans hsolid
  · intro h
    rcases h.apart with ⟨gap, hne, hgap, htext⟩
    have hrest : forall c, (gap ++ second).head? = some c -> isBlank c = true := by
      intro c hc
      cases gap with
      | nil => exact absurd rfl hne
      | cons a gap =>
          injection hc with hc
          exact hgap c (hc ▸ List.mem_cons_self)
    rw [<- words_trim, htext, words_append h.first_word hrest, words_blank_append hgap,
      words_of_isWord h.second_word]

end Text
end Plectrum

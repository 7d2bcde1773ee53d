import Mathlib.Data.List.Pairwise
import Plectrum.Latency.Configuration
import Plectrum.Proofs.Outcome
import Plectrum.Proofs.Text.Numeral

/-!
# Entries of a configuration

A line of a configuration gives a single latency or a travel time, or it says nothing.
It is read if it is well written and does not contradict the lines before it.  Whether
two lines contradict each other does not depend on which of them comes first.
-/

namespace Plectrum

/-!
# Travel times
-/

namespace Move

theorem joins_iff {m : Move} {a b : Position} :
    m.joins a b = true <->
      (m.source = a ∧ m.target = b) ∨ (m.source = b ∧ m.target = a) := by
  simp only [joins, goes, Bool.or_eq_true, Bool.and_eq_true, beq_iff_eq]

/-- Whether two lines may give both travel times. -/
def Agrees (m n : Move) : Prop :=
  ¬ (m.source = n.source ∧ m.target = n.target) ∧
    (m.source = n.target -> m.target = n.source -> m.travel = n.travel)

theorem excludes_eq_false_iff {m later : Move} :
    m.excludes later = false <-> m.Agrees later := by
  simp [excludes, goes, Agrees]

theorem Agrees.symm {m n : Move} (h : m.Agrees n) : n.Agrees m := by
  refine ⟨fun hsame => h.left ⟨hsame.left.symm, hsame.right.symm⟩, ?_⟩
  intro hsource htarget
  exact (h.right htarget.symm hsource.symm).symm

theorem Agrees.travel_eq {m n : Move} (h : m.Agrees n) {a b : Position}
    (hm : m.joins a b = true) (hn : n.joins a b = true) : m.travel = n.travel := by
  rcases joins_iff.mp hm with ⟨rfl, rfl⟩ | ⟨rfl, rfl⟩
  · rcases joins_iff.mp hn with ⟨hsource, htarget⟩ | ⟨hsource, htarget⟩
    · exact absurd ⟨hsource.symm, htarget.symm⟩ h.left
    · exact h.right htarget.symm hsource.symm
  · rcases joins_iff.mp hn with ⟨hsource, htarget⟩ | ⟨hsource, htarget⟩
    · exact h.right htarget.symm hsource.symm
    · exact absurd ⟨hsource.symm, htarget.symm⟩ h.left

structure Denoted (source target travel : List Char) (m : Move) : Prop where
  source_denotes : Text.Decimal.Denotes source m.source
  source_range : 0 < m.source ∧ m.source <= Position.last
  target_denotes : Text.Decimal.Denotes target m.target
  target_range : 0 < m.target ∧ m.target <= Position.last
  travel_denotes : Text.Decimal.Denotes travel m.travel.ms
  apart : m.source ≠ m.target

theorem Denoted.eq {source target travel : List Char} {m n : Move}
    (hm : m.Denoted source target travel) (hn : n.Denoted source target travel) :
    m = n := by
  have hsource := hm.source_denotes.eq hn.source_denotes
  have htarget := hm.target_denotes.eq hn.target_denotes
  have htravel := Latency.eq_of_ms_eq (hm.travel_denotes.eq hn.travel_denotes)
  cases m with
  | mk _ _ _ =>
      cases hsource
      cases htarget
      cases htravel
      rfl

end Move

/-!
# Entries
-/

inductive Entry where
  | scalar (s : Scalar) (l : Latency)
  | move (m : Move)

namespace Entry

def directive : Entry -> Directive
  | scalar s _ => .scalar s
  | move _ => .move

def Said (words : List (List Char)) : Entry -> Prop
  | scalar s l =>
      exists text, words = [s.word.toList, text] ∧ Text.Decimal.Denotes text l.ms
  | move m =>
      exists source target travel,
        words = [Directive.move.word.toList, source, target, travel] ∧
          m.Denoted source target travel

def Given (lines : List (List (List Char))) (e : Entry) : Prop :=
  exists words, words ∈ lines ∧ Said words e

def Agrees : Entry -> Entry -> Prop
  | scalar s _, scalar t _ => s ≠ t
  | move m, move n => m.Agrees n
  | _, _ => True

theorem Agrees.symm {e f : Entry} (h : e.Agrees f) : f.Agrees e := by
  cases e with
  | scalar s l =>
      cases f with
      | scalar t k => exact Ne.symm h
      | move n => trivial
  | move m =>
      cases f with
      | scalar t k => trivial
      | move n => exact Move.Agrees.symm h

theorem Said.exists_arguments {words : List (List Char)} {e : Entry} (h : Said words e) :
    exists arguments, words = e.directive.word.toList :: arguments := by
  cases e with
  | scalar s l =>
      rcases h with ⟨text, hwords, _⟩
      exact ⟨_, hwords⟩
  | move m =>
      rcases h with ⟨source, target, travel, hwords, _⟩
      exact ⟨_, hwords⟩

theorem Said.directive_eq {d : Directive} {arguments : List (List Char)} {e : Entry}
    (h : Said (d.word.toList :: arguments) e) : e.directive = d := by
  rcases h.exists_arguments with ⟨others, hwords⟩
  exact Directive.word_injective (List.cons.inj hwords).left.symm

theorem Said.eq {words : List (List Char)} {e f : Entry} (he : Said words e)
    (hf : Said words f) : e = f := by
  have hdirective : f.directive = e.directive := by
    rcases he.exists_arguments with ⟨arguments, rfl⟩
    exact hf.directive_eq
  cases e with
  | scalar s l =>
      cases f with
      | scalar t k =>
          cases hdirective
          rcases he with ⟨text, rfl, hl⟩
          rcases hf with ⟨_, hwords, hk⟩
          cases hwords
          rw [Latency.eq_of_ms_eq (hl.eq hk)]
      | move n => cases hdirective
  | move m =>
      cases f with
      | scalar t k => cases hdirective
      | move n =>
          rcases he with ⟨source, target, travel, rfl, hm⟩
          rcases hf with ⟨_, _, _, hwords, hn⟩
          cases hwords
          rw [hm.eq hn]

theorem given_concat_iff {lines : List (List (List Char))} {words : List (List Char)}
    {e : Entry} : Given (lines ++ [words]) e <-> Given lines e ∨ Said words e := by
  simp only [Given, List.mem_append, List.mem_singleton, or_and_right, exists_or,
    exists_eq_left]

theorem given_of_perm {lines others : List (List (List Char))} (h : lines.Perm others)
    {e : Entry} : Given lines e <-> Given others e := by
  simp only [Given, h.mem_iff]

end Entry

/-!
# Contradictions
-/

def Directive.Begins (words : List (List Char)) : Prop :=
  exists (d : Directive) (arguments : List (List Char)), words = d.word.toList :: arguments

/--
Lines that are well written and do not contradict each other.  So each single latency is
set at most once.
-/
structure Consistent (lines : List (List (List Char))) : Prop where
  written : forall words, words ∈ lines -> Directive.Begins words ->
    exists e, Entry.Said words e
  agreeing : lines.Pairwise (fun earlier later =>
    forall e f, Entry.Said earlier e -> Entry.Said later f -> e.Agrees f)

structure Fits (lines : List (List (List Char))) (words : List (List Char)) : Prop where
  written : Directive.Begins words -> exists e, Entry.Said words e
  agreeing : forall e f, Entry.Given lines e -> Entry.Said words f -> e.Agrees f

namespace Consistent

theorem nil : Consistent [] where
  written := fun _ h => absurd h List.not_mem_nil
  agreeing := List.Pairwise.nil

theorem concat_iff {lines : List (List (List Char))} {words : List (List Char)} :
    Consistent (lines ++ [words]) <-> Consistent lines ∧ Fits lines words := by
  constructor
  · intro h
    rcases List.pairwise_append.mp h.agreeing with ⟨hlines, _, hlast⟩
    constructor
    · exact ⟨fun earlier hearlier => h.written earlier (List.mem_append_left _ hearlier),
        hlines⟩
    · refine ⟨h.written words List.mem_concat_self, ?_⟩
      intro e f ⟨earlier, hearlier, he⟩ hf
      exact hlast earlier hearlier words List.mem_cons_self e f he hf
  · intro ⟨h, hfits⟩
    constructor
    · intro line hline
      rcases List.mem_append.mp hline with hline | hline
      · exact h.written line hline
      · rw [List.mem_singleton.mp hline]
        exact hfits.written
    · apply List.pairwise_append.mpr
      refine ⟨h.agreeing, List.pairwise_singleton _ _, ?_⟩
      intro earlier hearlier line hline e f he hf
      rw [List.mem_singleton.mp hline] at hf
      exact hfits.agreeing e f ⟨earlier, hearlier, he⟩ hf

theorem eq_or_agrees {lines : List (List (List Char))} (h : Consistent lines) {e f : Entry}
    (he : Entry.Given lines e) (hf : Entry.Given lines f) : e = f ∨ e.Agrees f := by
  rcases he with ⟨words, hwords, he⟩
  rcases hf with ⟨others, hothers, hf⟩
  have hforward : lines.Pairwise (fun earlier later =>
      forall e f, Entry.Said earlier e -> Entry.Said later f -> e = f ∨ e.Agrees f) :=
    h.agreeing.imp (fun hagree e f he hf => Or.inr (hagree e f he hf))
  have hbackward : lines.Pairwise (fun earlier later =>
      forall e f, Entry.Said later e -> Entry.Said earlier f -> e = f ∨ e.Agrees f) :=
    h.agreeing.imp (fun hagree e f he hf => Or.inr (hagree f e hf he).symm)
  exact hforward.forall_of_forall_of_flip (fun _ _ e f he hf => Or.inl (he.eq hf))
    hbackward hwords hothers e f he hf

theorem perm {lines others : List (List (List Char))} (hperm : lines.Perm others)
    (h : Consistent lines) : Consistent others where
  written := fun words hwords => h.written words (hperm.mem_iff.mpr hwords)
  agreeing := hperm.pairwise h.agreeing (fun hagree e f he hf => (hagree f e hf he).symm)

end Consistent

/-!
# Reading one line
-/

namespace Draft

theorem latencyArgument_eq_ok_iff {directive : Directive} {argument : Nat}
    {text : List Char} {l : Latency} :
    latencyArgument directive argument text = .ok l <->
      Text.Decimal.Denotes text l.ms := by
  have hread : Latency.ofNumeral? text = some l <-> Text.Decimal.Denotes text l.ms := by
    rw [Latency.ofNumeral?_eq_some_iff, Text.Decimal.positive?_eq_some_iff,
      and_iff_left ⟨l.ms_pos, l.ms_le⟩]
  rw [<- hread, latencyArgument]
  cases Latency.ofNumeral? text with
  | none => simp
  | some k => simp

theorem positionArgument_eq_ok_iff {argument : Nat} {text : List Char} {p : Position} :
    positionArgument argument text = .ok p <->
      Text.Decimal.Denotes text p ∧ 0 < p ∧ p <= Position.last := by
  unfold positionArgument
  rw [Outcome.bind_eq_ok_iff]
  constructor
  · intro ⟨n, hn, h⟩
    split at h
    · rename_i hle
      injection h with hp
      exact hp ▸ ⟨latencyArgument_eq_ok_iff.mp hn, n.ms_pos, hle⟩
    · cases h
  · intro ⟨htext, hpos, hle⟩
    exact ⟨⟨p, hpos, Nat.le_trans hle (by decide)⟩, latencyArgument_eq_ok_iff.mpr htext,
      if_pos hle⟩

theorem moveArguments_eq_ok_iff {source target travel : List Char} {m : Move} :
    moveArguments source target travel = .ok m <-> m.Denoted source target travel := by
  unfold moveArguments
  simp only [Outcome.bind_eq_ok_iff, positionArgument_eq_ok_iff,
    latencyArgument_eq_ok_iff]
  constructor
  · intro ⟨a, ⟨ha, harange⟩, b, ⟨hb, hbrange⟩, t, ht, h⟩
    split at h
    · cases h
    · rename_i hapart
      injection h with hm
      subst hm
      exact ⟨ha, harange, hb, hbrange, ht, hapart⟩
  · intro h
    exact ⟨m.source, ⟨h.source_denotes, h.source_range⟩, m.target,
      ⟨h.target_denotes, h.target_range⟩, m.travel, h.travel_denotes, if_neg h.apart⟩

def Holds (d : Draft) : Entry -> Prop
  | .scalar s l => d.scalar s = some l
  | .move m => m ∈ d.moves

def Admits (d : Draft) (e : Entry) : Prop :=
  forall f, d.Holds f -> f.Agrees e

def enter (d : Draft) : Entry -> Draft
  | .scalar s l => d.setScalar s l
  | .move m => { d with moves := m :: d.moves }

theorem admits_scalar_iff {d : Draft} {s : Scalar} {l : Latency} :
    d.Admits (.scalar s l) <-> d.scalar s = none := by
  constructor
  · intro h
    cases hscalar : d.scalar s with
    | none => rfl
    | some k => exact absurd rfl (h (.scalar s k) hscalar)
  · intro hnone f hf
    cases f with
    | scalar t k =>
        intro hsame
        subst hsame
        cases hnone.symm.trans hf
    | move m => trivial

theorem admits_move_iff {d : Draft} {m : Move} :
    d.Admits (.move m) <-> d.moves.any (fun earlier => earlier.excludes m) = false := by
  rw [List.any_eq_false]
  constructor
  · intro h earlier hearlier
    exact Bool.not_eq_true _ ▸ Move.excludes_eq_false_iff.mpr (h (.move earlier) hearlier)
  · intro h f hf
    cases f with
    | scalar t k => trivial
    | move earlier =>
        exact Move.excludes_eq_false_iff.mp (Bool.eq_false_iff.mpr (h earlier hf))

theorem holds_enter {d : Draft} {e f : Entry} (h : d.Admits e) :
    (d.enter e).Holds f <-> d.Holds f ∨ f = e := by
  cases e with
  | scalar s l =>
      have hnone := admits_scalar_iff.mp h
      cases f with
      | scalar t k =>
          show (if t = s then some l else d.scalar t) = some k <-> d.scalar t = some k ∨ _
          by_cases hsame : t = s
          · subst hsame
            rw [if_pos rfl, hnone]
            simp [eq_comm]
          · rw [if_neg hsame]
            simp [hsame]
      | move m => simp [Holds, enter, setScalar]
  | move m =>
      cases f with
      | scalar t k => simp [Holds, enter]
      | move n => simp [Holds, enter, or_comm]

theorem addScalar_eq_ok_iff {d next : Draft} {s : Scalar} {arguments : List (List Char)} :
    d.addScalar s arguments = .ok next <->
      exists l, Entry.Said (s.word.toList :: arguments) (.scalar s l) ∧
        d.Admits (.scalar s l) ∧ next = d.enter (.scalar s l) := by
  unfold addScalar
  constructor
  · intro h
    split at h
    · rename_i text
      split at h
      · cases h
      · rename_i hnone
        rcases Outcome.map_eq_ok_iff.mp h with ⟨l, hl, hnext⟩
        exact ⟨l, ⟨text, rfl, latencyArgument_eq_ok_iff.mp hl⟩,
          admits_scalar_iff.mpr (Option.not_isSome_iff_eq_none.mp hnone), hnext.symm⟩
    · cases h
  · intro ⟨l, ⟨text, hwords, htext⟩, hadmits, hnext⟩
    cases hwords
    show (if (d.scalar s).isSome = true then _ else _) = Except.ok next
    rw [if_neg (Option.not_isSome_iff_eq_none.mpr (admits_scalar_iff.mp hadmits))]
    exact Outcome.map_eq_ok_iff.mpr ⟨l, latencyArgument_eq_ok_iff.mpr htext, hnext.symm⟩

theorem addMove_eq_ok_iff {d next : Draft} {arguments : List (List Char)} :
    d.addMove arguments = .ok next <->
      exists m, Entry.Said (Directive.move.word.toList :: arguments) (.move m) ∧
        d.Admits (.move m) ∧ next = d.enter (.move m) := by
  unfold addMove
  constructor
  · intro h
    split at h
    · rename_i source target travel
      rcases Outcome.bind_eq_ok_iff.mp h with ⟨m, hm, h⟩
      split at h
      · cases h
      · rename_i hany
        injection h with hnext
        exact ⟨m, ⟨source, target, travel, rfl, moveArguments_eq_ok_iff.mp hm⟩,
          admits_move_iff.mpr (Bool.eq_false_iff.mpr hany), hnext.symm⟩
    · cases h
  · intro ⟨m, ⟨source, target, travel, hwords, hm⟩, hadmits, hnext⟩
    cases hwords
    refine Outcome.bind_eq_ok_iff.mpr ⟨m, moveArguments_eq_ok_iff.mpr hm, ?_⟩
    rw [if_neg (Bool.eq_false_iff.mp (admits_move_iff.mp hadmits)), hnext]
    rfl

theorem addWords_of_not_begins {d : Draft} {words : List (List Char)}
    (h : ¬ Directive.Begins words) : d.addWords words = .ok d := by
  cases words with
  | nil => rfl
  | cons first arguments =>
      cases hword : Directive.ofWord? first with
      | none => rw [addWords, hword]
      | some directive =>
          exact absurd ⟨directive, arguments, by rw [Directive.word_of_ofWord? hword]⟩ h

theorem addWords_eq_ok_iff {d next : Draft} {words : List (List Char)}
    (h : Directive.Begins words) :
    d.addWords words = .ok next <->
      exists e, Entry.Said words e ∧ d.Admits e ∧ next = d.enter e := by
  rcases h with ⟨directive, arguments, rfl⟩
  rw [addWords, Directive.ofWord?_word]
  cases directive with
  | scalar s =>
      refine addScalar_eq_ok_iff.trans ⟨fun ⟨l, hl⟩ => ⟨.scalar s l, hl⟩, ?_⟩
      intro ⟨e, hsaid, he⟩
      cases e with
      | scalar t l =>
          cases hsaid.directive_eq
          exact ⟨l, hsaid, he⟩
      | move m => cases hsaid.directive_eq
  | move =>
      refine addMove_eq_ok_iff.trans ⟨fun ⟨m, hm⟩ => ⟨.move m, hm⟩, ?_⟩
      intro ⟨e, hsaid, he⟩
      cases e with
      | scalar t l => cases hsaid.directive_eq
      | move m => exact ⟨m, hsaid, he⟩

end Draft
end Plectrum

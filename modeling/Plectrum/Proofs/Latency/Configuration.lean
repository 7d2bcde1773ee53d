import Plectrum.Proofs.Latency.Entries

/-!
# What a configuration says

The lines of a configuration are read one after the other, and each is held against
those before it.  Still their order does not matter.  A configuration is read if its
lines are well written, no two of them contradict each other and no single latency is
missing, and the table then holds what the lines say and nothing else.
-/

namespace Plectrum

/-!
# Reading all lines
-/

def Text.Line.words (line : Text.Line) : List (List Char) :=
  Text.words line.text

namespace Draft

def Records (lines : List Text.Line) (d : Draft) : Prop :=
  forall e, d.Holds e <-> Entry.Given (lines.map Text.Line.words) e

theorem records_nil : Records [] {} := by
  intro e
  cases e <;> simp [Holds, Entry.Given]

theorem addLine_eq_ok_iff {d next : Draft} {line : Text.Line} :
    d.addLine line = .ok next <-> d.addWords line.words = .ok next :=
  Outcome.mapError_eq_ok_iff

theorem Records.concat {lines : List Text.Line} {d next : Draft} (h : Records lines d)
    {line : Text.Line} (hline : d.addLine line = .ok next) :
    Records (lines ++ [line]) next := by
  intro e
  rw [List.map_append, List.map_singleton, Entry.given_concat_iff, <- h e]
  have hwords := addLine_eq_ok_iff.mp hline
  by_cases hbegins : Directive.Begins line.words
  · rcases (addWords_eq_ok_iff hbegins).mp hwords with ⟨f, hsaid, hadmits, rfl⟩
    rw [holds_enter hadmits]
    exact or_congr_right ⟨fun he => he ▸ hsaid, fun he => he.eq hsaid⟩
  · injection (addWords_of_not_begins hbegins).symm.trans hwords with hnext
    rw [<- hnext, or_iff_left]
    exact fun hsaid => hbegins ⟨e.directive, hsaid.exists_arguments⟩

theorem Records.addLine_ok_iff {lines : List Text.Line} {d : Draft} (h : Records lines d)
    {line : Text.Line} :
    (exists next, d.addLine line = .ok next) <->
      Fits (lines.map Text.Line.words) line.words := by
  by_cases hbegins : Directive.Begins line.words
  · constructor
    · intro ⟨next, hline⟩
      rcases (addWords_eq_ok_iff hbegins).mp (addLine_eq_ok_iff.mp hline) with
        ⟨f, hsaid, hadmits, _⟩
      refine ⟨fun _ => ⟨f, hsaid⟩, ?_⟩
      intro e g he hg
      rw [hg.eq hsaid]
      exact hadmits e ((h e).mpr he)
    · intro hfits
      rcases hfits.written hbegins with ⟨f, hsaid⟩
      have hadmits : d.Admits f := fun e he => hfits.agreeing e f ((h e).mp he) hsaid
      exact ⟨d.enter f, addLine_eq_ok_iff.mpr
        ((addWords_eq_ok_iff hbegins).mpr ⟨f, hsaid, hadmits, rfl⟩)⟩
  · constructor
    · intro _
      refine ⟨fun h => absurd h hbegins, ?_⟩
      intro e f _ hf
      exact absurd ⟨f.directive, hf.exists_arguments⟩ hbegins
    · intro _
      exact ⟨d, addLine_eq_ok_iff.mpr (addWords_of_not_begins hbegins)⟩

end Draft

namespace Latencies

theorem records_of_readLines {lines : List Text.Line} {d : Draft}
    (h : readLines lines = .ok d) : Draft.Records lines d :=
  Outcome.foldlM_known Draft.Records Draft.records_nil
    (fun _ _ _ _ _ hpassed hline => hpassed.concat hline) (fun _ hline => hline) h

theorem readLines_ok_iff {lines : List Text.Line} :
    (exists d, readLines lines = .ok d) <-> Consistent (lines.map Text.Line.words) :=
  Outcome.foldlM_ok_iff Draft.Records Draft.records_nil
    (fun _ _ _ _ _ hpassed hline => hpassed.concat hline)
    (fun passed => Consistent (passed.map Text.Line.words))
    (fun passed line => Fits (passed.map Text.Line.words) line.words)
    Consistent.nil
    (fun passed line => by
      rw [List.map_append, List.map_singleton]
      exact Consistent.concat_iff)
    (fun _ _ _ _ hpassed => hpassed.addLine_ok_iff) (fun _ hline => hline)

end Latencies

/-!
# Completing the table
-/

theorem find?_map_eq_some_iff {value result : Type} {p : value -> Bool}
    {f : value -> result} {xs : List value}
    (h : forall x y, x ∈ xs -> y ∈ xs -> p x = true -> p y = true -> f x = f y)
    {b : result} :
    (xs.find? p).map f = some b <-> exists x, x ∈ xs ∧ p x = true ∧ f x = b := by
  constructor
  · intro hfound
    rcases Option.map_eq_some_iff.mp hfound with ⟨x, hx, hb⟩
    exact ⟨x, List.mem_of_find?_eq_some hx, List.find?_some hx, hb⟩
  · intro ⟨x, hx, hp, hb⟩
    cases hfound : xs.find? p with
    | none => exact absurd hp (List.find?_eq_none.mp hfound x hx)
    | some y =>
        have hy := List.mem_of_find?_eq_some hfound
        rw [<- hb, h x y hx hy hp (List.find?_some hfound)]
        rfl

theorem Draft.mem_pairs {low high : Position} :
    (low, high) ∈ pairs <-> 0 < low ∧ low < high ∧ high <= Position.last := by
  have hbound : forall {a b : Nat}, a < 1 + Position.last ->
      (b < a + 1 + (Position.last - a) <-> b <= Position.last) := by
    intro a b ha
    rw [Nat.add_right_comm, Nat.add_sub_of_le (Nat.lt_one_add_iff.mp ha),
      Nat.lt_succ_iff]
  simp only [pairs, List.mem_flatMap, List.mem_map, List.mem_range'_1, Prod.mk.injEq]
  constructor
  · intro ⟨a, ⟨hpos, ha⟩, b, ⟨hlt, hb⟩, hlow, hhigh⟩
    subst hlow hhigh
    exact ⟨hpos, hlt, (hbound ha).mp hb⟩
  · intro ⟨hpos, hlt, hle⟩
    have hlow : low < 1 + Position.last :=
      Nat.lt_one_add_iff.mpr (Nat.le_trans (Nat.le_of_lt hlt) hle)
    exact ⟨low, ⟨hpos, hlow⟩, high, ⟨hlt, (hbound hlow).mpr hle⟩, rfl, rfl⟩

theorem Entry.Given.mem_pairs {lines : List (List (List Char))} {m : Move}
    (h : Entry.Given lines (.move m)) :
    (m.source, m.target) ∈ Draft.pairs ∨ (m.target, m.source) ∈ Draft.pairs := by
  rcases h with ⟨_, _, _, _, _, _, hm⟩
  rw [Draft.mem_pairs, Draft.mem_pairs]
  rcases Nat.lt_or_gt_of_ne hm.apart with hlt | hlt
  · exact Or.inl ⟨hm.source_range.left, hlt, hm.target_range.right⟩
  · exact Or.inr ⟨hm.target_range.left, hlt, hm.source_range.right⟩

namespace Draft

theorem travel?_comm (d : Draft) (a b : Position) : d.travel? a b = d.travel? b a := by
  simp only [travel?, Move.joins, Bool.or_comm]

theorem mem_edges {d : Draft} {e : Edge} :
    e ∈ d.edges <->
      (e.low, e.high) ∈ pairs ∧ d.travel? e.low e.high = some e.travel := by
  simp only [edges, List.mem_filterMap, Option.map_eq_some_iff]
  constructor
  · intro ⟨pair, hpair, t, ht, he⟩
    subst he
    exact ⟨hpair, ht⟩
  · intro ⟨hpair, ht⟩
    exact ⟨_, hpair, _, ht, rfl⟩

theorem travel?_of_mem_edges {d : Draft} {e : Edge} (he : e ∈ d.edges) {a b : Position}
    (hjoins : e.joins a b = true) : d.travel? a b = some e.travel := by
  have htravel := (mem_edges.mp he).right
  rcases Edge.joins_iff.mp hjoins with ⟨rfl, rfl⟩ | ⟨rfl, rfl⟩
  · exact htravel
  · rw [travel?_comm]
    exact htravel

theorem Records.travel?_eq_some_iff {lines : List Text.Line} {d : Draft}
    (h : Records lines d) (hlines : Consistent (lines.map Text.Line.words))
    {a b : Position} {t : Latency} :
    d.travel? a b = some t <->
      Entry.Given (lines.map Text.Line.words) (.move ⟨a, b, t⟩) ∨
        Entry.Given (lines.map Text.Line.words) (.move ⟨b, a, t⟩) := by
  have hsame : forall m n, m ∈ d.moves -> n ∈ d.moves -> m.joins a b = true ->
      n.joins a b = true -> m.travel = n.travel := by
    intro m n hm hn hmjoins hnjoins
    rcases hlines.eq_or_agrees ((h (.move m)).mp hm) ((h (.move n)).mp hn) with heq | hagree
    · injection heq with heq
      rw [heq]
    · exact Move.Agrees.travel_eq hagree hmjoins hnjoins
  rw [travel?, find?_map_eq_some_iff hsame, <- h, <- h]
  constructor
  · intro ⟨m, hm, hjoins, ht⟩
    subst ht
    rcases Move.joins_iff.mp hjoins with ⟨rfl, rfl⟩ | ⟨rfl, rfl⟩
    · exact Or.inl hm
    · exact Or.inr hm
  · rintro (hm | hm)
    · exact ⟨_, hm, Move.joins_iff.mpr (Or.inl ⟨rfl, rfl⟩), rfl⟩
    · exact ⟨_, hm, Move.joins_iff.mpr (Or.inr ⟨rfl, rfl⟩), rfl⟩

end Draft

/-!
# The table
-/

namespace Latencies

def scalar (l : Latencies) : Scalar -> Latency
  | .settle => l.settle
  | .press => l.press
  | .release => l.release

theorem finish_eq_ok_iff {d : Draft} {l : Latencies} :
    d.finish = .ok l <-> (forall s, d.scalar s = some (l.scalar s)) ∧ l.edges = d.edges := by
  have hrequire : forall {s k}, d.require s = .ok k <-> d.scalar s = some k := by
    intro s k
    unfold Draft.require
    cases d.scalar s with
    | none => simp
    | some l => simp
  unfold Draft.finish
  simp only [Outcome.bind_eq_ok_iff, hrequire]
  constructor
  · intro ⟨settle, hsettle, press, hpress, release, hrelease, hl⟩
    injection hl with hl
    subst hl
    refine ⟨fun s => ?_, rfl⟩
    cases s with
    | settle => exact hsettle
    | press => exact hpress
    | release => exact hrelease
  · intro ⟨hscalar, hedges⟩
    refine ⟨_, hscalar .settle, _, hscalar .press, _, hscalar .release, ?_⟩
    rw [<- hedges]
    rfl

theorem finish_ok_iff {d : Draft} :
    (exists l, d.finish = .ok l) <-> forall s, exists t, d.scalar s = some t := by
  constructor
  · intro ⟨l, h⟩ s
    exact ⟨l.scalar s, (finish_eq_ok_iff.mp h).left s⟩
  · intro h
    rcases h .settle with ⟨settle, hsettle⟩
    rcases h .press with ⟨press, hpress⟩
    rcases h .release with ⟨release, hrelease⟩
    refine ⟨⟨settle, press, release, d.edges⟩, finish_eq_ok_iff.mpr ⟨fun s => ?_, rfl⟩⟩
    cases s with
    | settle => exact hsettle
    | press => exact hpress
    | release => exact hrelease

theorem travel?_of_edges {d : Draft} {l : Latencies} (h : l.edges = d.edges)
    {a b : Position} {t : Latency} :
    l.travel? a b = some t <->
      d.travel? a b = some t ∧ ((a, b) ∈ Draft.pairs ∨ (b, a) ∈ Draft.pairs) := by
  have hsame : forall e f, e ∈ d.edges -> f ∈ d.edges -> e.joins a b = true ->
      f.joins a b = true -> e.travel = f.travel := by
    intro e f he hf hejoins hfjoins
    exact Option.some.inj ((Draft.travel?_of_mem_edges he hejoins).symm.trans
      (Draft.travel?_of_mem_edges hf hfjoins))
  rw [travel?, h, find?_map_eq_some_iff hsame]
  constructor
  · rintro ⟨e, he, hjoins, rfl⟩
    refine ⟨Draft.travel?_of_mem_edges he hjoins, ?_⟩
    have hpair := (Draft.mem_edges.mp he).left
    rcases Edge.joins_iff.mp hjoins with ⟨rfl, rfl⟩ | ⟨rfl, rfl⟩
    · exact Or.inl hpair
    · exact Or.inr hpair
  · rintro ⟨ht, hpair | hpair⟩
    · exact ⟨⟨a, b, t⟩, Draft.mem_edges.mpr ⟨hpair, ht⟩,
        Edge.joins_iff.mpr (Or.inl ⟨rfl, rfl⟩), rfl⟩
    · exact ⟨⟨b, a, t⟩, Draft.mem_edges.mpr ⟨hpair, d.travel?_comm a b ▸ ht⟩,
        Edge.joins_iff.mpr (Or.inr ⟨rfl, rfl⟩), rfl⟩

def lines (configuration : List Char) : List (List (List Char)) :=
  (Text.numberedLines configuration).map Text.Line.words

structure Acceptable (lines : List (List (List Char))) : Prop where
  consistent : Consistent lines
  complete : forall s, exists l, Entry.Given lines (.scalar s l)

structure Describes (lines : List (List (List Char))) (l : Latencies) : Prop where
  scalar : forall s t, Entry.Given lines (.scalar s t) <-> l.scalar s = t
  travel : forall a b t,
    l.travel a b = .ok t <->
      Entry.Given lines (.move ⟨a, b, t⟩) ∨ Entry.Given lines (.move ⟨b, a, t⟩)

theorem read_eq_ok_iff {configuration : List Char} {l : Latencies} :
    read configuration = .ok l <->
      exists d, readLines (Text.numberedLines configuration) = .ok d ∧ d.finish = .ok l := by
  rw [read, Outcome.bind_eq_ok_iff]

theorem consistent_of_readLines {configuration : List Char} {d : Draft}
    (h : readLines (Text.numberedLines configuration) = .ok d) :
    Consistent (lines configuration) :=
  readLines_ok_iff.mp ⟨d, h⟩

theorem read_ok_iff {configuration : List Char} :
    (exists l, read configuration = .ok l) <-> Acceptable (lines configuration) := by
  constructor
  · intro ⟨l, h⟩
    rcases read_eq_ok_iff.mp h with ⟨d, hd, hfinish⟩
    refine ⟨consistent_of_readLines hd, ?_⟩
    intro s
    rcases finish_ok_iff.mp ⟨l, hfinish⟩ s with ⟨t, ht⟩
    exact ⟨t, (records_of_readLines hd (.scalar s t)).mp ht⟩
  · intro h
    rcases readLines_ok_iff.mpr h.consistent with ⟨d, hd⟩
    have hscalar : forall s, exists t, d.scalar s = some t := by
      intro s
      rcases h.complete s with ⟨t, ht⟩
      exact ⟨t, (records_of_readLines hd (.scalar s t)).mpr ht⟩
    rcases finish_ok_iff.mpr hscalar with ⟨l, hl⟩
    exact ⟨l, read_eq_ok_iff.mpr ⟨d, hd, hl⟩⟩

theorem describes_of_read {configuration : List Char} {l : Latencies}
    (h : read configuration = .ok l) : Describes (lines configuration) l := by
  rcases read_eq_ok_iff.mp h with ⟨d, hd, hfinish⟩
  rcases finish_eq_ok_iff.mp hfinish with ⟨hscalar, hedges⟩
  have hrecords := records_of_readLines hd
  constructor
  · intro s t
    show Entry.Given ((Text.numberedLines configuration).map Text.Line.words) _ <-> _
    rw [<- hrecords]
    show d.scalar s = some t <-> _
    rw [hscalar s, Option.some.injEq]
  · intro a b t
    rw [travel_eq_ok_iff, travel?_of_edges hedges,
      hrecords.travel?_eq_some_iff (consistent_of_readLines hd)]
    apply and_iff_left_of_imp
    -- No line gives a travel time that the table has no place for.
    rintro (hgiven | hgiven)
    · exact hgiven.mem_pairs
    · exact hgiven.mem_pairs.symm

theorem eq_of_read_perm {configuration other : List Char} {l k : Latencies}
    (hperm : (lines other).Perm (lines configuration))
    (hl : read configuration = .ok l) (hk : read other = .ok k) : k = l := by
  have hdescribes := describes_of_read hl
  have hothers := describes_of_read hk
  have hscalar : forall s, k.scalar s = l.scalar s := by
    intro s
    exact (hothers.scalar s _).mp ((Entry.given_of_perm hperm).mpr
      ((hdescribes.scalar s _).mpr rfl))
  rcases read_eq_ok_iff.mp hl with ⟨d, hd, hfinish⟩
  rcases read_eq_ok_iff.mp hk with ⟨f, hf, hother⟩
  have htravel : f.travel? = d.travel? := by
    funext a b
    apply Option.ext
    intro t
    rw [(records_of_readLines hd).travel?_eq_some_iff (consistent_of_readLines hd),
      (records_of_readLines hf).travel?_eq_some_iff (consistent_of_readLines hf)]
    exact or_congr (Entry.given_of_perm hperm) (Entry.given_of_perm hperm)
  calc
    k = ⟨k.scalar .settle, k.scalar .press, k.scalar .release, k.edges⟩ := rfl
    _ = ⟨l.scalar .settle, l.scalar .press, l.scalar .release, l.edges⟩ := by
        rw [hscalar, hscalar, hscalar, (finish_eq_ok_iff.mp hfinish).right,
          (finish_eq_ok_iff.mp hother).right, Draft.edges, Draft.edges, htravel]
    _ = l := rfl

theorem lines_perm {configuration other : List Char}
    (h : ((Text.numberedLines other).map Text.Line.text).Perm
      ((Text.numberedLines configuration).map Text.Line.text)) :
    (lines other).Perm (lines configuration) := by
  have hwords := h.map Text.words
  rw [List.map_map, List.map_map] at hwords
  exact hwords

theorem Acceptable.perm {lines others : List (List (List Char))}
    (hperm : lines.Perm others) (h : Acceptable lines) : Acceptable others where
  consistent := h.consistent.perm hperm
  complete := by
    intro s
    rcases h.complete s with ⟨t, ht⟩
    exact ⟨t, (Entry.given_of_perm hperm).mp ht⟩

theorem read_of_perm {configuration other : List Char} {l : Latencies}
    (hperm : (lines other).Perm (lines configuration)) (h : read other = .ok l) :
    read configuration = .ok l := by
  rcases read_ok_iff.mpr ((read_ok_iff.mp ⟨l, h⟩).perm hperm) with ⟨k, hk⟩
  rw [hk, eq_of_read_perm hperm hk h]

/--
A configuration is read if and only if its lines are acceptable.  The table holds what
they say; it is symmetric, and only between different positions of the instrument there
is a travel time.  Lines in another order are read as the same table.
-/
theorem read_accepts_and_describes (configuration : List Char) :
    ((exists l, read configuration = .ok l) <-> Acceptable (lines configuration)) ∧
      (forall l, read configuration = .ok l ->
        Describes (lines configuration) l ∧
          forall a b t, l.travel a b = .ok t ->
            l.travel b a = .ok t ∧ a ≠ b ∧ 0 < t.ms ∧
              (0 < a ∧ a <= Position.last) ∧ 0 < b ∧ b <= Position.last) ∧
      forall other,
        ((Text.numberedLines other).map Text.Line.text).Perm
            ((Text.numberedLines configuration).map Text.Line.text) ->
          forall l, read other = .ok l <-> read configuration = .ok l := by
  refine ⟨read_ok_iff, ?_, ?_⟩
  · intro l h
    have hdescribes := describes_of_read h
    refine ⟨hdescribes, ?_⟩
    intro a b t ht
    have hgiven := (hdescribes.travel a b t).mp ht
    refine ⟨(hdescribes.travel b a t).mpr hgiven.symm, ?_⟩
    rcases hgiven with ⟨_, _, _, _, _, _, hm⟩ | ⟨_, _, _, _, _, _, hm⟩
    · exact ⟨hm.apart, t.ms_pos, hm.source_range, hm.target_range⟩
    · exact ⟨hm.apart.symm, t.ms_pos, hm.target_range, hm.source_range⟩
  · intro other h l
    exact ⟨read_of_perm (lines_perm h), read_of_perm (lines_perm h.symm)⟩

/-!
# A configuration in two orders
-/

def sampleText : List Char :=
  ("press_latency 5\nmove_latency 2 1 20\nfret_latency 10\n\n" ++
    "tuning 4\nrelease_latency 6\nmove_latency 1 2 20\n").toList

def shuffledText : List Char :=
  ("move_latency 1 2 20\nrelease_latency 6\ntuning 4\n" ++
    "fret_latency 10\npress_latency 5\nmove_latency 2 1 20\n\n").toList

theorem shuffled_accepts_and_describes :
    Acceptable (lines sampleText) ∧
      exists l, Describes (lines sampleText) l ∧ read shuffledText = .ok l ∧
        exists t, t.ms = 20 ∧ l.travel 1 2 = .ok t ∧ l.travel 2 1 = .ok t := by
  have hedge : (read sampleText).toOption.map
      (fun l => (l.travel 2 1).toOption.map Latency.ms) = some (some 20) := by
    decide +kernel
  rcases Option.map_eq_some_iff.mp hedge with ⟨l, hsome, htravel⟩
  rcases Option.map_eq_some_iff.mp htravel with ⟨t, ht, hms⟩
  have h := Outcome.toOption_eq_some_iff.mp hsome
  have hback := Outcome.toOption_eq_some_iff.mp ht
  rcases read_accepts_and_describes sampleText with ⟨haccepts, hdescribes, hperm⟩
  rcases hdescribes l h with ⟨hlines, hboth⟩
  exact ⟨haccepts.mp ⟨l, h⟩, l, hlines, (hperm shuffledText (by decide +kernel) l).mpr h,
    t, hms, (hboth 2 1 t hback).left, hback⟩

end Latencies
end Plectrum

import Plectrum.Text.Replacement

/-!
# Where text is replaced

Replacing goes on behind an occurrence, and it copies a character at which none begins.
A character that is in no occurrence cuts the text: what is in front of it and what is
behind it are replaced apart.
-/

namespace Plectrum
namespace Text

/-!
# Separators
-/

section Separator

variable {item : Type}

theorem split_at_separator {separator : item} {front back before core rest : List item}
    (h : front ++ separator :: back = before ++ (core ++ rest))
    (hcore : separator ∉ core) :
    (exists more, front = before ++ (core ++ more) ∧ rest = more ++ separator :: back) ∨
      (exists more, before = front ++ separator :: more ∧ back = more ++ (core ++ rest)) := by
  rcases List.append_eq_append_iff.mp h with ⟨more, hbefore, hback⟩ | ⟨more, hfront, hrest⟩
  · rcases List.cons_eq_append_iff.mp hback with ⟨rfl, hcut⟩ | ⟨behind, rfl, hbehind⟩
    · rcases List.append_eq_cons_iff.mp hcut with ⟨rfl, hrest⟩ | ⟨tail, rfl, _⟩
      · exact Or.inl ⟨[], by simpa using hbefore.symm, hrest⟩
      · exact absurd List.mem_cons_self hcore
    · exact Or.inr ⟨behind, hbefore, hbehind⟩
  · rcases List.append_eq_append_iff.mp hrest with ⟨last, hmore, hrest⟩ | ⟨last, hcut, hlast⟩
    · exact Or.inl ⟨last, by rw [hfront, hmore], hrest⟩
    · rcases List.cons_eq_append_iff.mp hlast with ⟨rfl, hrest⟩ | ⟨behind, rfl, _⟩
      · exact Or.inl ⟨[], by simp [hfront, hcut], hrest⟩
      · rw [hcut] at hcore
        exact absurd (List.mem_append_right more List.mem_cons_self) hcore

theorem prefix_append_separator_iff {separator : item} {core : List item}
    (hcore : separator ∉ core) {front back : List item} :
    core <+: front ++ separator :: back <-> core <+: front := by
  constructor
  · intro ⟨rest, h⟩
    have hsplit : front ++ separator :: back = [] ++ (core ++ rest) := h.symm
    rcases split_at_separator hsplit hcore with ⟨more, hfront, _⟩ | ⟨more, hnil, _⟩
    · exact ⟨more, hfront.symm⟩
    · cases List.append_eq_nil_iff.mp hnil.symm with
      | intro _ hcons => cases hcons
  · intro h
    exact h.trans (List.prefix_append front _)

theorem append_separator_inj {separator : item} {front front' back back' : List item}
    (hfront : separator ∉ front) (hfront' : separator ∉ front')
    (h : front ++ separator :: back = front' ++ separator :: back') :
    front = front' ∧ back = back' := by
  have hsplit : front ++ separator :: back = [] ++ (front' ++ separator :: back') := h
  rcases split_at_separator hsplit hfront' with ⟨more, hmore, hback⟩ | ⟨more, hnil, _⟩
  · cases more with
    | nil =>
        injection hback with _ hback
        exact ⟨by simpa using hmore, hback.symm⟩
    | cons a more =>
        injection hback with ha _
        rw [hmore, ha] at hfront
        exact absurd (List.mem_append_right front' List.mem_cons_self) hfront
  · cases (List.append_eq_nil_iff.mp hnil.symm).right

end Separator

/-!
# Replacing
-/

theorem replaceFrom_skip (old new : List Char) (text : List Char) :
    forall skip : Nat,
      replaceFrom old new [] skip text = replace old new (text.drop skip) := by
  induction text with
  | nil =>
      intro skip
      cases skip <;> rfl
  | cons c rest ih =>
      intro skip
      cases skip with
      | zero => rfl
      | succ skip => exact ih skip

theorem replace_cons (old new : List Char) {c : Char} {rest : List Char}
    (h : ¬ old <+: c :: rest) : replace old new (c :: rest) = c :: replace old new rest := by
  unfold replace
  rw [replaceFrom, if_neg (mt List.isPrefixOf_iff_prefix.mp h), replaceFrom_finished]
  rfl

theorem replace_append {old : List Char} (hne : old ≠ []) (new rest : List Char) :
    replace old new (old ++ rest) = new ++ replace old new rest := by
  cases old with
  | nil => exact absurd rfl hne
  | cons c back =>
      have hhere : (c :: back).isPrefixOf (c :: (back ++ rest)) = true :=
        List.isPrefixOf_iff_prefix.mpr (List.prefix_append (c :: back) rest)
      have hbehind : (back ++ rest).drop ((c :: back).length - 1) = rest :=
        List.drop_left
      show replaceFrom (c :: back) new [] 0 (c :: (back ++ rest)) = _
      rw [replaceFrom, if_pos hhere, replaceFrom_finished, replaceFrom_skip, hbehind]
      simp

theorem replace_append_separator {separator : Char} {old : List Char} (hne : old ≠ [])
    (hold : separator ∉ old) (new back : List Char) (front : List Char) :
    replace old new (front ++ separator :: back) =
      replace old new front ++ separator :: replace old new back := by
  by_cases h : old <+: front
  · rcases h with ⟨more, hmore⟩
    rw [<- hmore, List.append_assoc, replace_append hne, replace_append hne,
      replace_append_separator hne hold new back more, List.append_assoc]
  · have hwhole : ¬ old <+: front ++ separator :: back :=
      mt (prefix_append_separator_iff hold).mp h
    cases front with
    | nil =>
        rw [List.nil_append] at hwhole ⊢
        rw [replace_cons old new hwhole]
        rfl
    | cons c rest =>
        rw [List.cons_append] at hwhole ⊢
        rw [replace_cons old new hwhole, replace_cons old new h,
          replace_append_separator hne hold new back rest]
        rfl
termination_by front.length
decreasing_by
  · have hpos := List.length_pos_iff.mpr hne
    rw [<- hmore, List.length_append]
    omega
  · exact Nat.lt_succ_self _

end Text
end Plectrum

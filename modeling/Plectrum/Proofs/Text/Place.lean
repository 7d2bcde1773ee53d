import Plectrum.Text.Place

/-!
# Offsets and lines

An offset lies between two characters of a text if and only if it is the size of a front
part of the text.  A place names the line among the lines of the text.
-/

namespace Plectrum
namespace Text

theorem byteSize_pos {text : List Char} (h : text ≠ []) : 0 < byteSize text := by
  cases text with
  | nil => exact absurd rfl h
  | cons c rest =>
      rw [byteSize_cons]
      exact Nat.lt_of_lt_of_le (Char.utf8Size_pos c) (Nat.le_add_right _ _)

namespace Cursor

theorem splitAtByte?_zero (passed text : List Char) :
    splitAtByte? passed 0 text = some (passed, text) := by
  cases text <;> rfl

theorem splitAtByte?_append (front back : List Char) :
    forall passed : List Char,
      splitAtByte? passed (byteSize front) (front ++ back) =
        some (front.reverse ++ passed, back) := by
  induction front with
  | nil => exact fun passed => splitAtByte?_zero passed back
  | cons c front ih =>
      intro passed
      obtain ⟨size, hsize⟩ : exists size, byteSize (c :: front) = size + 1 :=
        Nat.exists_eq_succ_of_ne_zero (Nat.ne_of_gt (byteSize_pos (List.cons_ne_nil c front)))
      have hrest : size + 1 - c.utf8Size = byteSize front := by
        rw [<- hsize, byteSize_cons]
        exact Nat.add_sub_cancel_left _ _
      rw [hsize, List.cons_append, splitAtByte?, if_pos, hrest, ih]
      · simp
      · rw [<- hsize, byteSize_cons]
        exact Nat.le_add_right _ _

theorem exists_front_of_splitAtByte? (text : List Char) :
    forall {passed behind ahead : List Char} {size : Nat},
      splitAtByte? passed size text = some (behind, ahead) ->
        exists front, text = front ++ ahead ∧ behind = front.reverse ++ passed ∧
          size = byteSize front := by
  induction text with
  | nil =>
      intro passed behind ahead size h
      cases size with
      | zero =>
          cases h
          exact ⟨[], rfl, rfl, rfl⟩
      | succ size => cases h
  | cons c rest ih =>
      intro passed behind ahead size h
      cases size with
      | zero =>
          cases h
          exact ⟨[], rfl, rfl, rfl⟩
      | succ size =>
          rw [splitAtByte?] at h
          split at h
          · rename_i hle
            rcases ih h with ⟨front, rfl, rfl, hsize⟩
            refine ⟨c :: front, rfl, by simp, ?_⟩
            rw [byteSize_cons]
            omega
          · cases h

theorem at?_eq_some_iff {text : List Char} {offset : Nat} {c : Cursor} :
    at? text offset = some c <->
      exists front back, text = front ++ back ∧ offset = byteSize front ∧
        c = between front.reverse back := by
  unfold at?
  rw [Option.map_eq_some_iff]
  constructor
  · intro ⟨⟨behind, ahead⟩, hparts, hc⟩
    rcases exists_front_of_splitAtByte? text hparts with ⟨front, htext, rfl, hsize⟩
    exact ⟨front, ahead, htext, hsize, by simpa using hc.symm⟩
  · intro ⟨front, back, htext, hsize, hc⟩
    rw [htext, hsize, splitAtByte?_append]
    exact ⟨_, rfl, by simpa using hc.symm⟩

theorem at?_append (front back : List Char) :
    at? (front ++ back) (byteSize front) = some (between front.reverse back) :=
  at?_eq_some_iff.mpr ⟨front, back, rfl, rfl, rfl⟩

end Cursor

/-!
# The line of a place
-/

theorem firstLine_cases (text : List Char) :
    text.takeWhile (fun a => !isLineBreak a) = text ∨
      exists rest, text = text.takeWhile (fun a => !isLineBreak a) ++ '\n' :: rest := by
  have hsplit : text.takeWhile (fun a => !isLineBreak a) ++
      text.dropWhile (fun a => !isLineBreak a) = text := List.takeWhile_append_dropWhile
  have hstop := List.head?_dropWhile_not (fun a => !isLineBreak a) text
  cases hrest : text.dropWhile (fun a => !isLineBreak a) with
  | nil =>
      rw [hrest, List.append_nil] at hsplit
      exact Or.inl hsplit
  | cons a rest =>
      rw [hrest] at hsplit hstop
      have ha : a = '\n' := by simpa [isLineBreak] using hstop
      exact Or.inr ⟨rest, ha ▸ hsplit.symm⟩

theorem lineBreak_not_mem_firstLine (text : List Char) :
    '\n' ∉ text.takeWhile (fun a => !isLineBreak a) := by
  intro hmem
  cases List.all_eq_true.mp List.all_takeWhile _ hmem

theorem firstLine_eq_self {text : List Char} (h : '\n' ∉ text) :
    text.takeWhile (fun a => !isLineBreak a) = text := by
  rcases firstLine_cases text with hwhole | ⟨rest, hsplit⟩
  · exact hwhole
  · rw [hsplit] at h
    exact absurd (List.mem_append_right _ List.mem_cons_self) h

theorem firstLine_append {line : List Char} (h : '\n' ∉ line) (rest : List Char) :
    (line ++ '\n' :: rest).takeWhile (fun a => !isLineBreak a) = line := by
  rw [List.takeWhile_append, firstLine_eq_self h, if_pos rfl,
    List.takeWhile_cons_of_neg (by decide), List.append_nil]

theorem countP_isLineBreak_eq_zero {text : List Char} (h : '\n' ∉ text) :
    text.countP isLineBreak = 0 := by
  rw [List.countP_eq_zero]
  intro a ha hbreak
  exact h (eq_of_beq hbreak ▸ ha)

theorem length_splitOn_lineBreak (text : List Char) :
    (text.splitOn '\n').length = text.countP isLineBreak + 1 := by
  induction text with
  | nil => rfl
  | cons a rest ih =>
      have hbreak : (a == '\n') = isLineBreak a := rfl
      rw [List.splitOn_cons_eq_if_modifyHead, List.countP_cons, hbreak]
      split
      · rw [List.length_cons, ih]
      · rw [List.length_modifyHead, ih]

namespace Cursor

theorem lineBreak_not_mem_lineBehind (c : Cursor) : '\n' ∉ c.lineBehind.reverse :=
  mt List.mem_reverse.mp (lineBreak_not_mem_firstLine c.behind)

theorem lineBreak_not_mem_currentLine (c : Cursor) : '\n' ∉ c.currentLine := by
  intro hmem
  rcases List.mem_append.mp hmem with hbehind | hahead
  · exact c.lineBreak_not_mem_lineBehind hbehind
  · exact lineBreak_not_mem_firstLine c.ahead hahead

theorem lineBehind_cases (c : Cursor) :
    c.behind.reverse = c.lineBehind.reverse ∨
      exists earlier, c.behind.reverse = earlier ++ '\n' :: c.lineBehind.reverse := by
  rcases firstLine_cases c.behind with hwhole | ⟨rest, hsplit⟩
  · exact Or.inl (congrArg List.reverse hwhole.symm)
  · refine Or.inr ⟨rest.reverse, ?_⟩
    rw [hsplit]
    simp [lineBehind]

theorem exists_lines_behind (c : Cursor) :
    exists earlier, earlier.length + 1 = c.place.line ∧
      forall back, (c.behind.reverse ++ back).splitOn '\n' =
        earlier ++ (c.lineBehind.reverse ++ back).splitOn '\n' := by
  have hnone := countP_isLineBreak_eq_zero c.lineBreak_not_mem_lineBehind
  have hplace : c.place.line = c.behind.reverse.countP isLineBreak + 1 :=
    congrArg (· + 1) List.countP_reverse.symm
  rcases c.lineBehind_cases with hwhole | ⟨earlier, hsplit⟩
  · refine ⟨[], ?_, fun back => by rw [hwhole]; rfl⟩
    rw [hplace, hwhole, hnone]
    rfl
  · refine ⟨earlier.splitOn '\n', ?_, fun back => ?_⟩
    · rw [hplace, hsplit, List.countP_append, List.countP_cons_of_pos rfl, hnone,
        length_splitOn_lineBreak]
    · rw [hsplit, List.append_assoc]
      exact List.splitOn_append_cons_self _ _

/-- The lines of a text in which a cursor stands, with its own line among them. -/
theorem exists_lines (c : Cursor) :
    exists earlier later, earlier.length + 1 = c.place.line ∧
      c.text.splitOn '\n' = earlier ++ c.currentLine :: later := by
  rcases c.exists_lines_behind with ⟨earlier, hlength, hlines⟩
  have hline := c.lineBreak_not_mem_currentLine
  rcases firstLine_cases c.ahead with hwhole | ⟨rest, hsplit⟩
  · refine ⟨earlier, [], hlength, ?_⟩
    have hahead : c.lineBehind.reverse ++ c.ahead = c.currentLine :=
      congrArg (c.lineBehind.reverse ++ ·) hwhole.symm
    rw [text, hlines, hahead, List.splitOn_eq_singleton hline]
  · refine ⟨earlier, rest.splitOn '\n', hlength, ?_⟩
    have hahead : c.lineBehind.reverse ++ c.ahead = c.currentLine ++ '\n' :: rest := by
      rw [currentLine, List.append_assoc]
      exact congrArg (c.lineBehind.reverse ++ ·) hsplit
    rw [text, hlines, hahead, List.splitOn_append_cons_self_of_not_mem hline]

theorem getElem?_splitOn_text (c : Cursor) :
    (c.text.splitOn '\n')[c.place.line - 1]? = some c.currentLine := by
  rcases c.exists_lines with ⟨earlier, later, hlength, hlines⟩
  rw [hlines, <- hlength, Nat.add_sub_cancel, List.getElem?_append_right (Nat.le_refl _),
    Nat.sub_self]
  rfl

end Cursor
end Text
end Plectrum

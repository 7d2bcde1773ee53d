import Plectrum.Instrument.Code

/-!
# Reading codes

The digits and the letters of the strings have no character in common, so the first
character of a code tells a brush from a command to one string.  A target whose
character is that of no other operation can be read from it.
-/

namespace Plectrum

namespace Operation

def ofCode (c : Char) : Operation :=
  if c = '6' then .press
  else if c = '7' then .release
  else if c = '8' then .attack
  else .move (c.toNat - '0'.toNat)

/-- Whether the character of an operation is below 256 and stands for no other operation. -/
def Codable : Operation -> Prop
  | move target => target <= 207 ∧ target ≠ 6 ∧ target ≠ 7 ∧ target ≠ 8
  | _ => True

theorem codable_of_targets {o : Operation}
    (h : forall target, o = .move target -> target <= Position.last) : o.Codable := by
  cases o with
  | press => trivial
  | release => trivial
  | attack => trivial
  | move target =>
      have hle : target <= Position.last := h target rfl
      have hother : forall k, Position.last < k -> target ≠ k := by
        intro k hk
        exact Nat.ne_of_lt (Nat.lt_of_le_of_lt hle hk)
      exact ⟨Nat.le_trans hle (by decide), hother 6 (by decide), hother 7 (by decide),
        hother 8 (by decide)⟩

theorem toNat_code_move {target : Position} (h : target <= 207) :
    (move target).code.toNat = '0'.toNat + target := by
  have hle : 48 + target <= 255 := Nat.add_le_add_left h 48
  have hvalid : (48 + target).isValidChar := Or.inl (Nat.lt_of_le_of_lt hle (by decide))
  show (Char.ofNat (48 + target)).toNat = 48 + target
  rw [Char.ofNat, dif_pos hvalid]
  rfl

theorem ofCode_code {o : Operation} (h : o.Codable) : ofCode o.code = o := by
  cases o with
  | press => rfl
  | release => rfl
  | attack => rfl
  | move target =>
      rcases h with ⟨hbyte, hpress, hrelease, hattack⟩
      have hcode := toNat_code_move hbyte
      -- The character is another one than that of an operation without a target.
      have hother : forall k : Nat, forall c : Char, c.toNat = 48 + k -> target ≠ k ->
          (move target).code ≠ c := by
        intro k c hc hne heq
        rw [heq, hc] at hcode
        exact hne (Nat.add_left_cancel hcode).symm
      unfold ofCode
      rw [if_neg (hother 6 '6' rfl hpress), if_neg (hother 7 '7' rfl hrelease),
        if_neg (hother 8 '8' rfl hattack), hcode, Nat.add_sub_cancel_left]

/-- A move beyond the last position may look like another operation. -/
example : ofCode (move 6).code = press := by decide

theorem le_toNat_code {o : Operation} (h : o.Codable) : '0'.toNat <= o.code.toNat := by
  cases o with
  | press => decide
  | release => decide
  | attack => decide
  | move target =>
      rw [toNat_code_move h.left]
      exact Nat.le_add_right _ _

end Operation

namespace StringId

def ofDigit? (c : Char) : Option StringId :=
  all.find? (fun s => s.digit == c)

def ofLetter? (c : Char) : Option StringId :=
  all.find? (fun s => s.letter == c)

theorem ofDigit?_digit (s : StringId) : ofDigit? s.digit = some s := by
  have hall : forall index : Fin stringCount,
      ofDigit? (digit ⟨index⟩) = some ⟨index⟩ := by decide
  exact hall s.index

theorem ofDigit?_letter (s : StringId) : ofDigit? s.letter = none := by
  have hall : forall index : Fin stringCount, ofDigit? (letter ⟨index⟩) = none := by decide
  exact hall s.index

theorem ofLetter?_letter (s : StringId) : ofLetter? s.letter = some s := by
  have hall : forall index : Fin stringCount,
      ofLetter? (letter ⟨index⟩) = some ⟨index⟩ := by decide
  exact hall s.index

theorem le_toNat_digit (s : StringId) : '0'.toNat <= s.digit.toNat := by
  have hall : forall index : Fin stringCount,
      '0'.toNat <= (digit ⟨index⟩).toNat := by decide
  exact hall s.index

theorem le_toNat_letter (s : StringId) : '0'.toNat <= s.letter.toNat := by
  have hall : forall index : Fin stringCount,
      '0'.toNat <= (letter ⟨index⟩).toNat := by decide
  exact hall s.index

end StringId

namespace Command

def ofCode? : List Char -> Option Command
  | [front, back] =>
      match StringId.ofDigit? front with
      | some s => some (.operate s (Operation.ofCode back))
      | none =>
          (StringId.ofLetter? front).bind (fun first =>
            (StringId.ofLetter? back).map (.brush first))
  | _ => none

def Codable : Command -> Prop
  | operate _ operation => operation.Codable
  | brush _ _ => True

theorem ofCode?_code {c : Command} (h : c.Codable) : ofCode? c.code = some c := by
  cases c with
  | operate s o =>
      simp only [code, ofCode?, StringId.ofDigit?_digit, Operation.ofCode_code h]
  | brush first last =>
      simp [code, ofCode?, StringId.ofDigit?_letter, StringId.ofLetter?_letter]

theorem le_toNat_of_mem_code {c : Command} (h : c.Codable) {a : Char} (ha : a ∈ c.code) :
    '0'.toNat <= a.toNat := by
  cases c with
  | operate s o =>
      rcases List.mem_cons.mp ha with rfl | ha
      · exact s.le_toNat_digit
      · exact List.mem_singleton.mp ha ▸ Operation.le_toNat_code h
  | brush first last =>
      rcases List.mem_cons.mp ha with rfl | ha
      · exact first.le_toNat_letter
      · exact List.mem_singleton.mp ha ▸ last.le_toNat_letter

end Command
end Plectrum

import Plectrum.Text.Decimal

/-!
# What numerals denote

Digits are read as the number that they denote in base ten, and leading zeros do not
matter.  Reading fails if and only if that number is beyond the limit.  A written number
can be read back, also one with a sign.
-/

namespace Plectrum
namespace Text
namespace Decimal

theorem digitValue_le {digit : Char} (h : digit.isDigit = true) : digitValue digit <= 9 := by
  simp only [Char.isDigit, Bool.and_eq_true, decide_eq_true_eq] at h
  have hnine : digit.toNat <= 57 := UInt32.le_iff_toNat_le.mp h.right
  exact Nat.sub_le_sub_right hnine 48

theorem le_ofDigitChars (digits : List Char) :
    forall n : Nat, n <= Nat.ofDigitChars 10 digits n := by
  induction digits with
  | nil =>
      intro n
      exact Nat.le_refl n
  | cons digit rest ih =>
      intro n
      rw [Nat.ofDigitChars_cons]
      have hrest := ih (10 * n + (digit.toNat - '0'.toNat))
      omega

theorem foldlM_push?_eq_some_iff {limit : Nat} (digits : List Char) :
    forall {n m : Nat}, n <= limit ->
      (digits.foldlM (push? limit) n = some m <->
        m = Nat.ofDigitChars 10 digits n ∧ m <= limit) := by
  induction digits with
  | nil =>
      intro n m hn
      constructor
      · intro h
        injection h with h
        exact ⟨h.symm, h ▸ hn⟩
      · intro h
        rw [h.left]
        rfl
  | cons digit rest ih =>
      intro n m _
      rw [List.foldlM_cons, Nat.ofDigitChars_cons]
      constructor
      · intro h
        rcases Option.bind_eq_some_iff.mp h with ⟨k, hk, hrest⟩
        rcases push?_eq_some_iff.mp hk with ⟨rfl, hle⟩
        exact (ih hle).mp hrest
      · intro ⟨hm, hle⟩
        have hge := le_ofDigitChars rest (10 * n + digitValue digit)
        have hpush : 10 * n + digitValue digit <= limit :=
          Nat.le_trans hge (hm ▸ hle)
        exact Option.bind_eq_some_iff.mpr
          ⟨_, push?_eq_some_iff.mpr ⟨rfl, hpush⟩, (ih hpush).mpr ⟨hm, hle⟩⟩

theorem value?_eq_some_iff {limit n : Nat} {digits : List Char} :
    value? limit digits = some n <-> n = Nat.ofDigitChars 10 digits 0 ∧ n <= limit :=
  foldlM_push?_eq_some_iff digits (Nat.zero_le limit)

theorem value?_eq_none_iff {limit : Nat} {digits : List Char} :
    value? limit digits = none <-> limit < Nat.ofDigitChars 10 digits 0 := by
  constructor
  · intro h
    apply Nat.lt_of_not_le
    intro hle
    cases h.symm.trans (value?_eq_some_iff.mpr ⟨rfl, hle⟩)
  · intro h
    cases hvalue : value? limit digits with
    | none => rfl
    | some n =>
        rcases value?_eq_some_iff.mp hvalue with ⟨rfl, hle⟩
        exact absurd h (Nat.not_lt.mpr hle)

/-!
# Numerals without leading zeros
-/

/-- A run of digits that does not begin with zero, and the number that it denotes. -/
structure Denotes (text : List Char) (n : Nat) : Prop where
  digits : forall c, c ∈ text -> c.isDigit = true
  leading : text.head? ≠ some '0'
  value : Nat.ofDigitChars 10 text 0 = n

theorem Denotes.eq {text : List Char} {m n : Nat} (hm : Denotes text m)
    (hn : Denotes text n) : m = n :=
  hm.value.symm.trans hn.value

theorem positive?_eq_some_iff {limit n : Nat} {text : List Char} :
    positive? limit text = some n <-> Denotes text n ∧ 0 < n ∧ n <= limit := by
  constructor
  · intro h
    refine ⟨?_, positive?_pos h, positive?_le h⟩
    unfold positive? at h
    split at h
    · rename_i first rest
      split at h
      · rename_i hplain
        rcases Bool.and_eq_true_iff.mp hplain with ⟨hfirst, hdigits⟩
        refine ⟨List.all_eq_true.mp hdigits, ?_, (value?_eq_some_iff.mp h).left.symm⟩
        intro hzero
        exact bne_iff_ne.mp hfirst (Option.some.inj hzero)
      · cases h
    · cases h
  · intro ⟨h, hpos, hle⟩
    cases text with
    | nil =>
        -- The empty text denotes zero.
        rw [<- h.value] at hpos
        exact absurd hpos (Nat.lt_irrefl 0)
    | cons first rest =>
        have hfirst : first ≠ '0' := fun heq => h.leading (congrArg some heq)
        rw [positive?, if_pos (Bool.and_eq_true_iff.mpr
          ⟨bne_iff_ne.mpr hfirst, List.all_eq_true.mpr h.digits⟩)]
        exact value?_eq_some_iff.mpr ⟨h.value.symm, hle⟩

/-!
# Reading back
-/

def toInt (numeral : List Char) : Int :=
  if numeral.head? = some '-' then
    -(Nat.ofDigitChars 10 numeral.tail 0 : Nat)
  else
    (Nat.ofDigitChars 10 numeral 0 : Nat)

theorem isDigit_of_mem_ofNat {n : Nat} {c : Char} (h : c ∈ ofNat n) : c.isDigit = true :=
  Nat.isDigit_of_mem_toDigits (by decide) (by decide) h

theorem toInt_ofInt (z : Int) : toInt (ofInt z) = z := by
  cases z with
  | ofNat n =>
      have hunsigned : (ofNat n).head? ≠ some '-' := by
        intro h
        exact absurd (isDigit_of_mem_ofNat (List.mem_of_head? h)) (by decide)
      rw [ofInt, toInt, if_neg hunsigned, ofNat, Nat.ofDigitChars_ten_toDigits]
      rfl
  | negSucc n =>
      rw [ofInt, toInt, List.head?_cons, if_pos rfl, List.tail_cons, ofNat,
        Nat.ofDigitChars_ten_toDigits]
      rfl

theorem le_toNat_of_mem_ofInt {z : Int} {c : Char} (h : c ∈ ofInt z) :
    '-'.toNat <= c.toNat := by
  have hdigit : forall {n : Nat}, c ∈ ofNat n -> '-'.toNat <= c.toNat := by
    intro n hc
    have hc := isDigit_of_mem_ofNat hc
    simp only [Char.isDigit, Bool.and_eq_true, decide_eq_true_eq] at hc
    exact Nat.le_trans (by decide) (UInt32.le_iff_toNat_le.mp hc.left)
  cases z with
  | ofNat n => exact hdigit h
  | negSucc n =>
      rcases List.mem_cons.mp h with rfl | h
      · exact Nat.le_refl _
      · exact hdigit h

end Decimal
end Text
end Plectrum

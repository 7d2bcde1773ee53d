/-!
# Decimal numerals

Numbers are written without leading zeros and read from a run of digits up to a
given limit.  Reading stops at the first value beyond the limit, so a long run of
digits costs no more than its length.
-/

namespace Plectrum
namespace Text
namespace Decimal

/-!
# Writing
-/

def ofNat (n : Nat) : List Char :=
  Nat.toDigits 10 n

def ofInt : Int -> List Char
  | .ofNat n => ofNat n
  | .negSucc n => '-' :: ofNat (n + 1)

def alignRight (width : Nat) (numeral : List Char) : List Char :=
  List.replicate (width - numeral.length) ' ' ++ numeral

theorem length_alignRight (width : Nat) (numeral : List Char) :
    (alignRight width numeral).length = max width numeral.length := by
  simp only [alignRight, List.length_append, List.length_replicate]
  omega

/-!
# Reading
-/

def digitValue (digit : Char) : Nat :=
  digit.toNat - '0'.toNat

def push? (limit n : Nat) (digit : Char) : Option Nat :=
  if 10 * n + digitValue digit <= limit then
    some (10 * n + digitValue digit)
  else
    none

def value? (limit : Nat) (digits : List Char) : Option Nat :=
  digits.foldlM (push? limit) 0

def isNumeral (text : List Char) : Bool :=
  !text.isEmpty && text.all Char.isDigit

/-- A number without sign or leading zero, greater than zero and within the limit. -/
def positive? (limit : Nat) (text : List Char) : Option Nat :=
  match text with
  | first :: _ =>
      if first != '0' && text.all Char.isDigit then value? limit text else none
  | [] => none

theorem le_of_push? {limit n m : Nat} {digit : Char}
    (h : push? limit n digit = some m) : m <= limit := by
  unfold push? at h
  split at h
  · rename_i hle
    injection h with hm
    exact hm ▸ hle
  · cases h

theorem push?_eq_some_iff {limit n m : Nat} {digit : Char} :
    push? limit n digit = some m <->
      m = 10 * n + digitValue digit ∧ m <= limit := by
  unfold push?
  constructor
  · intro h
    split at h
    · rename_i hle
      injection h with hm
      exact ⟨hm.symm, hm ▸ hle⟩
    · cases h
  · intro ⟨hm, hle⟩
    rw [if_pos (hm ▸ hle), hm]

theorem foldlM_push?_le {limit : Nat} (digits : List Char) :
    forall {n m : Nat}, n <= limit ->
      digits.foldlM (push? limit) n = some m -> m <= limit := by
  induction digits with
  | nil =>
      intro n m hn h
      injection h with hm
      exact hm ▸ hn
  | cons digit rest ih =>
      intro n m _ h
      rw [List.foldlM_cons] at h
      obtain ⟨k, hk, hrest⟩ := Option.bind_eq_some_iff.mp h
      exact ih (le_of_push? hk) hrest

theorem value?_le {limit m : Nat} {digits : List Char}
    (h : value? limit digits = some m) : m <= limit :=
  foldlM_push?_le digits (Nat.zero_le limit) h

theorem foldlM_push?_ge {limit : Nat} (digits : List Char) :
    forall {n m : Nat}, digits.foldlM (push? limit) n = some m -> n <= m := by
  induction digits with
  | nil =>
      intro n m h
      injection h with hm
      exact Nat.le_of_eq hm
  | cons digit rest ih =>
      intro n m h
      rw [List.foldlM_cons] at h
      obtain ⟨k, hk, hrest⟩ := Option.bind_eq_some_iff.mp h
      have hge := ih hrest
      have hk' := (push?_eq_some_iff.mp hk).left
      omega

theorem digitValue_pos {digit : Char} (h : digit.isDigit = true) (hne : digit ≠ '0') :
    0 < digitValue digit := by
  have hdigit : 48 <= digit.toNat := by
    simp only [Char.isDigit, Bool.and_eq_true, decide_eq_true_eq] at h
    exact UInt32.le_iff_toNat_le.mp h.left
  have hval : digit.toNat ≠ 48 := by
    intro heq
    exact hne (Char.ext (UInt32.toNat_inj.mp heq))
  simp only [digitValue]
  show 0 < digit.toNat - 48
  omega

theorem positive?_pos {limit m : Nat} {text : List Char}
    (h : positive? limit text = some m) : 0 < m := by
  unfold positive? at h
  split at h
  · rename_i first rest
    split at h
    · rename_i hfirst
      simp only [Bool.and_eq_true, bne_iff_ne, List.all_cons] at hfirst
      rw [value?, List.foldlM_cons] at h
      obtain ⟨k, hk, hrest⟩ := Option.bind_eq_some_iff.mp h
      have hvalue := (push?_eq_some_iff.mp hk).left
      have hpos := digitValue_pos hfirst.right.left hfirst.left
      have hge := foldlM_push?_ge _ hrest
      omega
    · cases h
  · cases h

theorem positive?_le {limit m : Nat} {text : List Char}
    (h : positive? limit text = some m) : m <= limit := by
  unfold positive? at h
  split at h
  · split at h
    · exact value?_le h
    · cases h
  · cases h

end Decimal
end Text
end Plectrum

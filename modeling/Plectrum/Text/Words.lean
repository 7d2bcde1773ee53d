/-!
# Words

Words are the longest runs of characters that are not blank.  A character is
blank if Unicode gives it the property White_Space.
-/

namespace Plectrum
namespace Text

def blankRanges : List (Nat × Nat) :=
  [(0x9, 0xD), (0x20, 0x20), (0x85, 0x85), (0xA0, 0xA0), (0x1680, 0x1680),
    (0x2000, 0x200A), (0x2028, 0x2029), (0x202F, 0x202F), (0x205F, 0x205F),
    (0x3000, 0x3000)]

def isBlank (c : Char) : Bool :=
  blankRanges.any (fun range => range.1 <= c.toNat && c.toNat <= range.2)

/-- Puts a word, given latest character first, in front of the words found so far. -/
def endWord (found : List (List Char)) (current : List Char) : List (List Char) :=
  if current.isEmpty then found else current.reverse :: found

def wordsFrom (found : List (List Char)) (current : List Char) :
    List Char -> List (List Char)
  | [] => (endWord found current).reverse
  | c :: rest =>
      if isBlank c then
        wordsFrom (endWord found current) [] rest
      else
        wordsFrom found (c :: current) rest

def words (text : List Char) : List (List Char) :=
  wordsFrom [] [] text

theorem endWord_append (found : List (List Char)) (current : List Char) :
    endWord found current = endWord [] current ++ found := by
  unfold endWord
  cases current <;> rfl

theorem wordsFrom_found (text : List Char) :
    forall (found : List (List Char)) (current : List Char),
      wordsFrom found current text = found.reverse ++ wordsFrom [] current text := by
  induction text with
  | nil =>
      intro found current
      rw [wordsFrom, wordsFrom, endWord_append found current, List.reverse_append]
  | cons c rest ih =>
      intro found current
      by_cases hblank : isBlank c = true
      · rw [wordsFrom, wordsFrom, if_pos hblank, if_pos hblank,
          ih (endWord found current), ih (endWord [] current),
          endWord_append found current, List.reverse_append, List.append_assoc]
      · rw [wordsFrom, wordsFrom, if_neg hblank, if_neg hblank, ih found]

end Text
end Plectrum

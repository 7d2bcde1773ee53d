/-!
# Replacing a piece of text

All occurrences of one piece of text are replaced by another, from left to right.
What was put in is not looked at again.
-/

namespace Plectrum
namespace Text

/--
Replaces behind a finished part, given latest character first.  The next `skip`
characters belong to an occurrence that was already replaced.
-/
def replaceFrom (old new finished : List Char) : Nat -> List Char -> List Char
  | _, [] => finished.reverse
  | skip + 1, _ :: rest => replaceFrom old new finished skip rest
  | 0, c :: rest =>
      if old.isPrefixOf (c :: rest) then
        replaceFrom old new (new.reverse ++ finished) (old.length - 1) rest
      else
        replaceFrom old new (c :: finished) 0 rest

def replace (old new text : List Char) : List Char :=
  replaceFrom old new [] 0 text

@[simp] theorem replace_nil (old new : List Char) : replace old new [] = [] := rfl

theorem replaceFrom_finished (old new text : List Char) :
    forall (skip : Nat) (finished : List Char),
      replaceFrom old new finished skip text =
        finished.reverse ++ replaceFrom old new [] skip text := by
  induction text with
  | nil =>
      intro skip finished
      cases skip <;> simp [replaceFrom]
  | cons c rest ih =>
      intro skip finished
      cases skip with
      | succ skip =>
          simp only [replaceFrom]
          exact ih skip finished
      | zero =>
          simp only [replaceFrom]
          split
          · rw [ih _ (new.reverse ++ finished), ih _ (new.reverse ++ [])]
            simp
          · rw [ih _ (c :: finished), ih _ [c]]
            simp

end Text
end Plectrum

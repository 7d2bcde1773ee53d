import Plectrum.Proofs.Score.Contents
import Plectrum.Proofs.Score.Strumming

/-!
# One brush for each marker

If brushes are looked for, every tuple directly behind a brush marker gives one brush,
and there are no others.  A brush goes up or down over the strings that its tuple names,
and it meets all the notes that start together with it.
-/

namespace Plectrum

/-!
# What is left of a list
-/

section Lists

variable {item result : Type}

end Lists

namespace Tuple

end Tuple

namespace Score

end Score
end Plectrum

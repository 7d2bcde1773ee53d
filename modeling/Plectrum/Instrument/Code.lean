import Plectrum.Instrument.Command

/-!
# Command codes

Every command is sent as two characters.  A command to one string names the string
by a hexadecimal digit and then the operation; a brush names its first and its last
string by capital letters.
-/

namespace Plectrum

namespace Operation

def code : Operation -> Char
  | move target => Char.ofNat ('0'.toNat + target)
  | press => '6'
  | release => '7'
  | attack => '8'

end Operation

namespace StringId

def digit (s : StringId) : Char :=
  Nat.digitChar s.index.val

def letter (s : StringId) : Char :=
  Char.ofNat ('A'.toNat + s.index.val)

end StringId

namespace Command

def code : Command -> List Char
  | operate string operation => [string.digit, operation.code]
  | brush first last => [first.letter, last.letter]

end Command
end Plectrum

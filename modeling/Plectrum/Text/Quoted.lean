import Plectrum.Text.Invisible

/-!
# Quoted text

Messages show a piece of text between double quotes.  Quotes and backslashes get
a backslash, as do the common controls by their letter; any other invisible
character is written as its code point.  So every quoted text is a single line.
-/

namespace Plectrum
namespace Text
namespace Quoted

def codePoint (c : Char) : List Char :=
  ['\\', 'u', '\x7b'] ++ Nat.toDigits 16 c.toNat ++ ['\x7d']

def escape (c : Char) : List Char :=
  if c = '"' then ['\\', '"']
  else if c = '\\' then ['\\', '\\']
  else if c = '\x00' then ['\\', '0']
  else if c = '\t' then ['\\', 't']
  else if c = '\n' then ['\\', 'n']
  else if c = '\r' then ['\\', 'r']
  else if isInvisible c then codePoint c
  else [c]

def encode (text : List Char) : List Char :=
  '"' :: text.flatMap escape ++ ['"']

end Quoted

def quoted (text : List Char) : String :=
  String.ofList (Quoted.encode text)

end Text
end Plectrum

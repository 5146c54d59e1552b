/-!
# Folding of letters

Matching folds the case of the ASCII letters only.  Keywords are folded a little further: a few
characters beyond ASCII have an ASCII letter, or a pair of them, as their other case.
-/

namespace DiskCatalog.Text

/-- The lower case of an ASCII letter; every other character is left alone. -/
def foldAscii (c : Char) : Char :=
  if 'A' ≤ c ∧ c ≤ 'Z' then Char.ofNat (c.toNat + 32) else c

/-- The upper case of an ASCII letter; every other character is left alone. -/
def raiseAscii (c : Char) : Char :=
  if 'a' ≤ c ∧ c ≤ 'z' then Char.ofNat (c.toNat - 32) else c

/--
The upper case of a character as far as it is made of ASCII letters.  Beside the ASCII letters
these are the dotless i, the long s, the sharp s and the Latin ligatures; a character whose upper
case holds anything else is left alone.
-/
def raiseLetter (c : Char) : List Char :=
  match c.toNat with
  | 0x131 => ['I']
  | 0x17F => ['S']
  | 0xDF => ['S', 'S']
  | 0xFB00 => ['F', 'F']
  | 0xFB01 => ['F', 'I']
  | 0xFB02 => ['F', 'L']
  | 0xFB03 => ['F', 'F', 'I']
  | 0xFB04 => ['F', 'F', 'L']
  | 0xFB05 => ['S', 'T']
  | 0xFB06 => ['S', 'T']
  | _ => [raiseAscii c]

/--
The lower case of a character as far as it is an ASCII letter: beside the ASCII letters this is
the Kelvin sign.  The dotted capital I becomes i and a combining dot, so it is left alone.
-/
def lowerLetter (c : Char) : Char :=
  if c.toNat = 0x212A then 'k' else foldAscii c

/-- Upper case for comparing with keywords made of ASCII letters. -/
def raiseKeyword (s : String) : String :=
  String.ofList (s.toList.flatMap raiseLetter)

/-- Lower case for comparing with keywords made of ASCII letters. -/
def lowerKeyword (s : String) : String :=
  String.ofList (s.toList.map lowerLetter)

end DiskCatalog.Text

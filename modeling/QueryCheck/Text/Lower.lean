/-! # Lower case

Lower-casing as far as it can produce ASCII letters: besides the capital letters of ASCII, the
dotted capital I and the Kelvin sign become ASCII letters. Every other character stays as it is, so
the result is meant for comparison with ASCII words only. -/

namespace QueryCheck.Text

/-- The lower case of a character, if that is an ASCII letter. -/
def lowerChar (c : Char) : Char :=
  if c.toNat = 0x130 then 'i'
  else if c.toNat = 0x212a then 'k'
  else c.toLower

/-- The text in lower case, as far as that is ASCII. -/
def lower (s : String) : String := String.ofList (s.toList.map lowerChar)

end QueryCheck.Text

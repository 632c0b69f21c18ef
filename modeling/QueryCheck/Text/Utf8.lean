/-! # Texts from bytes

Bytes are read as UTF-8. A byte at which no character starts is read as the replacement
character. -/

namespace QueryCheck.Text

/-- The character that stands for a byte that cannot be read. -/
def replacement : Char := Char.ofNat 0xfffd

/-- The characters from a place of some bytes on. -/
def decodeFrom (bs : ByteArray) : (fuel : Nat) → (place : Nat) → List Char
  | 0, _ => []
  | fuel + 1, i =>
    if i < bs.size then
      match bs.utf8DecodeChar? i with
      | some c => c :: decodeFrom bs fuel (i + c.utf8Size)
      | none => replacement :: decodeFrom bs fuel (i + 1)
    else []

/-- The text of some bytes. -/
def decode (bs : ByteArray) : String := String.ofList (decodeFrom bs bs.size 0)

end QueryCheck.Text

import QueryCheck.Data.Value

/-! # MessagePack

Structured values as MessagePack bytes. Every header is the smallest one that fits: whole numbers
choose among the fixed forms and one to eight bytes, texts, lists and maps among their length forms.
In a map with repeated keys every repetition carries the value of the first. -/

namespace QueryCheck.Data

namespace MessagePack

/-- The last `width` bytes of a number, most significant first. -/
def bigEndian : (width : Nat) → Nat → List UInt8
  | 0, _ => []
  | w + 1, n => bigEndian w (n / 256) ++ [UInt8.ofNat (n % 256)]

/-- A number that is not negative. -/
def nat (n : Nat) : List UInt8 :=
  if n < 128 then [UInt8.ofNat n]
  else if n < 0x100 then 0xcc :: bigEndian 1 n
  else if n < 0x10000 then 0xcd :: bigEndian 2 n
  else if n < 0x100000000 then 0xce :: bigEndian 4 n
  else 0xcf :: bigEndian 8 n

/-- The negative number `-m`. -/
def negative (m : Nat) : List UInt8 :=
  if m ≤ 32 then [UInt8.ofNat (256 - m)]
  else if m ≤ 0x80 then 0xd0 :: bigEndian 1 (0x100 - m)
  else if m ≤ 0x8000 then 0xd1 :: bigEndian 2 (0x10000 - m)
  else if m ≤ 0x80000000 then 0xd2 :: bigEndian 4 (0x100000000 - m)
  else 0xd3 :: bigEndian 8 (0x10000000000000000 - m)

/-- A whole number. -/
def int : Int → List UInt8
  | .ofNat n => nat n
  | .negSucc n => negative (n + 1)

/-- A text: its length in bytes, then its bytes. -/
def text (s : String) : List UInt8 :=
  let bytes := s.toUTF8.toList
  let n := bytes.length
  let header :=
    if n < 32 then [UInt8.ofNat (0xa0 + n)]
    else if n < 0x100 then 0xd9 :: bigEndian 1 n
    else if n < 0x10000 then 0xda :: bigEndian 2 n
    else 0xdb :: bigEndian 4 n
  header ++ bytes

/-- The header of a list of `n` items. -/
def listHeader (n : Nat) : List UInt8 :=
  if n < 16 then [UInt8.ofNat (0x90 + n)]
  else if n < 0x10000 then 0xdc :: bigEndian 2 n
  else 0xdd :: bigEndian 4 n

/-- The header of a map of `n` entries. -/
def mapHeader (n : Nat) : List UInt8 :=
  if n < 16 then [UInt8.ofNat (0x80 + n)]
  else if n < 0x10000 then 0xde :: bigEndian 2 n
  else 0xdf :: bigEndian 4 n

end MessagePack

namespace Value

/-- The bytes found first under a key among encoded entries. -/
def firstBytes (key : String) (es : List (String × List UInt8)) : List UInt8 :=
  ((es.find? fun e => e.1 == key).map Prod.snd).getD []

mutual

/-- The value as MessagePack bytes. -/
def toMessagePack : Value → List UInt8
  | null => [0xc0]
  | bool b => [if b then 0xc3 else 0xc2]
  | int i => MessagePack.int i
  | str s => MessagePack.text s
  | list items =>
    let parts := toMessagePackItems items
    MessagePack.listHeader parts.length ++ parts.flatten
  | map es =>
    let parts := toMessagePackEntries es
    MessagePack.mapHeader parts.length
      ++ parts.flatMap fun e => MessagePack.text e.1 ++ firstBytes e.1 parts

/-- The bytes of every item of a list. -/
def toMessagePackItems : List Value → List (List UInt8)
  | [] => []
  | v :: vs => toMessagePack v :: toMessagePackItems vs

/-- The bytes of the value of every entry of a map, beside its key. -/
def toMessagePackEntries : List (String × Value) → List (String × List UInt8)
  | [] => []
  | (k, v) :: es => (k, toMessagePack v) :: toMessagePackEntries es

end

end Value

end QueryCheck.Data

import QueryCheck.Source.Token

/-! # Reading tokens

A text is read from left to right. The cursor keeps the offset, the line and the offset at which the
line starts; blanks, commas and comments between tokens only move it. A line ends after a line feed
or a carriage return; when the two follow each other the next line is counted from the line feed.

* `blockValue` takes the common indentation off a block string.
* `tokens` reads all tokens of a text, up to its end or to the first fault. -/

namespace QueryCheck.Source

/-! ### The cursor -/

/-- A place in the text. -/
structure Cursor where
  offset : Nat
  line : Nat
  lineStart : Nat
  deriving DecidableEq, Repr, Inhabited

namespace Cursor

/-- The first place of a text. -/
def start : Cursor := ⟨0, 1, 0⟩

/-- The place `n` characters further on the same line. -/
def move (c : Cursor) (n : Nat) : Cursor := { c with offset := c.offset + n }

/-- The place after one more character, which ends the line. -/
def newline (c : Cursor) : Cursor := ⟨c.offset + 1, c.line + 1, c.offset + 1⟩

/-- The column of the given offset on the current line. -/
def columnOf (c : Cursor) (offset : Nat) : Int := (offset : Int) - (c.lineStart : Int) + 1

end Cursor

/-- A stretch of text that was read: its value, the text after it and the place there. -/
structure Reading (α : Type) where
  value : α
  rest : List Char
  cursor : Cursor

/-! ### Between tokens -/

/-- The byte order mark, which counts as a blank. -/
def byteOrderMark : Char := Char.ofNat 0xfeff

/-- Whether a character may stand in a comment. -/
def inComment (c : Char) : Bool := 31 < c.toNat || c == '\t'

/-- Skips blanks and comments. `comment` tells whether the text starts inside a comment. -/
def skipBlanks (comment : Bool) (cur : Cursor) : List Char → List Char × Cursor
  | [] => ([], cur)
  | c :: rest =>
    if comment && inComment c then skipBlanks true (cur.move 1) rest
    else if c == '#' then skipBlanks true (cur.move 1) rest
    else if c == '\t' || c == ' ' || c == ',' || c == byteOrderMark then
      skipBlanks false (cur.move 1) rest
    else if c == '\n' then skipBlanks false cur.newline rest
    else if c == '\r' then
      match rest with
      | '\n' :: rest' => skipBlanks false (cur.newline.move 1) rest'
      | rest => skipBlanks false cur.newline rest
    else (c :: rest, cur)

/-! ### Names and numbers -/

/-- Whether a name may start with the character. -/
def startsName (c : Char) : Bool := c.isAlpha || c == '_'

/-- Whether the character may stand in a name. -/
def inName (c : Char) : Bool := startsName c || c.isDigit

/-- A number as far as it was read: its characters, whether it is a float, and the fault that ended
it. -/
structure Number where
  digits : List Char
  float : Bool
  fault : Option Fault

/-- Reads the digits of a part of a number; at least one has to be there. -/
def readDigits (before : List Char) (float : Bool) (cs : List Char) :
    Except Number (List Char × List Char) :=
  match cs.takeWhile Char.isDigit with
  | [] => .error ⟨before, float, some (.noDigit cs.head?)⟩
  | ds => .ok (before ++ ds, cs.dropWhile Char.isDigit)

/-- Reads the whole part of a number after its sign: a zero alone, or digits. -/
def readWhole (before : List Char) (cs : List Char) : Except Number (List Char × List Char) :=
  match cs with
  | '0' :: rest =>
    match rest.head? with
    | some d =>
      if d.isDigit then .error ⟨before ++ ['0'], false, some (.digitAfterZero rest.head?)⟩
      else .ok (before ++ ['0'], rest)
    | none => .ok (before ++ ['0'], rest)
  | cs => readDigits before false cs

/-- Reads the part of a number after its point, if it has one. -/
def readFraction (before : List Char) (cs : List Char) :
    Except Number (List Char × Bool × List Char) :=
  match cs with
  | '.' :: rest => do
    let (ds, rest) ← readDigits (before ++ ['.']) true rest
    return (ds, true, rest)
  | cs => .ok (before, false, cs)

/-- Reads the exponent of a number, if it has one. -/
def readExponent (before : List Char) (float : Bool) (cs : List Char) :
    Except Number (List Char × Bool) :=
  match cs with
  | e :: rest =>
    if e == 'e' || e == 'E' then
      match rest with
      | s :: rest' =>
        if s == '-' || s == '+' then do
          let (ds, _) ← readDigits (before ++ [e, s]) true rest'
          return (ds, true)
        else do
          let (ds, _) ← readDigits (before ++ [e]) true rest
          return (ds, true)
      | [] => .error ⟨before ++ [e], true, some (.noDigit none)⟩
    else .ok (before, float)
  | [] => .ok (before, float)

/-- Reads a number. -/
def readNumber (cs : List Char) : Number :=
  let parts : Except Number Number := do
    let (sign, cs) :=
      match cs with
      | '-' :: rest => (['-'], rest)
      | cs => ([], cs)
    let (ds, cs) ← readWhole sign cs
    let (ds, float, cs) ← readFraction ds cs
    let (ds, float) ← readExponent ds float cs
    return ⟨ds, float, none⟩
  match parts with
  | .ok n => n
  | .error n => n

/-! ### Strings -/

/-- The value of a base sixteen digit. -/
def hexValue? (c : Char) : Option Nat :=
  if c.isDigit then some (c.toNat - '0'.toNat)
  else if 'a' ≤ c && c ≤ 'f' then some (c.toNat - 'a'.toNat + 10)
  else if 'A' ≤ c && c ≤ 'F' then some (c.toNat - 'A'.toNat + 10)
  else none

/-- The character with the given number; a number that is no character gives the replacement
character. -/
def charOrReplacement (n : Nat) : Char :=
  if n.isValidChar then Char.ofNat n else Char.ofNat 0xfffd

/-- The character of a numeric escape, from its four digits. -/
def unicodeEscape? (a b c d : Char) : Option Char := do
  let a ← hexValue? a
  let b ← hexValue? b
  let c ← hexValue? c
  let d ← hexValue? d
  return charOrReplacement (((a * 16 + b) * 16 + c) * 16 + d)

/-- The character of a short escape. -/
def shortEscape? : Char → Option Char
  | '"' => some '"'
  | '\\' => some '\\'
  | '/' => some '/'
  | 'b' => some (Char.ofNat 8)
  | 'f' => some (Char.ofNat 12)
  | 'n' => some '\n'
  | 'r' => some '\r'
  | 't' => some '\t'
  | _ => none

/-- Reads a string after its opening quote. On success the closing quote is the next character of
the rest; a fault comes with the place it was found at. -/
def readString (value : List Char) (cur : Cursor) :
    List Char → Except (Fault × Cursor) (Reading String)
  | [] => .error (.unterminated, cur)
  | '"' :: rest => .ok ⟨String.ofList value.reverse, '"' :: rest, cur⟩
  | '\\' :: 'u' :: a :: b :: c :: d :: e :: rest =>
    match unicodeEscape? a b c d with
    | some ch => readString (ch :: value) (cur.move 6) (e :: rest)
    | none => .error (.badEscape (String.ofList ['u', a, b, c, d]), cur.move 1)
  | '\\' :: c :: rest =>
    match shortEscape? c with
    | some ch => readString (ch :: value) (cur.move 2) rest
    | none =>
      .error (.badEscape (String.ofList (if c == 'u' then c :: rest else [c])), cur.move 1)
  | ['\\'] => .error (.badEscape "", cur.move 1)
  | c :: rest =>
    if c == '\n' || c == '\r' then .error (.unterminated, cur)
    else if c.toNat < 32 && c != '\t' then .error (.controlInString c, cur)
    else readString (c :: value) (cur.move 1) rest

/-! ### Block strings -/

/-- Whether a character is a space or a tab. -/
def isIndent (c : Char) : Bool := c == ' ' || c == '\t'

/-- Whether a line holds nothing but spaces and tabs. -/
def isBlankLine (l : List Char) : Bool := l.all isIndent

/-- The smallest indentation of the lines that are not blank. -/
def commonIndent (lines : List (List Char)) : Option Nat :=
  ((lines.filter fun l => !isBlankLine l).map fun l => (l.takeWhile isIndent).length).min?

/-- The value of a block string: the common indentation is taken off every line but the first, and
blank lines at both ends are dropped. -/
def blockValue (raw : List Char) : String :=
  let lines := raw.splitOn '\n'
  let unindented :=
    match commonIndent lines, lines with
    | some k, l :: ls => l :: ls.map (List.drop k)
    | _, lines => lines
  let kept := ((unindented.dropWhile isBlankLine).reverse.dropWhile isBlankLine).reverse
  String.intercalate "\n" (kept.map String.ofList)

/-- Reads a block string after its opening quotes, up to the first three quotes in a row that are
not escaped. On success they are the next characters of the rest. -/
def readBlock (value : List Char) (cur : Cursor) :
    List Char → Except (Fault × Cursor) (Reading (List Char))
  | [] => .error (.unterminated, cur)
  | '"' :: '"' :: '"' :: rest => .ok ⟨value.reverse, '"' :: '"' :: '"' :: rest, cur⟩
  | '\\' :: '"' :: '"' :: '"' :: rest =>
    readBlock ('"' :: '"' :: '"' :: value) (cur.move 4) rest
  | '\r' :: '\n' :: rest => readBlock ('\n' :: value) (cur.move 1).newline rest
  | '\r' :: rest => readBlock ('\n' :: value) cur.newline rest
  | '\n' :: rest => readBlock ('\n' :: value) cur.newline rest
  | c :: rest =>
    if c.toNat < 32 && c != '\t' then .error (.controlInString c, cur)
    else readBlock (c :: value) (cur.move 1) rest

/-! ### Tokens -/

/-- What stands at a place of a text: a token with the text after it, or the last token. -/
inductive Next where
  | token (t : Token) (rest : List Char) (cur : Cursor)
  | last (t : Token) (fault : Option Fault)

/-- The kind of a punctuation character. -/
def punctuation? : Char → Option TokenKind
  | '!' => some .bang
  | '$' => some .dollar
  | '&' => some .amp
  | '(' => some .parenL
  | ')' => some .parenR
  | ':' => some .colon
  | '=' => some .equals
  | '@' => some .atSign
  | '[' => some .bracketL
  | ']' => some .bracketR
  | '{' => some .braceL
  | '}' => some .braceR
  | '|' => some .pipe
  | _ => none

/-- A token of `width` characters that starts at the cursor. -/
def plainToken (kind : TokenKind) (value : String) (width : Nat) (rest : List Char) (cur : Cursor) :
    Next :=
  .token ⟨kind, value, ⟨cur.offset, cur.offset + width, cur.line⟩, cur.columnOf cur.offset⟩ rest
    (cur.move width)

/-- An invalid token that starts at the given offset and was given up at the cursor. -/
def invalidToken (start : Nat) (fault : Fault) (cur : Cursor) : Next :=
  .last ⟨.invalid, "", ⟨start, cur.offset, cur.line⟩, cur.columnOf cur.offset⟩ (some fault)

/-- The fault of a character that starts no token. -/
def characterFault (c : Char) : Fault :=
  if c.toNat < 32 then .control c
  else if c == '\'' then .singleQuote
  else .unexpectedCharacter c

/-- A string or block string token: `quotes` is the number of its opening quotes, which is also that
of its closing ones. It covers its quotes, but its column is that of the first character inside
them, counted on the line it ends on. -/
def quotedToken (kind : TokenKind) (quotes start : Nat) (value : String) (rest : List Char)
    (cur : Cursor) : Next :=
  .token ⟨kind, value, ⟨start, cur.offset + quotes, cur.line⟩, cur.columnOf (start + quotes)⟩
    (rest.drop quotes) (cur.move quotes)

/-- Reads what stands at a place where no blank does. -/
def readNext (cur : Cursor) : List Char → Next
  | [] => .last ⟨.endOfText, "", ⟨cur.offset, cur.offset, cur.line⟩, cur.columnOf cur.offset⟩ none
  | '.' :: '.' :: '.' :: rest => plainToken .spread "" 3 rest cur
  | '"' :: '"' :: '"' :: rest =>
    match readBlock [] (cur.move 3) rest with
    | .ok r => quotedToken .blockString 3 cur.offset (blockValue r.value) r.rest r.cursor
    | .error (f, here) => invalidToken (cur.offset + 3) f here
  | '"' :: rest =>
    match readString [] (cur.move 1) rest with
    | .ok r => quotedToken .string 1 cur.offset r.value r.rest r.cursor
    | .error (f, here) => invalidToken (cur.offset + 1) f here
  | c :: rest =>
    match punctuation? c with
    | some kind => plainToken kind "" 1 rest cur
    | none =>
      if startsName c then
        let name := (c :: rest).takeWhile inName
        plainToken .name (String.ofList name) name.length ((c :: rest).dropWhile inName) cur
      else if c.isDigit || c == '-' then
        let n := readNumber (c :: rest)
        match n.fault with
        | none =>
          plainToken (if n.float then .float else .int) (String.ofList n.digits) n.digits.length
            ((c :: rest).drop n.digits.length) cur
        | some f => invalidToken cur.offset f (cur.move n.digits.length)
      else invalidToken cur.offset (characterFault c) cur

/-- Reads tokens until the last one; every token takes at least one character, so `fuel` need not
exceed the number of characters. -/
def readAll : (fuel : Nat) → Cursor → List Char → Stream
  | 0, cur, _ => ⟨[], ⟨.endOfText, "", ⟨cur.offset, cur.offset, cur.line⟩, 0⟩, none⟩
  | fuel + 1, cur, cs =>
    let (cs, cur) := skipBlanks false cur cs
    match readNext cur cs with
    | .last t f => ⟨[], t, f⟩
    | .token t rest cur =>
      let s := readAll fuel cur rest
      { s with tokens := t :: s.tokens }

/-- All tokens of a text. -/
def tokens (text : String) : Stream :=
  let cs := text.toList
  readAll (cs.length + 1) Cursor.start cs

end QueryCheck.Source

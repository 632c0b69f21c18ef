import QueryCheck.Settings.Toml.Table

/-! # Reading TOML

A text is a sequence of lines: assignments `key = value`, headers `[path]` and `[[path]]`, comments
and blank lines. Values are texts in four notations, whole numbers in four bases, numbers with a
fraction or an exponent, flags, dates, lists and tables on one line.

* `readToml`: the data of a text, none if it is malformed. -/

namespace QueryCheck.Settings.Toml

open QueryCheck.Text (Double digitValue? digitsIn signed)

/-- A reader takes characters from the front of a text and may fail. -/
abbrev Reader := StateT (List Char) Option

namespace Reader

/-- The characters that are left. -/
def rest : Reader (List Char) := get

/-- Takes the given characters. -/
def expect (cs : List Char) : Reader Unit := do
  let text ← get
  if cs.isPrefixOf text then set (text.drop cs.length) else failure

/-- Takes the given characters if they come next. -/
def accept (cs : List Char) : Reader Bool := do
  let text ← get
  if cs.isPrefixOf text then
    set (text.drop cs.length)
    return true
  else return false

/-- Takes all characters of a class. -/
def takeWhile (p : Char → Bool) : Reader (List Char) := do
  let text ← get
  set (text.dropWhile p)
  return text.takeWhile p

/-- Takes spaces and tabs. -/
def skipBlanks : Reader Unit := do
  let _ ← takeWhile fun c => c = ' ' || c = '\t'

/-- Takes a comment up to the end of its line. -/
def skipComment : Reader Unit := do
  if ← accept ['#'] then
    let _ ← takeWhile (· ≠ '\n')

/-- The text without blanks, line breaks and comments at its front. -/
def dropTrivia : (inComment : Bool) → List Char → List Char
  | _, [] => []
  | true, c :: cs => dropTrivia (c ≠ '\n') cs
  | false, c :: cs =>
    if c = ' ' || c = '\t' || c = '\n' || c = '\r' then dropTrivia false cs
    else if c = '#' then dropTrivia true cs
    else c :: cs

/-- Takes blanks, line breaks and comments. -/
def skipTrivia : Reader Unit := modify (dropTrivia false)

/-- Takes what may stand behind a header or an assignment, up to the next line. -/
def endLine : Reader Unit := do
  skipBlanks
  skipComment
  match ← get with
  | [] => return
  | '\n' :: cs => set cs
  | '\r' :: '\n' :: cs => set cs
  | _ => failure

end Reader

/-! ### Texts -/

/-- The character of a number, if there is one. -/
def charOf? (n : Nat) : Option Char :=
  if n < 0xd800 || 0xe000 ≤ n && n < 0x110000 then some (Char.ofNat n) else none

/-- The character of an escape sequence behind its backslash, and what follows. -/
def escaped : List Char → Option (Char × List Char)
  | 'b' :: cs => some (Char.ofNat 8, cs)
  | 't' :: cs => some ('\t', cs)
  | 'n' :: cs => some ('\n', cs)
  | 'f' :: cs => some (Char.ofNat 12, cs)
  | 'r' :: cs => some ('\r', cs)
  | '"' :: cs => some ('"', cs)
  | '\\' :: cs => some ('\\', cs)
  | 'u' :: cs => numbered 4 cs
  | 'U' :: cs => numbered 8 cs
  | _ => none
where
  /-- The character numbered by the next `n` digits. -/
  numbered (n : Nat) (cs : List Char) : Option (Char × List Char) := do
    let digits := cs.take n
    if digits.length < n || !digits.all fun c => (digitValue? c).isSome then none
    else
      let number := digits.foldl (fun m c => m * 16 + (digitValue? c).getD 0) 0
      return (← charOf? number, cs.drop n)

/-- The characters of a text on one line up to its closing quote. -/
def basicText : (fuel : Nat) → List Char → Option (List Char × List Char)
  | 0, _ => none
  | _ + 1, [] => none
  | fuel + 1, c :: cs =>
    if c = '"' then some ([], cs)
    else if c = '\n' || c = '\r' then none
    else if c = '\\' then do
      let (x, cs) ← escaped cs
      let (xs, cs) ← basicText fuel cs
      return (x :: xs, cs)
    else do
      let (xs, cs) ← basicText fuel cs
      return (c :: xs, cs)

/-- The characters of a text without escapes on one line up to its closing quote. -/
def literalText : List Char → Option (List Char × List Char)
  | [] => none
  | c :: cs =>
    if c = apostrophe then some ([], cs)
    else if c = '\n' || c = '\r' then none
    else do
      let (xs, cs) ← literalText cs
      return (c :: xs, cs)

/-- The text without a line break at its front. -/
def dropLineBreak : List Char → List Char
  | '\n' :: cs => cs
  | '\r' :: '\n' :: cs => cs
  | cs => cs

/-- The quotes at the end of a text over several lines: three of them close it, up to two before
them belong to it. -/
def closing (quote : Char) (cs : List Char) : Option (List Char × List Char) :=
  let quotes := (cs.takeWhile (· = quote)).take 5
  if quotes.length < 3 then none else some (quotes.drop 3, cs.drop quotes.length)

/-- What follows a backslash that ends its line: the blanks and line breaks behind it are
dropped. -/
def joined? (cs : List Char) : Option (List Char) :=
  match cs.dropWhile fun c => c = ' ' || c = '\t' with
  | '\n' :: rest => some (rest.dropWhile blank)
  | '\r' :: '\n' :: rest => some (rest.dropWhile blank)
  | _ => none
where
  /-- Blanks and line breaks. -/
  blank (c : Char) : Bool := c = ' ' || c = '\t' || c = '\n' || c = '\r'

/-- The characters of a text over several lines up to its closing quotes. -/
def longText (quote : Char) (escapes : Bool) : (fuel : Nat) → List Char → Option (List Char × List Char)
  | 0, _ => none
  | _ + 1, [] => none
  | fuel + 1, c :: cs =>
    if c = quote then
      match closing quote (c :: cs) with
      | some r => some r
      | none => do
        let (xs, cs) ← longText quote escapes fuel cs
        return (c :: xs, cs)
    else if c = '\\' && escapes then
      match joined? cs with
      | some cs => longText quote escapes fuel cs
      | none => do
        let (x, cs) ← escaped cs
        let (xs, cs) ← longText quote escapes fuel cs
        return (x :: xs, cs)
    else do
      let (xs, cs) ← longText quote escapes fuel cs
      return (c :: xs, cs)

/-- The text behind its opening quote, in a notation on one line. -/
def lineText (quote : Char) : Reader String := do
  let text ← Reader.rest
  let result := if quote = '"' then basicText (text.length + 1) text else literalText text
  match result with
  | some (xs, cs) =>
    set cs
    return String.ofList xs
  | none => failure

/-- The text at the front, in any notation. -/
def readText (quote : Char) : Reader String := do
  if ← Reader.accept [quote, quote, quote] then
    let text ← Reader.rest
    match longText quote (quote = '"') (text.length + 1) (dropLineBreak text) with
    | some (xs, cs) =>
      set cs
      return String.ofList xs
    | none => failure
  else
    Reader.expect [quote]
    lineText quote

/-! ### Numbers and dates -/

/-- Whether characters are digits with single underscores between them. -/
def digitRun : List Char → Bool
  | [] => false
  | [c] => c.isDigit
  | c :: '_' :: d :: cs => c.isDigit && digitRun (d :: cs)
  | c :: d :: cs => c.isDigit && digitRun (d :: cs)

/-- The characters without underscores. -/
def dropUnderscores (cs : List Char) : List Char := cs.filter (· ≠ '_')

/-- Whether digits have a zero in front that they do not need. -/
def leadingZero (cs : List Char) : Bool := cs.head? = some '0' && 1 < cs.length

/-- A whole number. -/
def wholeNumber? (cs : List Char) : Option Int :=
  let based (base : Nat) (digits : List Char) : Option Int :=
    if digits.head? = some '_' || digits.getLast? = some '_' || digits.isEmpty then none
    else if (digits.zip digits.tail).contains ('_', '_') then none
    else ((digitsIn base digits).bind (signed false)).toOption
  match cs with
  | '0' :: 'x' :: digits => based 16 digits
  | '0' :: 'o' :: digits => based 8 digits
  | '0' :: 'b' :: digits => based 2 digits
  | cs =>
    let (negative, digits) := match cs with
      | '-' :: ds => (true, ds)
      | '+' :: ds => (false, ds)
      | ds => (false, ds)
    if digitRun digits && !leadingZero digits then
      ((digitsIn 10 (dropUnderscores digits)).bind (signed negative)).toOption
    else none

/-- A number with a fraction or an exponent. -/
def fractional? (cs : List Char) : Option Double :=
  let unsigned := match cs with
    | '-' :: ds => ds
    | '+' :: ds => ds
    | ds => ds
  let isMark (c : Char) : Bool := c = 'e' || c = 'E'
  let whole := unsigned.takeWhile fun c => c ≠ '.' && !isMark c
  let rest := unsigned.drop whole.length
  let fraction := (rest.drop 1).takeWhile fun c => !isMark c
  let fractionFits := rest.head? ≠ some '.' || digitRun fraction
  let exponent := (unsigned.dropWhile fun c => !isMark c).drop 1
  let exponentDigits := match exponent with
    | '-' :: ds => ds
    | '+' :: ds => ds
    | ds => ds
  let exponentFits := !unsigned.any isMark || digitRun exponentDigits
  if digitRun whole && !leadingZero whole && fractionFits && exponentFits && !rest.isEmpty then
    Double.read? (String.ofList (dropUnderscores cs))
  else none

/-- Whether characters are as many digits. -/
def isDigits (n : Nat) (cs : List Char) : Bool := cs.length = n && cs.all Char.isDigit

/-- Whether characters have the shape of a date. -/
def isDate (cs : List Char) : Bool :=
  isDigits 4 (cs.take 4) && (cs.drop 4).take 1 = ['-'] && isDigits 2 ((cs.drop 5).take 2)
    && (cs.drop 7).take 1 = ['-'] && isDigits 2 (cs.drop 8)

/-- Whether characters have the shape of a time of day. -/
def isTime (cs : List Char) : Bool :=
  isDigits 2 (cs.take 2) && (cs.drop 2).take 1 = [':'] && isDigits 2 ((cs.drop 3).take 2)
    && (cs.drop 5).take 1 = [':'] && isDigits 2 ((cs.drop 6).take 2)
    && match cs.drop 8 with
      | [] => true
      | '.' :: ds => !ds.isEmpty && ds.all Char.isDigit
      | _ => false

/-- Whether characters have the shape of a time of day with a distance from universal time. -/
def isZonedTime (cs : List Char) : Bool :=
  let time := cs.takeWhile fun c => c.isDigit || c = ':' || c = '.'
  isTime time && match cs.drop time.length with
    | [] => true
    | [c] => c = 'Z' || c = 'z'
    | c :: ds =>
      (c = '+' || c = '-') && isDigits 2 (ds.take 2) && (ds.drop 2).take 1 = [':']
        && isDigits 2 (ds.drop 3)

/-- Whether a word is a date, a time or both. -/
def isMoment (cs : List Char) : Bool :=
  isTime cs || isDate cs
    || isDate (cs.take 10) && ['T', 't', ' '].contains (cs.getD 10 'x') && isZonedTime (cs.drop 11)

/-- The characters of numbers, dates and flags. -/
def isWordChar (c : Char) : Bool := c.isAlphanum || c = '+' || c = '-' || c = '_' || c = '.' || c = ':'

/-- A flag, a number or a date. -/
def readWord : Reader Datum := do
  let word ← Reader.takeWhile isWordChar
  let word ← (do
    let text ← Reader.rest
    match isDate word, text with
    | true, ' ' :: c :: _ =>
      if c.isDigit then
        Reader.expect [' ']
        return word ++ ' ' :: (← Reader.takeWhile isWordChar)
      else return word
    | _, _ => return word : Reader (List Char))
  match String.ofList word with
  | "true" => return .bool true
  | "false" => return .bool false
  | "inf" | "+inf" => return .irregular "+Inf"
  | "-inf" => return .irregular "-Inf"
  | "nan" | "+nan" | "-nan" => return .irregular "NaN"
  | s =>
    if isMoment word then return .date s
    else match wholeNumber? word, fractional? word with
      | some i, _ => return .int i
      | none, some d => return .decimal d
      | none, none => failure

/-! ### Keys and values -/

/-- The characters of a key without quotes. -/
def isKeyChar (c : Char) : Bool := c.isAlphanum || c = '_' || c = '-'

/-- One part of a key. -/
def readKeyPart : Reader String := do
  if ← Reader.accept ['"'] then lineText '"'
  else if ← Reader.accept [apostrophe] then lineText apostrophe
  else
    let cs ← Reader.takeWhile isKeyChar
    if cs.isEmpty then failure else return String.ofList cs

/-- The parts of a key, with points between them. -/
def readKey : (fuel : Nat) → Reader (List String)
  | 0 => failure
  | fuel + 1 => do
    Reader.skipBlanks
    let part ← readKeyPart
    Reader.skipBlanks
    if ← Reader.accept ['.'] then return part :: (← readKey fuel) else return [part]

/-- The parts of the key at the front. -/
def readPath : Reader (List String) := do readKey ((← Reader.rest).length + 1)

mutual

/-- A value. A table in a list keeps only the last part of its keys. -/
def readValue : (fuel : Nat) → (inList : Bool) → Reader Node
  | 0, _ => failure
  | fuel + 1, inList => do
    let first := (← Reader.rest).head?
    if first = some '"' then return .leaf (.str (← readText '"'))
    else if first = some apostrophe then return .leaf (.str (← readText apostrophe))
    else if ← Reader.accept ['['] then return .leaf (.list (← readItems fuel))
    else if ← Reader.accept ['\x7b'] then
      Reader.skipBlanks
      if ← Reader.accept ['\x7d'] then return .table false []
      let (entries, shown) ← readEntries fuel [] []
      return if inList then .leaf (.map shown) else .table false entries
    else return .leaf (← readWord)

/-- The values of a list up to its closing bracket. -/
def readItems : (fuel : Nat) → Reader (List Datum)
  | 0 => failure
  | fuel + 1 => do
    Reader.skipTrivia
    if ← Reader.accept [']'] then return []
    let n ← readValue fuel true
    Reader.skipTrivia
    if ← Reader.accept [','] then return n.toDatum :: (← readItems fuel)
    Reader.expect [']']
    return [n.toDatum]

/-- The entries of a table on one line up to its closing brace, behind those before: as a table, and
by the last parts of their keys. -/
def readEntries : (fuel : Nat) → Entries → Layer → Reader (Entries × Layer)
  | 0, _, _ => failure
  | fuel + 1, entries, shown => do
    let path ← readPath
    Reader.expect ['=']
    Reader.skipBlanks
    let n ← readValue fuel false
    match entries.assign path n with
    | none => failure
    | some entries =>
      let shown := shown.set (path.getLastD "") n.toDatum
      Reader.skipBlanks
      if ← Reader.accept [','] then readEntries fuel entries shown
      else
        Reader.expect ['\x7d']
        return (entries, shown)

end

/-! ### Whole texts -/

/-- The tables filled so far and the section being filled. -/
structure Progress where
  entries : Entries := []
  sect : List String := []
  deriving Inhabited

/-- Takes a header or an assignment. -/
def readLine (p : Progress) : Reader Progress := do
  if ← Reader.accept ['[', '['] then
    let path ← readPath
    Reader.expect [']', ']']
    Reader.endLine
    match openItem path p.entries with
    | some entries => return { entries := entries, sect := path }
    | none => failure
  else if ← Reader.accept ['['] then
    let path ← readPath
    Reader.expect [']']
    Reader.endLine
    match openTable path p.entries with
    | some entries => return { entries := entries, sect := path }
    | none => failure
  else
    let path ← readPath
    Reader.expect ['=']
    Reader.skipBlanks
    let n ← readValue ((← Reader.rest).length + 1) false
    Reader.endLine
    match Entries.through p.sect (Entries.assign path n) p.entries with
    | some entries => return { p with entries := entries }
    | none => failure

/-- Takes all lines. -/
def readLines : (fuel : Nat) → Progress → Reader Progress
  | 0, _ => failure
  | fuel + 1, p => do
    Reader.skipTrivia
    if (← Reader.rest).isEmpty then return p
    readLines fuel (← readLine p)

/-- Whether every control character is a tab or part of a line break. -/
def controlsFit : List Char → Bool
  | [] => true
  | '\r' :: '\n' :: cs => controlsFit cs
  | c :: cs => (c = '\t' || c = '\n' || 0x20 ≤ c.toNat && c.toNat ≠ 0x7f) && controlsFit cs

/-- The text without a byte order mark. -/
def dropMark : List Char → List Char
  | c :: cs => if c.toNat = 0xfeff then cs else c :: cs
  | [] => []

end QueryCheck.Settings.Toml

namespace QueryCheck.Settings

/-- The data of a TOML text. -/
def readToml (s : String) : Option Layer :=
  let cs := Toml.dropMark s.toList
  if Toml.controlsFit cs then
    (Toml.readLines (cs.length + 1) {} cs).map fun r => Toml.entriesToData r.1.entries
  else none

end QueryCheck.Settings

import QueryCheck.Settings.Yaml.Scalar

/-! # Reading YAML

The first document of a text, as far as configuration files use the notation: maps and lists by
indentation and in brackets, words with and without quotes, texts over several lines, comments, and
marks that name a value and use it again.

A place in the text is what is left of it with the column it starts at. Blocks are read by the
column of their first character: the keys of a map and the dashes of a list stand in one column, and
what belongs to them stands to the right.

* `readYaml`: the data of a text, none if it is malformed or no map. -/

namespace QueryCheck.Settings.Yaml

/-! ### Places -/

/-- What is left of the text, its column, and the values that have been named. -/
structure Place where
  rest : List Char
  column : Nat := 0
  named : List (String × Datum) := []
  deriving Inhabited

/-- A reader moves a place and may fail. -/
abbrev Reader := StateT Place Option

/-- Whether a character is a space or a tab. -/
def isBlank (c : Char) : Bool := c = ' ' || c = '\t'

/-- Whether a text starts with a blank, a line break or its end. -/
def blankNext : List Char → Bool
  | [] => true
  | c :: _ => isBlank c || c = '\n'

/-- The place behind one character. -/
def Place.step (p : Place) : Place :=
  match p.rest with
  | [] => p
  | '\n' :: cs => { p with rest := cs, column := 0 }
  | _ :: cs => { p with rest := cs, column := p.column + 1 }

/-- Moves over characters of the same line. -/
def Place.advance (p : Place) (n : Nat) : Place := { p with rest := p.rest.drop n, column := p.column + n }

/-- The characters that are left. -/
def rest : Reader (List Char) := do return (← get).rest

/-- Takes a character of a class. -/
def take (p : Char → Bool) : Reader Bool := do
  match ← rest with
  | c :: _ =>
    if p c then
      modify Place.step
      return true
    else return false
  | [] => return false

/-- Takes all characters of a class, on one line. -/
def takeWhile (p : Char → Bool) : Reader (List Char) := do
  let cs := (← rest).takeWhile p
  modify (·.advance cs.length)
  return cs

/-- Takes blanks. -/
def skipBlanks : Reader Unit := do
  let _ ← takeWhile isBlank

/-- Takes a comment up to the end of its line. -/
def skipComment : Reader Unit := do
  if (← rest).head? = some '#' then
    let _ ← takeWhile (· ≠ '\n')

/-- Whether a marker between documents comes next. -/
def atMarker : Reader Bool := do
  let p ← get
  return p.column = 0 && (["---".toList, "...".toList].contains (p.rest.take 3))
    && blankNext (p.rest.drop 3)

/-- Whether the line holds nothing more than a comment. -/
def lineEnds : Reader Bool := do
  skipBlanks
  skipComment
  match ← rest with
  | [] => return true
  | c :: _ => return c = '\n'

/-- Takes blank lines and comments up to the first character of a line with content. A tab may not
stand in front of it. -/
def skipLines : (fuel : Nat) → Reader Unit
  | 0 => failure
  | fuel + 1 => do
    let _ ← takeWhile (· = ' ')
    skipComment
    match ← rest with
    | '\n' :: _ =>
      modify Place.step
      skipLines fuel
    | '\t' :: _ => failure
    | _ => return

/-- Goes on to the next content. -/
def toContent : Reader Unit := do skipLines ((← rest).length + 1)

/-- Takes blanks, line breaks and comments inside brackets. -/
def skipAll : (fuel : Nat) → Reader Unit
  | 0 => failure
  | fuel + 1 => do
    skipBlanks
    skipComment
    if ← take (· = '\n') then skipAll fuel

/-- Goes on to the next content inside brackets. -/
def toContentFlow : Reader Unit := do skipAll ((← rest).length + 1)

/-! ### Words -/

/-- The character numbered by hexadecimal digits. -/
def numbered (n : Nat) (cs : List Char) : Option (Char × List Char) :=
  let digits := cs.take n
  if digits.length < n || !digits.all fun c => (Text.digitValue? c).isSome then none
  else
    let number := digits.foldl (fun m c => m * 16 + (Text.digitValue? c).getD 0) 0
    if number < 0xd800 || 0xe000 ≤ number && number < 0x110000 then some (Char.ofNat number, cs.drop n)
    else none

/-- The single characters behind a backslash. -/
def escapeTable : List (Char × Nat) :=
  [('0', 0), ('a', 7), ('b', 8), ('t', 9), ('\t', 9), ('n', 10), ('v', 11), ('f', 12), ('r', 13),
   ('e', 27), (' ', 32), ('"', 34), ('/', 47), ('\\', 92), ('N', 0x85), ('_', 0xa0), ('L', 0x2028),
   ('P', 0x2029)]

/-- The character of an escape sequence behind its backslash, and what follows. -/
def escaped : List Char → Option (Char × List Char)
  | 'x' :: cs => numbered 2 cs
  | 'u' :: cs => numbered 4 cs
  | 'U' :: cs => numbered 8 cs
  | c :: cs => (escapeTable.lookup c).map fun n => (Char.ofNat n, cs)
  | [] => none

/-- A line break inside a word and the blanks around it: one becomes a space, of several the first
is dropped. What follows comes second. -/
def folded (cs : List Char) : List Char × List Char :=
  let blanks := cs.takeWhile fun c => isBlank c || c = '\n'
  let breaks := (blanks.filter (· = '\n')).length
  ((if breaks ≤ 1 then [' '] else List.replicate (breaks - 1) '\n'), cs.drop blanks.length)

/-- The blanks at the front of a text, if a line break follows them. -/
def breakAhead (cs : List Char) : Bool := (cs.dropWhile isBlank).head? = some '\n'

/-- The characters of a word in double quotes up to the closing one. -/
def doubleQuoted : (fuel : Nat) → List Char → Option (List Char × List Char)
  | 0, _ => none
  | _ + 1, [] => none
  | fuel + 1, c :: cs =>
    if c = '"' then some ([], cs)
    else if c = '\\' then
      match cs with
      | '\n' :: more => doubleQuoted fuel (more.dropWhile isBlank)
      | cs => do
        let (x, cs) ← escaped cs
        let (xs, cs) ← doubleQuoted fuel cs
        return (x :: xs, cs)
    else if breakAhead (c :: cs) then do
      let (x, cs) := folded (c :: cs)
      let (xs, cs) ← doubleQuoted fuel cs
      return (x ++ xs, cs)
    else do
      let (xs, cs) ← doubleQuoted fuel cs
      return (c :: xs, cs)

/-- The characters of a word in single quotes up to the closing one. -/
def singleQuoted : (fuel : Nat) → List Char → Option (List Char × List Char)
  | 0, _ => none
  | _ + 1, [] => none
  | fuel + 1, c :: cs =>
    if c = apostrophe then
      match cs with
      | d :: more =>
        if d = apostrophe then do
          let (xs, cs) ← singleQuoted fuel more
          return (apostrophe :: xs, cs)
        else some ([], cs)
      | [] => some ([], [])
    else if breakAhead (c :: cs) then do
      let (x, cs) := folded (c :: cs)
      let (xs, cs) ← singleQuoted fuel cs
      return (x ++ xs, cs)
    else do
      let (xs, cs) ← singleQuoted fuel cs
      return (c :: xs, cs)

/-- Moves to a later rest of the text. -/
def moveTo (cs : List Char) : Reader Unit := do
  let p ← get
  let taken := p.rest.take (p.rest.length - cs.length)
  let column :=
    if taken.contains '\n' then (taken.reverse.takeWhile (· ≠ '\n')).length else p.column + taken.length
  set { p with rest := cs, column := column }

/-- The word in quotes at the front; its opening quote has not been taken. -/
def quoted (quote : Char) : Reader String := do
  let text := (← rest).drop 1
  let result := if quote = '"' then doubleQuoted (text.length + 1) text
    else singleQuoted (text.length + 1) text
  match result with
  | some (xs, cs) =>
    moveTo cs
    return String.ofList xs
  | none => failure

/-- The word in quotes at the front, if there is one. -/
def quoted? : Reader (Option String) := do
  let first := (← rest).head?
  if first = some '"' then return some (← quoted '"')
  else if first = some apostrophe then return some (← quoted apostrophe)
  else return none

/-- The characters that structure collections in brackets. -/
def isFlowMark (c : Char) : Bool := c = ',' || c = '[' || c = ']' || c = '\x7b' || c = '\x7d'

/-- Whether a word without quotes may start here. -/
def startsWord (inFlow : Bool) : List Char → Bool
  | [] => false
  | c :: cs =>
    if c = '-' || c = '?' || c = ':' then !blankNext cs && !(inFlow && cs.head?.any isFlowMark)
    else !(isBlank c || c = '\n' || isFlowMark c
      || c = apostrophe || c.toNat = 0x60 || ['#', '&', '*', '!', '|', '>', '"', '%', '@'].contains c)

/-- The characters of a word without quotes on one line; `afterBlank` says whether a blank stands
before. -/
def wordChars (inFlow : Bool) : (afterBlank : Bool) → List Char → List Char
  | _, [] => []
  | afterBlank, c :: cs =>
    if c = '\n' || c = ':' && blankNext cs || c = '#' && afterBlank || inFlow && isFlowMark c then []
    else c :: wordChars inFlow (isBlank c) cs

/-- Characters without the blanks at their end. -/
def trimEnd (cs : List Char) : List Char := (cs.reverse.dropWhile isBlank).reverse

/-- A word without quotes on one line. -/
def wordLine (inFlow : Bool) : Reader (List Char) := do
  let cs := trimEnd (wordChars inFlow false (← rest))
  modify (·.advance cs.length)
  return cs

/-- The later lines of a word: those in column `least` or to the right of it. -/
def wordLines (inFlow : Bool) (least : Nat) : (fuel : Nat) → Reader (List Char)
  | 0 => failure
  | fuel + 1 => do
    let here ← get
    if !breakAhead here.rest then return []
    let (fold, cs) := folded here.rest
    moveTo cs
    let next ← get
    let goesOn := match next.rest with
      | [] => false
      | c :: _ => (inFlow || least ≤ next.column) && c ≠ '#' && !(inFlow && isFlowMark c)
    if !goesOn || (← atMarker) then
      set here
      return []
    let line ← wordLine inFlow
    if line.isEmpty then
      set here
      return []
    return fold ++ line ++ (← wordLines inFlow least fuel)

/-- A word without quotes. -/
def word (inFlow : Bool) (least : Nat) : Reader String := do
  let first ← wordLine inFlow
  let more ← wordLines inFlow least ((← rest).length + 1)
  return String.ofList (first ++ more)

/-! ### Texts over several lines -/

/-- How the end of a text over several lines is treated. -/
inductive Chomp where
  | clip
  | strip
  | keep
  deriving DecidableEq, Repr, Inhabited

/-- The marks behind the sign of a text: the treatment of its end and its indentation. -/
def blockMarks : List Char → Option (Chomp × Option Nat)
  | [] => some (.clip, none)
  | c :: cs => do
    let (chomp, width) ← blockMarks cs
    if c = '-' then return (.strip, width)
    else if c = '+' then return (.keep, width)
    else if '1' ≤ c ∧ c ≤ '9' then return (chomp, some (c.toNat - '0'.toNat))
    else none

/-- The spaces in front of a line. -/
def leading (line : List Char) : Nat := (line.takeWhile (· = ' ')).length

/-- The lines that belong to a text indented by at least `width`: indented or empty ones. -/
def blockLines (width : Nat) (ls : List (List Char)) : List (List Char) :=
  ls.takeWhile fun l => width ≤ leading l || l.all (· = ' ')

/-- Joins the lines of a folded text: between two lines that are not indented further a single break
is a space. -/
def foldLines : List (List Char) → List Char
  | [] => []
  | [l] => l
  | l :: m :: ls =>
    let further (x : List Char) : Bool := x.head?.any isBlank
    if m.isEmpty then
      let empties := (m :: ls).takeWhile List.isEmpty
      let rest := (m :: ls).drop empties.length
      match rest with
      | [] => l ++ List.replicate empties.length '\n'
      | n :: _ =>
        let breaks := if further l || further n then empties.length + 1 else empties.length
        l ++ List.replicate breaks '\n' ++ foldLines rest
    else if further l || further m then l ++ '\n' :: foldLines (m :: ls)
    else l ++ ' ' :: foldLines (m :: ls)
termination_by ls => ls.length
decreasing_by
  · rw [List.length_drop]
    exact Nat.lt_succ_of_le (Nat.sub_le _ _)
  · exact Nat.lt_succ_self _
  · exact Nat.lt_succ_self _

/-- Lines without the empty ones at their end. -/
def dropEmptyEnd (ls : List (List Char)) : List (List Char) :=
  (ls.reverse.dropWhile List.isEmpty).reverse

/-- Cuts a text at its line breaks. -/
def cutLines (cs : List Char) : List (List Char) :=
  cs.foldr (fun c ls => if c = '\n' then [] :: ls else match ls with
    | l :: more => (c :: l) :: more
    | [] => [[c]]) [[]]

/-- Joins lines with line breaks. -/
def joinLines (ls : List (List Char)) : List Char := (ls.intersperse ['\n']).flatten

/-- A text over several lines, indented by at least `least`. Its sign has not been taken. -/
def blockText (least : Nat) : Reader String := do
  let folds := (← rest).head? = some '>'
  modify (·.advance 1)
  let marks ← takeWhile fun c => !isBlank c && c ≠ '\n'
  match blockMarks marks with
  | none => failure
  | some (chomp, width) =>
    if !(← lineEnds) then failure
    let body := cutLines ((← rest).drop 1)
    let found := (body.filter fun l => !l.all (· = ' ')).head?.elim 0 leading
    let width := match width with
      | some w => (least - 1) + w
      | none => max least found
    let lines := blockLines width body
    let after := body.drop lines.length
    let content := lines.map (·.drop width)
    let kept := dropEmptyEnd content
    let empties := content.length - kept.length
    let text := if folds then foldLines kept else joinLines kept
    let ending := match chomp with
      | .strip => []
      | .clip => if kept.isEmpty then [] else ['\n']
      | .keep => List.replicate (if after.isEmpty then empties else empties + 1) '\n'
    set { (← get) with rest := joinLines after, column := 0 }
    return String.ofList (text ++ ending)

/-! ### Collections in brackets -/

/-- The entries with one more; a key may stand once. -/
def addEntry (es : Layer) (key : String) (d : Datum) : Option Layer :=
  if es.any fun e => e.1 == key then none else some (es ++ [(key, d)])

/-- The key of a datum and its spelling. -/
abbrev Spelled := String × Datum

mutual

/-- A value inside brackets, with its spelling. -/
def flowValue : (fuel : Nat) → Reader Spelled
  | 0 => failure
  | fuel + 1 => do
    if ← take (· = '[') then return ("", .list (← flowItems fuel))
    else if ← take (· = '\x7b') then return ("", .map (← flowEntries fuel []))
    else match ← quoted? with
      | some s => return (s, .str s)
      | none =>
        if startsWord true (← rest) then
          let s ← word true 0
          return (s, resolve s)
        else failure

/-- The value of an entry inside brackets, nothing if it is left out. -/
def flowEntryValue : (fuel : Nat) → Reader Datum
  | 0 => failure
  | fuel + 1 => do
    toContentFlow
    match (← rest).head? with
    | some ',' | some ']' | some '\x7d' => return .null
    | _ => return (← flowValue fuel).2

/-- The items of a list up to its closing bracket. -/
def flowItems : (fuel : Nat) → Reader (List Datum)
  | 0 => failure
  | fuel + 1 => do
    toContentFlow
    if ← take (· = ']') then return []
    let (key, d) ← flowValue fuel
    toContentFlow
    let d ← (do
      if ← take (· = ':') then return .map [(key, ← flowEntryValue fuel)] else return d : Reader Datum)
    toContentFlow
    if ← take (· = ',') then return d :: (← flowItems fuel)
    if ← take (· = ']') then return [d]
    failure

/-- The entries of a map up to its closing brace. -/
def flowEntries : (fuel : Nat) → Layer → Reader Layer
  | 0, _ => failure
  | fuel + 1, es => do
    toContentFlow
    if ← take (· = '\x7d') then return es
    let (key, _) ← flowValue fuel
    toContentFlow
    let d ← (do if ← take (· = ':') then flowEntryValue fuel else return .null : Reader Datum)
    toContentFlow
    match addEntry es key d with
    | none => failure
    | some es =>
      if ← take (· = ',') then flowEntries fuel es
      else if ← take (· = '\x7d') then return es
      else failure

end

/-! ### Blocks -/

/-- A key at the front with the colon behind it, on one line. -/
def blockKey : Reader (Option String) := do
  let here ← get
  let key ← (do
    match ← quoted? with
    | some s => return some s
    | none =>
      if startsWord false here.rest then return some (String.ofList (← wordLine false)) else return none
    : Reader (Option String)) <|> pure none
  skipBlanks
  match key, ← rest with
  | some k, ':' :: cs =>
    let taken := here.rest.take (here.rest.length - cs.length)
    if blankNext cs && !taken.contains '\n' then
      modify (·.advance 1)
      return some k
    else
      set here
      return none
  | _, _ =>
    set here
    return none

/-- Whether an item of a list comes next. -/
def atDash : Reader Bool := do
  match ← rest with
  | '-' :: cs => return blankNext cs
  | _ => return false

/-- A value that is no block, with its own lines in column `least` or to the right of it. -/
def plainValue (least : Nat) : Reader Datum := do
  let text ← rest
  let d ← (do
    match text.head? with
    | some '[' | some '\x7b' => return (← flowValue (text.length + 1)).2
    | some '|' | some '>' => return .str (← blockText least)
    | _ =>
      match ← quoted? with
      | some s => return .str s
      | none => if startsWord false text then return resolve (← word false least) else failure
    : Reader Datum)
  if (← get).column = 0 || (← lineEnds) then return d else failure

/-- The name behind the mark of a named value. -/
def mark : Reader String := do
  modify (·.advance 1)
  let name ← takeWhile fun c => c.isAlphanum || c = '_' || c = '-'
  if name.isEmpty then failure
  skipBlanks
  return String.ofList name

/-- The value that has been named. -/
def useNamed : Reader Datum := do
  let name ← mark
  let d := (← get).named.lookup name
  match d, ← lineEnds with
  | some d, true => return d
  | _, _ => failure

mutual

/-- The block that starts at the next content, nothing if that is left of column `least`. A list may
also start one column before, below the key of a map. -/
def block : (fuel : Nat) → (least : Nat) → (belowKey : Bool) → Reader Datum
  | 0, _, _ => failure
  | fuel + 1, least, belowKey => do
    toContent
    let p ← get
    if p.rest.isEmpty || (← atMarker) then return .null
    else if least ≤ p.column || belowKey && least ≤ p.column + 1 && (← atDash) then blockAt fuel least
    else return .null

/-- The block or value that starts here. -/
def blockAt : (fuel : Nat) → (least : Nat) → Reader Datum
  | 0, _ => failure
  | fuel + 1, least => do
    let column := (← get).column
    if ← atDash then return .list (← blockItems fuel column)
    match (← rest).head? with
    | some '&' =>
      let name ← mark
      let d ← if ← lineEnds then block fuel least false else blockAt fuel least
      modify fun p => { p with named := (name, d) :: p.named }
      return d
    | some '*' => useNamed
    | _ =>
      match ← blockKey with
      | some key => return .map (← blockEntries fuel column key [])
      | none => plainValue least

/-- The items of a list whose dashes stand in a column. -/
def blockItems : (fuel : Nat) → (column : Nat) → Reader (List Datum)
  | 0, _ => failure
  | fuel + 1, column => do
    modify (·.advance 1)
    let d ← if ← lineEnds then block fuel (column + 1) false else blockAt fuel (column + 1)
    toContent
    if (← get).column = column && (← atDash) then return d :: (← blockItems fuel column)
    return [d]

/-- The value of a key in a column; its colon has been taken. -/
def entryValue : (fuel : Nat) → (column : Nat) → Reader Datum
  | 0, _ => failure
  | fuel + 1, column => do
    if ← lineEnds then block fuel (column + 1) true
    else match (← rest).head? with
      | some '&' =>
        let name ← mark
        let d ← entryValue fuel column
        modify fun p => { p with named := (name, d) :: p.named }
        return d
      | some '*' => useNamed
      | _ => if ← atDash then failure else plainValue (column + 1)

/-- The entries of a map whose keys stand in a column; the first key has been taken. -/
def blockEntries : (fuel : Nat) → (column : Nat) → (key : String) → Layer → Reader Layer
  | 0, _, _, _ => failure
  | fuel + 1, column, key, es => do
    let d ← entryValue fuel column
    match addEntry es key d with
    | none => failure
    | some es =>
      toContent
      let p ← get
      if p.rest.isEmpty || p.column < column || (← atMarker) then return es
      else if p.column = column then
        match ← blockKey with
        | some key => blockEntries fuel column key es
        | none => failure
      else failure

end

/-! ### Documents -/

/-- Whether a character may stand in a document. -/
def isAllowed (c : Char) : Bool :=
  let n := c.toNat
  n = 9 || n = 10 || n = 13 || 0x20 ≤ n && n ≤ 0x7e || n = 0x85 || 0xa0 ≤ n && n ≤ 0xd7ff
    || 0xe000 ≤ n && n ≤ 0xfffd && n ≠ 0xfeff || 0x10000 ≤ n

/-- The text with plain line breaks and without a byte order mark. -/
def normalize : List Char → List Char
  | [] => []
  | '\r' :: '\n' :: cs => '\n' :: normalize cs
  | c :: cs => (if c = '\r' then '\n' else c) :: normalize cs

/-- Takes directives and the marker in front of a document. -/
def prologue : (fuel : Nat) → Reader Unit
  | 0 => failure
  | fuel + 1 => do
    toContent
    let p ← get
    if p.column = 0 && p.rest.head? = some '%' then
      let _ ← takeWhile (· ≠ '\n')
      prologue fuel
    else if p.column = 0 && p.rest.take 3 = "---".toList && blankNext (p.rest.drop 3) then
      modify (·.advance 3)
      skipBlanks

/-- The first document. -/
def document : Reader Datum := do
  let size := (← rest).length + 1
  prologue size
  let d ← block (2 * size) 0 false
  toContent
  if (← rest).isEmpty || (← atMarker) then return d else failure

end QueryCheck.Settings.Yaml

namespace QueryCheck.Settings

/-- The data of a YAML text. -/
def readYaml (s : String) : Option Layer :=
  let cs := match s.toList with
    | c :: cs => if c.toNat = 0xfeff then cs else c :: cs
    | [] => []
  if !cs.all Yaml.isAllowed then none
  else match Yaml.document { rest := Yaml.normalize cs } with
    | some (.map es, _) => some es
    | some (.null, _) => some []
    | _ => none

end QueryCheck.Settings

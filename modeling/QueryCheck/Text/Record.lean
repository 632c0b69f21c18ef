import QueryCheck.Text.Measure

/-! # Records

The first record of a text of fields with commas between them. A field may stand in double quotes,
in which a quote is written twice; elsewhere a quote is malformed. Columns count bytes. -/

namespace QueryCheck.Text

/-- Why a text has no first record. -/
inductive RecordError where
  | nothing
  | bareQuote (line column : Nat)
  | badQuote (start line column : Nat)
  deriving DecidableEq, Repr, Inhabited

/-- The wording of a failure. -/
def RecordError.message : RecordError → String
  | nothing => "EOF"
  | bareQuote line column =>
    "parse error on line " ++ toString line ++ ", column " ++ toString column
      ++ ": bare \" in non-quoted field"
  | badQuote start line column =>
    (if start = line then "" else "record on line " ++ toString start ++ "; ")
      ++ "parse error on line " ++ toString line ++ ", column " ++ toString column
      ++ ": extraneous or missing \" in quoted-field"

namespace Record

/-- The bytes characters take. -/
def bytes (cs : List Char) : Nat := sumOf Char.utf8Size cs

/-- A place in a text: the line the record starts on, the line and the column. -/
structure Place where
  start : Nat
  line : Nat
  column : Nat
  deriving DecidableEq, Repr, Inhabited

/-- A field in quotes, behind its opening quote: its characters and what follows it, with the
place. -/
def quotedField : Place → List Char → Except RecordError (List Char × Place × List Char)
  | p, [] => .error (.badQuote p.start p.line p.column)
  | p, '"' :: '"' :: cs => do
    let (xs, r) ← quotedField { p with column := p.column + 2 } cs
    return ('"' :: xs, r)
  | p, '"' :: cs =>
    let after := { p with column := p.column + 1 }
    match cs with
    | [] => .ok ([], after, [])
    | ',' :: _ => .ok ([], after, cs)
    | '\n' :: _ => .ok ([], after, cs)
    | _ => .error (.badQuote p.start p.line p.column)
  | p, c :: cs => do
    let next :=
      if c = '\n' && !cs.isEmpty then { p with line := p.line + 1, column := 1 }
      else { p with column := p.column + c.utf8Size }
    let (xs, r) ← quotedField next cs
    return (c :: xs, r)

/-- The fields of a record. -/
def fields : (fuel : Nat) → Place → List Char → Except RecordError (List String)
  | 0, _, _ => .ok []
  | fuel + 1, p, '"' :: cs => do
    let (xs, p, rest) ← quotedField { p with column := p.column + 1 } cs
    let field := String.ofList xs
    match rest with
    | ',' :: rest => return field :: (← fields fuel { p with column := p.column + 1 } rest)
    | _ => return [field]
  | fuel + 1, p, cs =>
    let field := cs.takeWhile fun c => c ≠ ',' && c ≠ '\n'
    if field.contains '"' then
      .error (.bareQuote p.line (p.column + bytes (field.takeWhile (· ≠ '"'))))
    else do
      match cs.drop field.length with
      | ',' :: rest =>
        let next := { p with column := p.column + bytes field + 1 }
        return String.ofList field :: (← fields fuel next rest)
      | _ => return [String.ofList field]

/-- The text with plain line breaks and without a carriage return at its end. -/
def plainBreaks : List Char → List Char
  | [] => []
  | '\r' :: '\n' :: cs => '\n' :: plainBreaks cs
  | ['\r'] => []
  | c :: cs => c :: plainBreaks cs

end Record

/-- The fields of the first line that is not empty; none of an empty text. -/
def firstRecord (s : String) : Except RecordError (List String) :=
  if s.isEmpty then .ok []
  else
    let cs := Record.plainBreaks s.toList
    let rest := cs.dropWhile (· = '\n')
    let line := cs.length - rest.length + 1
    if rest.isEmpty then .error .nothing
    else Record.fields (rest.length + 1) ⟨line, line, 1⟩ rest

end QueryCheck.Text

import QueryCheck.Source.Lexer
import QueryCheck.Written.Basic

/-! # The grammar of query documents

Recursive descent over the tokens of a text with one token of look-ahead; the first complaint ends
the reading. Lists and nested selections are read with a bound on their length and depth: no list is
longer, and nothing is nested deeper, than there are tokens.

* `parseQuery` reads the operations and fragments of a text. -/

namespace QueryCheck.Written

open QueryCheck.Source

/-- What is wrong with a text. -/
inductive Complaint where
  /-- Another kind of token was expected. -/
  | expectedKind (wanted found : TokenKind)
  /-- A certain word was expected. -/
  | expectedWord (wanted : String) (found : Token)
  /-- The token may not stand here. -/
  | unexpected (found : Token)
  /-- A list that needs an item has none. -/
  | noItem (found : TokenKind)
  /-- No token could be read. -/
  | fault (f : Fault)
  deriving DecidableEq, Repr, Inhabited

/-- The wording of a complaint. -/
def Complaint.message : Complaint → String
  | expectedKind wanted found => "Expected " ++ wanted.shown ++ ", found " ++ found.shown
  | expectedWord wanted found => "Expected " ++ Text.quote wanted ++ ", found " ++ found.shown
  | unexpected found => "Unexpected " ++ found.shown
  | noItem found => "expected at least one definition, found " ++ found.shown
  | fault f => f.message

/-- A complaint at a place of a text. -/
structure SyntaxError where
  complaint : Complaint
  line : Nat
  column : Int
  deriving DecidableEq, Repr, Inhabited

/-- The message of a syntax error in the text of the given name. -/
def SyntaxError.message (source : String) (e : SyntaxError) : String :=
  source ++ ":" ++ toString e.line ++ ":" ++ toString e.column ++ ": " ++ e.complaint.message

/-- A reader of tokens. -/
abbrev Parser := StateT Stream (Except SyntaxError)

namespace Parser

/-! ### Single tokens -/

/-- The next token, which stays. -/
def peek : Parser Token := do return (← get).peek

/-- Takes the next token. -/
def next : Parser Token := do
  let s ← get
  set s.advance
  return s.peek

/-- Ends the reading with a complaint about a token. -/
def complain {α : Type} (c : Complaint) (t : Token) : Parser α :=
  throw ⟨c, t.span.line, t.column⟩

/-- Ends the reading because a token may not stand where it does. -/
def unexpectedToken {α : Type} (t : Token) : Parser α := complain (.unexpected t) t

/-- Ends the reading because the next token may not stand where it does. -/
def unexpected {α : Type} : Parser α := do unexpectedToken (← peek)

/-- Takes a token of the given kind. -/
def expect (k : TokenKind) : Parser Token := do
  let t ← peek
  if t.kind = k then next else complain (.expectedKind k t.kind) t

/-- Takes the given word. -/
def expectWord (word : String) : Parser Unit := do
  let t ← peek
  if t.kind = .name ∧ t.value = word then discard next else complain (.expectedWord word t) t

/-- Takes a token of the given kind if it is next. -/
def skip (k : TokenKind) : Parser Bool := do
  if (← peek).kind = k then
    discard next
    return true
  else return false

/-- Takes a name. -/
def name : Parser String := do return (← expect .name).value

/-! ### Lists -/

/-- Reads items up to the closing token, at most `bound` of them, and takes it. -/
def untilClose {α : Type} (close : TokenKind) (item : Parser α) : (bound : Nat) → Parser (List α)
  | 0 => unexpected
  | bound + 1 => do
    if (← peek).kind = close then
      discard next
      return []
    else
      let a ← item
      let as ← untilClose close item bound
      return a :: as

/-- Reads items while the next token is of the given kind, at most `bound` of them. -/
def whileNext {α : Type} (start : TokenKind) (item : Parser α) : (bound : Nat) → Parser (List α)
  | 0 => return []
  | bound + 1 => do
    if (← peek).kind = start then
      let a ← item
      let as ← whileNext start item bound
      return a :: as
    else return []

/-- A bound on the length of any list that may follow. -/
def bound : Parser Nat := do return (← get).tokens.length + 1

/-- Any number of items between two tokens; nothing when the first is not next. -/
def many {α : Type} (start close : TokenKind) (item : Parser α) : Parser (List α) := do
  if ← skip start then untilClose close item (← bound) else return []

/-- At least one item between two tokens; nothing when the first is not next. -/
def nonEmpty {α : Type} (start close : TokenKind) (item : Parser α) : Parser (List α) := do
  if ← skip start then
    let t ← peek
    if t.kind = close then complain (.noItem t.kind) t else untilClose close item (← bound)
  else return []

/-- Names with a separator between two; the separator may also stand in front. -/
def separated {α : Type} (separator : TokenKind) (item : Parser α) : Parser (List α) := do
  discard (skip separator)
  let a ← item
  let as ← whileNext separator (do discard next; item) (← bound)
  return a :: as

/-! ### Values, types and directives -/

/-- Takes a variable with its dollar sign. -/
def variableName : Parser String := do
  discard (expect .dollar)
  name

/-- The kind of literal a token is, if it is one. -/
def literalKind? (t : Token) : Option LiteralKind :=
  match t.kind with
  | .int => some .int
  | .float => some .float
  | .string => some .string
  | .blockString => some .block
  | .name =>
    if t.value = "true" ∨ t.value = "false" then some .boolean
    else if t.value = "null" then some .null
    else some .enum
  | _ => none

/-- A value nested at most `depth` deep; a constant one has no variables. -/
def value (constant : Bool) : (depth : Nat) → Parser Value
  | 0 => unexpected
  | depth + 1 => do
    let t ← peek
    match t.kind with
    | .bracketL => return .list (← many .bracketL .bracketR (value constant depth)) t.span
    | .braceL =>
      let field : Parser (String × Span × Value) := do
        let here := (← peek).span
        let n ← name
        discard (expect .colon)
        return (n, here, ← value constant depth)
      return .object (← many .braceL .braceR field) t.span
    | .dollar =>
      if constant then unexpected else return .variable (← variableName) t.span
    | _ =>
      match literalKind? t with
      | some k =>
        discard next
        return .literal k t.value t.span
      | none => unexpected

/-- A value; a constant one has no variables. -/
def anyValue (constant : Bool) : Parser Value := do value constant (← bound)

/-- A type reference nested at most `depth` deep. -/
def typeRefWithin : (depth : Nat) → Parser TypeRef
  | 0 => unexpected
  | depth + 1 => do
    if ← skip .bracketL then
      let here := (← peek).span
      let elem ← typeRefWithin depth
      discard (expect .bracketR)
      return .list elem (← skip .bang) here
    else
      let here := (← peek).span
      let n ← name
      return .named n (← skip .bang) here

/-- A type reference. -/
def typeRef : Parser TypeRef := do typeRefWithin (← bound)

/-- An argument. -/
def argument (constant : Bool) : Parser Argument := do
  let here := (← peek).span
  let n ← name
  discard (expect .colon)
  return ⟨n, ← anyValue constant, here⟩

/-- Arguments in parentheses, if there are any. -/
def arguments (constant : Bool) : Parser (List Argument) :=
  nonEmpty .parenL .parenR (argument constant)

/-- A directive. -/
def directive (constant : Bool) : Parser Directive := do
  discard (expect .atSign)
  let here := (← peek).span
  let n ← name
  return ⟨n, ← arguments constant, here⟩

/-- Any number of directives. -/
def directives (constant : Bool) : Parser (List Directive) := do
  whileNext .atSign (directive constant) (← bound)

/-- A default value after an equals sign, if there is one. -/
def defaultValue : Parser (Option Value) := do
  if ← skip .equals then return some (← anyValue true) else return none

/-! ### Selections -/

/-- A selection set that has to be there. -/
def requiredSet {α : Type} (item : Parser α) : Parser (List α) := do
  let t ← peek
  if t.kind = .braceL then nonEmpty .braceL .braceR item
  else complain (.expectedKind .braceL t.kind) t

/-- A field. -/
def field (selection : Parser Selection) : Parser Selection := do
  let here := (← peek).span
  let key ← name
  let n ← if ← skip .colon then name else pure key
  let args ← arguments false
  let dirs ← directives false
  let sel ←
    if (← peek).kind = .braceL then
      pure (some (← nonEmpty .braceL .braceR selection))
    else pure none
  return .field key n args dirs sel here

/-- The name of a fragment, which may not be `on`. -/
def fragmentName : Parser String := do
  if (← peek).value = "on" then unexpected else name

/-- A fragment spread or an inline fragment. -/
def fragment (selection : Parser Selection) : Parser Selection := do
  discard (expect .spread)
  let t ← peek
  if t.kind = .name ∧ t.value ≠ "on" then
    let n ← fragmentName
    return .spread n (← directives false) t.span
  else
    let cond ←
      if t.value = "on" then
        discard next
        pure (some (← name))
      else pure none
    let dirs ← directives false
    return .inline cond dirs (← requiredSet selection) t.span

/-- A selection nested at most `depth` deep. -/
def selection : (depth : Nat) → Parser Selection
  | 0 => unexpected
  | depth + 1 => do
    if (← peek).kind = .spread then fragment (selection depth) else field (selection depth)

/-- A selection set that has to be there. -/
def selectionSet : Parser (List Selection) := do requiredSet (selection (← bound))

/-! ### Definitions -/

/-- A variable definition. -/
def variableDefinition : Parser VariableDefinition := do
  let here := (← peek).span
  let n ← variableName
  discard (expect .colon)
  let t ← typeRef
  let d ← defaultValue
  return ⟨n, t, d, ← directives false, here⟩

/-- Variable definitions in parentheses, if there are any. -/
def variableDefinitions : Parser (List VariableDefinition) :=
  nonEmpty .parenL .parenR variableDefinition

/-- The keyword of an operation. Only its text is looked at. -/
def operationType : Parser Operation := do
  let s ← get
  let t ← next
  match Operation.ofKeyword? t.value with
  | some op => return op
  | none =>
    match t.kind, s.fault with
    | .invalid, some f => complain (.fault f) t
    | _, _ => unexpectedToken t

/-- An operation. -/
def operation : Parser OperationDefinition := do
  let t ← peek
  if t.kind = .braceL then
    return ⟨.query, none, [], [], ← selectionSet, t.span⟩
  else
    let op ← operationType
    let n ← if (← peek).kind = .name then pure (some (← next).value) else pure none
    let vars ← variableDefinitions
    let dirs ← directives false
    return ⟨op, n, vars, dirs, ← selectionSet, t.span⟩

/-- A fragment definition. -/
def fragmentDefinition : Parser FragmentDefinition := do
  let t ← peek
  expectWord "fragment"
  let n ← fragmentName
  let vars ← variableDefinitions
  expectWord "on"
  let cond ← name
  let dirs ← directives false
  return ⟨n, vars, cond, dirs, ← selectionSet, t.span⟩

/-- The definitions of a query text, at most `bound` of them. -/
def queryDefinitions (doc : QueryDocument) : (bound : Nat) → Parser QueryDocument
  | 0 => return doc
  | bound + 1 => do
    let t ← peek
    match t.kind with
    | .endOfText => return doc
    | .braceL =>
      let op ← operation
      queryDefinitions { doc with operations := doc.operations ++ [op] } bound
    | .name =>
      if (Operation.ofKeyword? t.value).isSome then
        let op ← operation
        queryDefinitions { doc with operations := doc.operations ++ [op] } bound
      else if t.value = "fragment" then
        let f ← fragmentDefinition
        queryDefinitions { doc with fragments := doc.fragments ++ [f] } bound
      else unexpected
    | _ => unexpected

/-- The definitions of a query text. -/
def queryDocument : Parser QueryDocument := do queryDefinitions {} (← bound)

end Parser

/-- Reads a query text. -/
def parseQuery (text : String) : Except SyntaxError QueryDocument :=
  (Parser.queryDocument.run (tokens text)).map Prod.fst

end QueryCheck.Written

import QueryCheck.Text.Quoted

/-! # Tokens

The tokens of the query language with their place in the text, and the faults that end a text early.
Offsets count characters from zero and lines from one. The column of a token is counted from the
start of its line, and since a string token may end on a later line than it starts, it is a whole
number that may be zero or less. -/

namespace QueryCheck.Source

open QueryCheck.Text (quote)

/-- The kind of a token. -/
inductive TokenKind where
  | bang
  | dollar
  | amp
  | parenL
  | parenR
  | spread
  | colon
  | equals
  | atSign
  | bracketL
  | bracketR
  | braceL
  | braceR
  | pipe
  | name
  | int
  | float
  | string
  | blockString
  | endOfText
  | invalid
  deriving DecidableEq, Repr, Inhabited

/-- How messages show a kind of token. -/
def TokenKind.shown : TokenKind → String
  | bang => "!"
  | dollar => "$"
  | amp => "&"
  | parenL => "("
  | parenR => ")"
  | spread => "..."
  | colon => ":"
  | equals => "="
  | atSign => "@"
  | bracketL => "["
  | bracketR => "]"
  | braceL => "\x7b"
  | braceR => "\x7d"
  | pipe => "|"
  | name => "Name"
  | int => "Int"
  | float => "Float"
  | string => "String"
  | blockString => "BlockString"
  | endOfText => "<EOF>"
  | invalid => "<Invalid>"

/-- A stretch of text: the offsets of its first character and of the one after its last, and the
line a message about it names. -/
structure Span where
  start : Nat
  stop : Nat
  line : Nat
  deriving DecidableEq, Repr, Inhabited

/-- A token. Punctuation has no value. -/
structure Token where
  kind : TokenKind
  value : String
  span : Span
  column : Int
  deriving DecidableEq, Repr, Inhabited

/-- How messages show a token: its kind and its value, if it has one. -/
def Token.shown (t : Token) : String :=
  if t.value = "" then t.kind.shown else t.kind.shown ++ " " ++ quote t.value

/-- Why no token could be read. -/
inductive Fault where
  | control (c : Char)
  | singleQuote
  | unexpectedCharacter (c : Char)
  | digitAfterZero (next : Option Char)
  | noDigit (next : Option Char)
  | controlInString (c : Char)
  | badEscape (rest : String)
  | unterminated
  deriving DecidableEq, Repr, Inhabited

namespace Fault

/-- A number in decimal, with zeros in front up to four digits. -/
def fourDigits (n : Nat) : String :=
  let ds := toString n
  "".pushn '0' (4 - ds.length) ++ ds

/-- The character a number was followed by. -/
def following : Option Char → String
  | some c => "\"" ++ c.toString ++ "\""
  | none => "<EOF>"

/-- What a fault says of itself. -/
def message : Fault → String
  | control c => "Cannot contain the invalid character \"\\u" ++ fourDigits c.toNat ++ "\""
  | singleQuote =>
    "Unexpected single quote character ('), did you mean to use a double quote (\")?"
  | unexpectedCharacter c =>
    let first := ((c.toString.toUTF8.toList.head?).map fun b => Char.ofNat b.toNat).getD c
    "Cannot parse the unexpected character \"" ++ first.toString ++ "\"."
  | digitAfterZero next => "Invalid number, unexpected digit after 0: " ++ following next ++ "."
  | noDigit next => "Invalid number, expected digit but got: " ++ following next ++ "."
  | controlInString c => "Invalid character within String: \"\\u" ++ fourDigits c.toNat ++ "\"."
  | badEscape rest =>
    if rest = "" then "Invalid character escape sequence."
    else "Invalid character escape sequence: \\" ++ rest ++ "."
  | unterminated => "Unterminated string."

end Fault

/-- The tokens of a text. `last` stands at the end: it is the end of the text, or an invalid token
together with the fault that made it so. -/
structure Stream where
  tokens : List Token
  last : Token
  fault : Option Fault := none
  deriving Repr, Inhabited

namespace Stream

/-- The next token. -/
def peek (s : Stream) : Token := s.tokens.headD s.last

/-- The tokens after the next one. -/
def advance (s : Stream) : Stream := { s with tokens := s.tokens.tail }

end Stream

end QueryCheck.Source

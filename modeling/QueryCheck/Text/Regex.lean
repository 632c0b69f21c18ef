import QueryCheck.Text.Lower

/-! # Regular expressions

Regular expressions without references back: characters, sets, groups, alternatives, repetitions and
anchors, with flags for letters of either case, for line breaks and for lines.

An expression maps the places in a text where a match may start to those where it may end
(`Regex.ends`); a repetition closes the set of places. There are no more places than characters and
one, so as many rounds suffice.

* `Regex.parse`: the expression of a pattern, or why it is malformed;
* `Regex.occursIn`: whether an expression matches somewhere in a text. -/

namespace QueryCheck.Text

/-- A regular expression. -/
inductive Regex where
  | nothing
  | char (c : Char) (anyCase : Bool)
  | any (breaks : Bool)
  | set (negated : Bool) (ranges : List (Nat × Nat)) (anyCase : Bool)
  | textStart
  | textEnd
  | lineStart
  | lineEnd
  | wordEdge (negated : Bool)
  | seq (a b : Regex)
  | alt (a b : Regex)
  | star (a : Regex)
  deriving DecidableEq, Repr, Inhabited

namespace Regex

/-! ### Matching -/

/-- Whether a number lies in one of the ranges. -/
def inSet (ranges : List (Nat × Nat)) (c : Char) : Bool :=
  ranges.any fun r => r.1 ≤ c.toNat && c.toNat ≤ r.2

/-- Whether a character is a letter, a digit or an underscore. -/
def isWord (c : Char) : Bool := c.isAlphanum || c = '_'

/-- Whether an edge of a word is at a place. -/
def atEdge (s : Array Char) (i : Nat) : Bool :=
  let before := i ≠ 0 && (s[i - 1]?).any isWord
  let after := (s[i]?).any isWord
  before != after

/-- Whether a character belongs to a set, of either case if asked for. -/
def setHas (ranges : List (Nat × Nat)) (anyCase : Bool) (c : Char) : Bool :=
  inSet ranges c || anyCase && (inSet ranges c.toLower || inSet ranges c.toUpper)

/-- The places behind one character that satisfies a test. -/
def stepWhere (s : Array Char) (test : Char → Bool) (places : List Nat) : List Nat :=
  (places.filter fun i => (s[i]?).any test).map (· + 1)

/-- Places without repetitions. -/
def distinct (places : List Nat) : List Nat := places.foldl (fun ps p => if ps.contains p then ps else ps ++ [p]) []

/-- The places reached by any number of steps, up to `rounds`. -/
def close (step : List Nat → List Nat) : (rounds : Nat) → List Nat → List Nat
  | 0, places => places
  | rounds + 1, places => close step rounds (distinct (places ++ step places))

/-- The places where a match that starts at one of the given places may end. -/
def ends (s : Array Char) : Regex → List Nat → List Nat
  | nothing, ps => ps
  | char c anyCase, ps =>
    stepWhere s (fun d => c = d || anyCase && lowerChar c = lowerChar d) ps
  | any breaks, ps => stepWhere s (fun d => breaks || d ≠ '\n') ps
  | set negated ranges anyCase, ps => stepWhere s (fun d => setHas ranges anyCase d != negated) ps
  | textStart, ps => ps.filter (· = 0)
  | textEnd, ps => ps.filter (· = s.size)
  | lineStart, ps => ps.filter fun i => i = 0 || s[i - 1]? = some '\n'
  | lineEnd, ps => ps.filter fun i => i = s.size || s[i]? = some '\n'
  | wordEdge negated, ps => ps.filter fun i => atEdge s i != negated
  | seq a b, ps => ends s b (ends s a ps)
  | alt a b, ps => distinct (ends s a ps ++ ends s b ps)
  | star a, ps => close (ends s a) (s.size + 1) ps

/-- Whether an expression matches somewhere in a text. -/
def occursIn (r : Regex) (text : String) : Bool :=
  let s := text.toList.toArray
  !(r.ends s (List.range (s.size + 1))).isEmpty

/-! ### Reading patterns -/

/-- What is wrong with a pattern. -/
inductive Fault where
  | missingParen
  | unexpectedParen
  | missingArgument
  | nestedRepeat
  | repeatCount
  | classRange
  | missingBracket
  | escape
  | trailingBackslash
  | flags
  | groupName
  deriving DecidableEq, Repr, Inhabited

/-- The wording of a fault. -/
def Fault.message : Fault → String
  | missingParen => "missing closing )"
  | unexpectedParen => "unexpected )"
  | missingArgument => "missing argument to repetition operator"
  | nestedRepeat => "invalid nested repetition operator"
  | repeatCount => "invalid repeat count"
  | classRange => "invalid character class range"
  | missingBracket => "missing closing ]"
  | escape => "invalid escape sequence"
  | trailingBackslash => "trailing backslash at end of expression"
  | flags => "invalid or unsupported Perl syntax"
  | groupName => "invalid named capture"

/-- A fault with the part of the pattern it is in. -/
structure PatternError where
  fault : Fault
  part : String
  deriving DecidableEq, Repr, Inhabited

/-- The wording of an error. -/
def PatternError.message (e : PatternError) : String :=
  "error parsing regexp: " ++ e.fault.message ++ ": `" ++ e.part ++ "`"

/-- The part of a text before one of its rests. -/
def upTo (cs rest : List Char) : String := String.ofList (cs.take (cs.length - rest.length))

/-- An error with a part given by characters. -/
def wrong {α : Type} (f : Fault) (part : String) : Except PatternError α := .error ⟨f, part⟩

/-- The flags that hold at a place. -/
structure Mode where
  anyCase : Bool := false
  lines : Bool := false
  breaks : Bool := false
  deriving DecidableEq, Repr, Inhabited

/-- The sets named by a letter behind a backslash. -/
def letterSet? : Char → Option (Bool × List (Nat × Nat))
  | 'd' => some (false, [(48, 57)])
  | 'D' => some (true, [(48, 57)])
  | 's' => some (false, [(9, 10), (12, 13), (32, 32)])
  | 'S' => some (true, [(9, 10), (12, 13), (32, 32)])
  | 'w' => some (false, [(48, 57), (65, 90), (95, 95), (97, 122)])
  | 'W' => some (true, [(48, 57), (65, 90), (95, 95), (97, 122)])
  | _ => none

/-- The complement of ranges, as ranges. -/
def complement (ranges : List (Nat × Nat)) : List (Nat × Nat) :=
  let sorted := ranges.mergeSort fun a b => a.1 ≤ b.1
  let (out, next) := sorted.foldl (fun (acc : List (Nat × Nat) × Nat) r =>
    if acc.2 < r.1 then (acc.1 ++ [(acc.2, r.1 - 1)], max acc.2 (r.2 + 1))
    else (acc.1, max acc.2 (r.2 + 1))) ([], 0)
  if next ≤ 0x10ffff then out ++ [(next, 0x10ffff)] else out

/-- The sets named by a word between brackets and colons. -/
def wordSet? (name : String) : Option (List (Nat × Nat)) :=
  [("alnum", [(48, 57), (65, 90), (97, 122)]), ("alpha", [(65, 90), (97, 122)]), ("ascii", [(0, 127)]),
   ("blank", [(9, 9), (32, 32)]), ("cntrl", [(0, 31), (127, 127)]), ("digit", [(48, 57)]),
   ("graph", [(33, 126)]), ("lower", [(97, 122)]), ("print", [(32, 126)]),
   ("punct", [(33, 47), (58, 64), (91, 96), (123, 126)]), ("space", [(9, 13), (32, 32)]),
   ("upper", [(65, 90)]), ("word", [(48, 57), (65, 90), (95, 95), (97, 122)]),
   ("xdigit", [(48, 57), (65, 70), (97, 102)])].lookup name

/-- The value of a hexadecimal digit. -/
def hexValue? (c : Char) : Option Nat :=
  if '0' ≤ c ∧ c ≤ '9' then some (c.toNat - '0'.toNat)
  else if 'a' ≤ c.toLower ∧ c.toLower ≤ 'f' then some (c.toLower.toNat - 'a'.toNat + 10)
  else none

/-- The number written by hexadecimal digits. -/
def hexNumber (cs : List Char) : Nat := cs.foldl (fun n c => n * 16 + (hexValue? c).getD 0) 0

/-- The character of an escape sequence, whose backslash comes first, and what follows. -/
def escaped (cs : List Char) : Except PatternError (Char × List Char) :=
  match cs.drop 1 with
  | [] => wrong .trailingBackslash ""
  | c :: rest =>
    let octal (start : List Char) : Except PatternError (Char × List Char) :=
      let digits := (start.takeWhile fun d => '0' ≤ d && d ≤ '7').take 3
      .ok (Char.ofNat (digits.foldl (fun n d => n * 8 + (d.toNat - '0'.toNat)) 0), start.drop digits.length)
    match c with
    | 'a' => .ok (Char.ofNat 7, rest)
    | 'f' => .ok (Char.ofNat 12, rest)
    | 'n' => .ok ('\n', rest)
    | 'r' => .ok ('\r', rest)
    | 't' => .ok ('\t', rest)
    | 'v' => .ok (Char.ofNat 11, rest)
    | '0' => octal (c :: rest)
    | 'x' =>
      match rest with
      | '\x7b' :: more =>
        let digits := more.takeWhile fun d => (hexValue? d).isSome
        match more.drop digits.length with
        | '\x7d' :: after =>
          if digits.isEmpty || 0x10ffff < hexNumber digits then wrong .escape (upTo cs after)
          else .ok (Char.ofNat (hexNumber digits), after)
        | after => wrong .escape (upTo cs (after.drop 1))
      | d :: e :: after =>
        if (hexValue? d).isSome && (hexValue? e).isSome then .ok (Char.ofNat (hexNumber [d, e]), after)
        else wrong .escape (upTo cs after)
      | _ => wrong .escape (String.ofList cs)
    | c =>
      if '1' ≤ c ∧ c ≤ '7' then
        match rest with
        | d :: _ => if '0' ≤ d ∧ d ≤ '7' then octal (c :: rest) else wrong .escape (upTo cs rest)
        | [] => wrong .escape (upTo cs rest)
      else if c.toNat < 0x80 && !c.isAlphanum then .ok (c, rest)
      else wrong .escape (upTo cs rest)

/-- A character of a set, and what follows. -/
def setChar (whole : List Char) : List Char → Except PatternError (Char × List Char)
  | [] => wrong .missingBracket (String.ofList whole)
  | '\\' :: cs => escaped ('\\' :: cs)
  | c :: cs => .ok (c, cs)

/-- A single character or a range at the front of a set, and what follows. -/
def setSpan (whole cs : List Char) : Except PatternError (List (Nat × Nat) × List Char) := do
  let (lo, rest) ← setChar whole cs
  match rest with
  | '-' :: d :: more =>
    if d = ']' then return ([(lo.toNat, lo.toNat)], rest)
    else
      let (hi, rest) ← setChar whole (d :: more)
      if hi < lo then wrong .classRange (upTo cs rest) else return ([(lo.toNat, hi.toNat)], rest)
  | rest => return ([(lo.toNat, lo.toNat)], rest)

/-- Ranges, or all that is outside of them. -/
def chosen (negated : Bool) (ranges : List (Nat × Nat)) : List (Nat × Nat) :=
  if negated then complement ranges else ranges

/-- One item of a set: a set with a name of its own, a character or a range. -/
def setItem (whole : List Char) (cs : List Char) : Except PatternError (List (Nat × Nat) × List Char) :=
  match cs with
  | '[' :: ':' :: more =>
    let name := more.takeWhile (· ≠ ':')
    let negated := name.head? = some '^'
    match more.drop name.length, wordSet? (String.ofList (if negated then name.drop 1 else name)) with
    | ':' :: ']' :: rest, some ranges => .ok (chosen negated ranges, rest)
    | ':' :: ']' :: rest, none => wrong .classRange (upTo cs rest)
    | _, _ => setSpan whole cs
  | '\\' :: c :: rest =>
    match letterSet? c with
    | some (negated, ranges) => .ok (chosen negated ranges, rest)
    | none => setSpan whole cs
  | cs => setSpan whole cs

/-- The ranges of a set up to its closing bracket. `whole` starts at the opening one. -/
def setItems (whole : List Char) :
    (fuel : Nat) → (first : Bool) → List Char → Except PatternError (List (Nat × Nat) × List Char)
  | 0, _, _ => wrong .missingBracket (String.ofList whole)
  | fuel + 1, first, cs => do
    match first, cs with
    | false, ']' :: rest => return ([], rest)
    | _, cs =>
      let (ranges, rest) ← setItem whole cs
      let (more, rest) ← setItems whole fuel false rest
      return (ranges ++ more, rest)

/-- The set at the front, whose opening bracket comes first. -/
def readSet (mode : Mode) (whole : List Char) : Except PatternError (Regex × List Char) := do
  let (negated, cs) := match whole.drop 1 with
    | '^' :: more => (true, more)
    | more => (false, more)
  let (ranges, rest) ← setItems whole (cs.length + 1) true cs
  return (.set negated ranges mode.anyCase, rest)

/-- The numbers between the braces of a repetition: the least and, if there is one, the greatest. -/
def repeatCounts? (cs : List Char) : Option ((Nat × Option Nat) × List Char) :=
  let number (ds : List Char) : Nat := ds.foldl (fun n d => n * 10 + (d.toNat - '0'.toNat)) 0
  let least := cs.takeWhile Char.isDigit
  let fits (ds : List Char) : Bool := !ds.isEmpty && !(1 < ds.length && ds.head? = some '0')
  if !fits least then none
  else match cs.drop least.length with
    | '\x7d' :: rest => some ((number least, some (number least)), rest)
    | ',' :: '\x7d' :: rest => some ((number least, none), rest)
    | ',' :: more =>
      let most := more.takeWhile Char.isDigit
      match fits most, more.drop most.length with
      | true, '\x7d' :: rest => some ((number least, some (number most)), rest)
      | _, _ => none
    | _ => none

/-- An expression several times. -/
def times (r : Regex) : Nat → Regex
  | 0 => nothing
  | n + 1 => seq r (times r n)

/-- An expression up to several times. -/
def upToTimes (r : Regex) : Nat → Regex
  | 0 => nothing
  | n + 1 => alt (seq r (upToTimes r n)) nothing

/-- An expression between the least and the greatest number of times. -/
def between (r : Regex) (least : Nat) : Option Nat → Regex
  | none => seq (times r least) (star r)
  | some most => seq (times r least) (upToTimes r (most - least))

/-- The repetition at the front: its operator, none if there is none, and what follows. -/
def repetition? : List Char → Option ((Nat × Option Nat) × List Char)
  | '*' :: cs => some ((0, none), cs)
  | '+' :: cs => some ((1, none), cs)
  | '?' :: cs => some ((0, some 1), cs)
  | '\x7b' :: cs => repeatCounts? cs
  | _ => none

/-- The flags of a group behind its opening parenthesis and question mark: the flags that hold from
there on, whether the group goes on, and what follows. -/
def groupFlags (whole : List Char) :
    (mode : Mode) → (negated seen : Bool) → List Char → Except PatternError (Mode × Bool × List Char)
  | _, _, _, [] => wrong .missingParen (String.ofList whole)
  | mode, negated, seen, c :: cs =>
    match c with
    | 'i' => groupFlags whole { mode with anyCase := !negated } negated true cs
    | 'm' => groupFlags whole { mode with lines := !negated } negated true cs
    | 's' => groupFlags whole { mode with breaks := !negated } negated true cs
    | 'U' => groupFlags whole mode negated true cs
    | '-' => if negated then wrong .flags (upTo whole cs) else groupFlags whole mode true false cs
    | ':' => if negated && !seen then wrong .flags (upTo whole cs) else .ok (mode, true, cs)
    | ')' => if negated && !seen then wrong .flags (upTo whole cs) else .ok (mode, false, cs)
    | _ => wrong .flags (upTo whole cs)

/-- The text behind the name of a group, if it has one. `whole` starts at the opening
parenthesis. -/
def groupName (whole : List Char) : Except PatternError (Option (List Char)) :=
  let named (cs : List Char) : Except PatternError (Option (List Char)) :=
    let name := cs.takeWhile (· ≠ '>')
    match cs.drop name.length with
    | _ :: rest =>
      if name.isEmpty || !name.all isWord then wrong .groupName (upTo whole rest) else .ok (some rest)
    | [] => wrong .groupName (String.ofList whole)
  match whole.drop 2 with
  | 'P' :: '<' :: cs => named cs
  | '<' :: cs => named cs
  | _ => .ok none

/-- The single pieces written with a backslash, behind it. -/
def anchor? : Char → Option Regex
  | 'A' => some textStart
  | 'z' => some textEnd
  | 'b' => some (wordEdge false)
  | 'B' => some (wordEdge true)
  | _ => none

/-- Characters one after the other. -/
def literal (mode : Mode) (cs : List Char) : List Regex := cs.map fun c => char c mode.anyCase

/-- The text up to the end of a quotation, and what follows it. -/
def quotation : List Char → List Char × List Char
  | [] => ([], [])
  | '\\' :: 'E' :: cs => ([], cs)
  | c :: cs => let (xs, rest) := quotation cs; (c :: xs, rest)

/-- Pieces one after the other. -/
def sequence (rs : List Regex) : Regex := rs.foldr seq nothing

/-- A single piece that is no group, and what follows. -/
def piece (mode : Mode) (cs : List Char) : Except PatternError (List Regex × List Char) :=
  match cs with
  | [] => .ok ([], [])
  | '.' :: rest => .ok ([any mode.breaks], rest)
  | '^' :: rest => .ok ([if mode.lines then lineStart else textStart], rest)
  | '$' :: rest => .ok ([if mode.lines then lineEnd else textEnd], rest)
  | '[' :: _ => do
    let (r, rest) ← readSet mode cs
    return ([r], rest)
  | '\\' :: 'Q' :: rest =>
    let (xs, rest) := quotation rest
    .ok (literal mode xs, rest)
  | '\\' :: c :: rest =>
    match letterSet? c, anchor? c with
    | some (negated, ranges), _ => .ok ([set negated ranges mode.anyCase], rest)
    | none, some r => .ok ([r], rest)
    | none, none => do
      let (x, rest) ← escaped cs
      return (literal mode [x], rest)
  | ['\\'] => wrong .trailingBackslash ""
  | c :: rest => .ok (literal mode [c], rest)

/-- Whether a repetition counts too far or backwards. -/
def tooMany (least : Nat) (most : Option Nat) : Bool :=
  1000 < least || most.any fun m => 1000 < m || m < least

mutual

/-- The pieces of one alternative behind those before, and what follows it: an alternative, the end
of a group or the end of the pattern. `last` is the text from the repetition on that stands right
before. -/
def branch (whole : List Char) : (fuel : Nat) → Mode → List Regex → (last : Option (List Char)) →
    List Char → Except PatternError (Regex × Mode × List Char)
  | 0, _, _, _, _ => wrong .missingParen (String.ofList whole)
  | fuel + 1, mode, before, last, cs => do
    match cs with
    | [] => return (sequence before, mode, [])
    | '|' :: _ => return (sequence before, mode, cs)
    | ')' :: _ => return (sequence before, mode, cs)
    | '(' :: '?' :: rest =>
      match ← groupName cs with
      | some rest =>
        let (r, rest) ← group whole fuel mode rest
        branch whole fuel mode (before ++ [r]) none rest
      | none =>
        let (inner, goesOn, rest) ← groupFlags cs mode false false rest
        if goesOn then
          let (r, rest) ← group whole fuel inner rest
          branch whole fuel mode (before ++ [r]) none rest
        else branch whole fuel inner before none rest
    | '(' :: rest =>
      let (r, rest) ← group whole fuel mode rest
      branch whole fuel mode (before ++ [r]) none rest
    | cs =>
      match repetition? cs with
      | some ((least, most), rest) =>
        let after := match rest with
          | '?' :: more => more
          | more => more
        match last, before.getLast? with
        | some start, _ => wrong .nestedRepeat (upTo start after)
        | none, none =>
          if tooMany least most then wrong .repeatCount (upTo cs rest)
          else wrong .missingArgument (upTo cs after)
        | none, some r =>
          if tooMany least most then wrong .repeatCount (upTo cs rest)
          else branch whole fuel mode (before.dropLast ++ [between r least most]) (some cs) after
      | none =>
        let (rs, rest) ← piece mode cs
        branch whole fuel mode (before ++ rs) none rest

/-- The alternatives of a group or of the pattern, and what follows. -/
def choice (whole : List Char) : (fuel : Nat) → Mode → List Char → Except PatternError (Regex × List Char)
  | 0, _, _ => wrong .missingParen (String.ofList whole)
  | fuel + 1, mode, cs => do
    let (r, mode, rest) ← branch whole fuel mode [] none cs
    match rest with
    | '|' :: more =>
      let (other, rest) ← choice whole fuel mode more
      return (alt r other, rest)
    | rest => return (r, rest)

/-- The alternatives of a group with the closing parenthesis. -/
def group (whole : List Char) : (fuel : Nat) → Mode → List Char → Except PatternError (Regex × List Char)
  | 0, _, _ => wrong .missingParen (String.ofList whole)
  | fuel + 1, mode, cs => do
    let (r, rest) ← choice whole fuel mode cs
    match rest with
    | ')' :: rest => return (r, rest)
    | _ => wrong .missingParen (String.ofList whole)

end

/-- The expression of a pattern. -/
def parse (pattern : String) : Except PatternError Regex := do
  let cs := pattern.toList
  let (r, rest) ← choice cs (3 * cs.length + 3) {} cs
  match rest with
  | [] => return r
  | _ => wrong .unexpectedParen pattern

end Regex

end QueryCheck.Text

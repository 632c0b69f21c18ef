import QueryCheck.Command.Input
import QueryCheck.Report.Diagnostic
import QueryCheck.Text.Suggest
import QueryCheck.Validation.Basic

/-! # Checking documents

A document is checked together with the directive definitions of the run: they are added to its own
definitions. Problems that lie in the added definitions are not charged to the document; the
definitions are checked once by themselves.

* `Check.problems`: the problems of a document that are its own;
* `Check.document`, `Check.definitionsAlone`: the verdicts on a document and on the definitions;
* `Verdict.text`, `Verdict.data`: a verdict as a report and as data. -/

namespace QueryCheck.Command

open QueryCheck.Data (Value)
open QueryCheck.Report (Diagnostic)
open QueryCheck.Syntax
open QueryCheck.Validation

/-! ### Problems -/

/-- What all documents of a run are checked with. -/
structure Check where
  schema : Option Schema
  definitions : List Node
  /-- The text the definitions were read from. -/
  definitionsText : String := ""
  rules : List Rule
  maxDepth : Int

/-- A place for every node of a list. -/
def placesFor (ns : List Node) : List (Child Node) := ns.map .node

/-- The document that holds nothing but the given definitions. -/
def documentOf (definitions : List Node) : Node := .document (placesFor definitions) none

/-- The location of the first node of a problem that has one. -/
def firstLocation? (p : Problem) : Option Location :=
  p.nodes.findSome? fun c => c.toOption.bind Node.loc

/-- Whether a problem lies in the added directive definitions. -/
def inDefinitions (p : Problem) : Bool :=
  match firstLocation? p with
  | some l => l.origin = .definitions
  | none => false

namespace Check

/-- All problems of a document as it stands. -/
def run (c : Check) (doc : Node) : List Problem := (validate c.schema doc c.rules c.maxDepth).getD []

/-- A document with the directive definitions of the run behind its own. -/
def extended (c : Check) (doc : Node) : Node := doc.appendDefinitions (placesFor c.definitions)

/-- The problems of a document that are its own. -/
def problems (c : Check) (doc : Node) : List Problem :=
  (c.run (c.extended doc)).filter fun p => !inDefinitions p

end Check

/-! ### Verdicts -/

/-- A place in a text, counted from one. -/
structure Place where
  line : Int
  column : Int
  deriving DecidableEq, Repr, Inhabited

/-- Something that is wrong in a text: what it is, the rule it breaks, the places it is at, and the
number of characters it spans at the first of them. -/
structure Finding where
  message : String
  rule : String
  places : List Place := []
  span : Int := 0
  deriving DecidableEq, Repr, Inhabited

/-- The finding of a problem. -/
def Finding.ofProblem (p : Problem) : Finding where
  message := p.message
  rule := p.rule
  places := (p.locations?.getD []).map fun l => ⟨l.line, l.column⟩
  span := match firstLocation? p with
    | some l => l.stop - l.start
    | none => 0

/-- The name given as the rule that texts which cannot be read break. -/
def syntaxRule : String := "Syntax"

/-- The finding of a text that cannot be read. -/
def Finding.ofSyntaxError (e : Written.SyntaxError) : Finding where
  message := e.complaint.message
  rule := syntaxRule
  places := if 0 < e.line then [⟨e.line, e.column⟩] else []

/-- The verdict on a text: what is wrong in it. The document is missing if the text cannot be
read. -/
structure Verdict where
  source : Source
  document : Option Node
  findings : List Finding
  deriving Inhabited

/-- Whether nothing is wrong. -/
def Verdict.valid (v : Verdict) : Bool := v.findings.isEmpty

namespace Check

/-- The verdict on a text. -/
def document (c : Check) (s : Source) : Verdict :=
  match parseDocument s.text with
  | .error e => ⟨s, none, [.ofSyntaxError e]⟩
  | .ok doc => ⟨s, some (c.extended doc), (c.problems doc).map .ofProblem⟩

/-- The verdict on the directive definitions by themselves, under a name; none when nothing is wrong
with them. -/
def definitionsAlone (c : Check) (name : String) : Option Verdict :=
  let doc := documentOf c.definitions
  let findings := (c.run doc).map Finding.ofProblem
  if c.definitions.isEmpty || findings.isEmpty then none
  else some ⟨⟨name, c.definitionsText⟩, some doc, findings⟩

/-- The verdicts of a run: on the definitions, if something is wrong with them, and on each text. -/
def verdicts (c : Check) (name : String) (sources : List Source) : List Verdict :=
  (c.definitionsAlone name).toList ++ sources.map c.document

end Check

/-! ### Help -/

/-- The name in the message about an unknown fragment. -/
def unknownFragment? (message : String) : Option String :=
  let intro := "Unknown fragment \"".toList
  if intro.isPrefixOf message.toList then
    let rest := message.toList.drop intro.length
    let name := rest.takeWhile (· ≠ '"')
    if name.isEmpty || name.length = rest.length then none else some (String.ofList name)
  else none

/-- The greatest distance of a suggestion. -/
def suggestionDistance : Int := 5

/-- The names of the fragments of a document. -/
def fragmentNames (doc : Node) : List String :=
  doc.fragments.map fun
    | .fragmentDefinition name _ _ _ _ _ => name.nameText
    | _ => ""

/-- The fragment that may have been meant by an unknown one. -/
def meantFragment? (f : Finding) (doc : Option Node) : Option String := do
  guard (f.rule = Rule.knownFragmentNames.name)
  let name ← unknownFragment? f.message
  Text.closest? name (fragmentNames (← doc)) suggestionDistance

/-- Whether an exclamation mark behind a backslash stands at a place of a text. -/
def escapedMarkAt (text : String) (p : Place) : Bool :=
  if p.line < 1 || p.column < 1 then false
  else match (Text.lines text.toList)[(p.line - 1).toNat]? with
    | some line => (line.drop (p.column - 1).toNat).take 2 = ['\\', '!']
    | none => false

/-- Advice for a text that a shell has changed on its way to the standard input. -/
def shellAdvice : String :=
  "it looks like zsh escaped `!` as `\\!`. Try using a heredoc instead:\n"
    ++ "       cat <<'EOF' | gqlcheck validate\n"
    ++ "       query \x7b ... \x7d\n"
    ++ "       EOF"

/-- The help for a finding. -/
def Verdict.help (v : Verdict) (f : Finding) : List String :=
  if v.source.name = inputName && (f.places.head?.map (escapedMarkAt v.source.text)).getD false then
    [shellAdvice]
  else match meantFragment? f v.document with
    | some name => ["did you mean `" ++ name ++ "`?"]
    | none => []

/-! ### Reports -/

namespace Verdict

/-- The report of one finding. -/
def diagnostic (v : Verdict) (f : Finding) : Diagnostic where
  file := v.source.name
  line := (f.places.head?.map Place.line).getD 0
  column := (f.places.head?.map Place.column).getD 0
  length := if 0 < f.span then f.span else 1
  message := f.message
  help := v.help f

/-- The line that says how many findings there are. -/
def heading (v : Verdict) : String :=
  match v.findings with
  | [] => "✓ Query is valid\n"
  | [_] => "✗ Query has 1 error:\n"
  | fs => "✗ Query has " ++ toString fs.length ++ " errors:\n"

/-- A verdict as a report. -/
def text (v : Verdict) : String :=
  v.findings.foldl (fun report f => report ++ (v.diagnostic f).render v.source.text ++ "\n") v.heading

/-- A place as data. -/
def placeData (p : Place) : Value := .map [("line", .int p.line), ("column", .int p.column)]

/-- A finding as data; what is empty is left out. -/
def findingData (f : Finding) : Value :=
  .map ([("message", .str f.message)]
    ++ (if f.rule = "" then [] else [("rule", .str f.rule)])
    ++ (if f.places.isEmpty then [] else [("locations", .list (f.places.map placeData))]))

/-- A verdict as data; its name is told if it is not the only one. -/
def data (v : Verdict) (named : Bool) : Value :=
  .map ((if named && v.source.name ≠ "" then [("file", .str v.source.name)] else [])
    ++ [("valid", .bool v.valid)]
    ++ (if v.valid then [] else [("errors", .list (v.findings.map findingData))]))

end Verdict

/-- Several verdicts as one report: each with its name, and an empty line between them. -/
def reportText : List Verdict → String
  | [v] => v.text
  | vs => String.intercalate "\n" (vs.map fun v => v.source.name ++ "\n" ++ v.text)

/-- Several verdicts as data. -/
def reportData : List Verdict → Value
  | [v] => v.data false
  | vs => .list (vs.map fun v => v.data true)

end QueryCheck.Command
